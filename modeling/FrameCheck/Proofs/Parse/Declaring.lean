import FrameCheck.Proofs.Parse.Totality
import FrameCheck.Proofs.Parse.Units
import FrameCheck.Proofs.Tree.Declarers
import Mathlib.Data.List.Nodup

/-!
# How a parser gives ids to declarations

The ids of declarations come from one counter, also those of attempts that are given up, of the
stubs for skipped declarations, and of what is parsed from the tokens of a template. A function takes
its id before its parts and a property behind them, so the ids do not rise through a tree; but they
lie between the counter before and the counter behind, and none is given out twice (`Fresh`).

`Allots p before after` says that of a parser which goes on from declarers made before.

* `Allots.next`, `Allots.behind`, `Allots.loop` : the rules for combined parsers.
* `Grammar.Declaring` : the parsers of all expressions declare so, whatever a grammar is built on.
-/

namespace FrameCheck

/-! ## Ids that are given out -/

/-- The ids lie from `lo` on and below `hi`, and each stands there once. -/
structure Fresh (lo hi : Nat) (ds : List DeclId) : Prop where
  le : lo ≤ hi
  count_le : ∀ d : Nat, ds.count d ≤ if lo ≤ d ∧ d < hi then 1 else 0

namespace Fresh

variable {lo mid hi : Nat} {ds ds' : List DeclId}

theorem nil (h : lo ≤ hi) : Fresh lo hi [] := ⟨h, fun _ => Nat.zero_le _⟩

theorem append (h : Fresh lo mid ds) (h' : Fresh mid hi ds') : Fresh lo hi (ds ++ ds') where
  le := h.le.trans h'.le
  count_le d := by
    have hle := h.le
    have hle' := h'.le
    have hd := h.count_le d
    have hd' := h'.count_le d
    rw [List.count_append]
    split at hd <;> split at hd' <;> split <;> omega

theorem mono (h : Fresh lo mid ds) (hm : mid ≤ hi) : Fresh lo hi ds := by
  simpa using h.append (nil hm)

/-- The ids may stand in another order, and some may be left out. -/
theorem rearrange (h : Fresh lo hi ds) (hc : ∀ d, ds'.count d ≤ ds.count d) : Fresh lo hi ds' :=
  ⟨h.le, fun d => (hc d).trans (h.count_le d)⟩

theorem nodup (h : Fresh lo hi ds) : ds.Nodup := by
  refine List.nodup_iff_count_le_one.2 fun d => (h.count_le d).trans ?_
  split <;> decide

end Fresh

/-! ## The ids in trees -/

/-- The ids of what declares in all these trees, at any depth. -/
def Expr.declIds (es : List Expr) : List DeclId :=
  (es.flatMap nodes).flatMap fun e => e.declarers.map Declarer.id

@[simp] theorem Expr.declIds_nil : Expr.declIds [] = [] := rfl

@[simp] theorem Expr.declIds_append (es fs : List Expr) :
    Expr.declIds (es ++ fs) = Expr.declIds es ++ Expr.declIds fs := by
  simp [declIds]

theorem Expr.declIds_singleton (e : Expr) :
    Expr.declIds [e] = Expr.declIds e.children ++ e.declarers.map Declarer.id := by
  rw [declIds, List.flatMap_singleton, nodes_eq, List.flatMap_append, List.flatMap_singleton]
  rfl

theorem Expr.declIds_flatMap {α : Type} (f : α → List Expr) (l : List α) :
    Expr.declIds (l.flatMap f) = l.flatMap fun a => Expr.declIds (f a) := by
  simp [declIds, List.flatMap_assoc]

/-- What a list of declarers and the trees beside them declare. -/
def Declarer.idsWith (ds : List Declarer) (es : List Expr) : List DeclId :=
  ds.map id ++ Expr.declIds es

def Block.declIds (b : Block) : List DeclId := Declarer.idsWith b.declarers b.exprs

def Stmt.declIds (s : Stmt) : List DeclId := Declarer.idsWith s.declarers s.exprs

def Body.declIds (b : Body) : List DeclId := Declarer.idsWith b.declarers b.exprs

def Param.declIds (p : Param) : List DeclId := p.decl :: Expr.declIds p.default.toList

def FunDecl.declIds (f : FunDecl) : List DeclId := f.decl :: Declarer.idsWith f.declarers f.exprs

def ValDecl.declIds (v : ValDecl) : List DeclId := v.decl :: Declarer.idsWith v.declarers v.exprs

theorem LambdaParam.map_id_declarers (lambda : ExprId) : ∀ (ps : List LambdaParam) (index : Nat),
    (declarers lambda index ps).map Declarer.id = ps.map LambdaParam.decl
  | [], _ => rfl
  | p :: ps, index => by
    rw [declarers, List.map_cons, List.map_cons, map_id_declarers lambda ps (index + 1)]
    rfl

section

variable (d : DeclId)

theorem Stmt.count_declIds (ss : List Stmt) :
    (Declarer.idsWith (Stmt.declarersOf ss) (Stmt.exprsOf ss)).count d
      = (ss.flatMap Stmt.declIds).count d := by
  induction ss with
  | nil => rfl
  | cons s ss ih =>
    simp only [Stmt.declarersOf, Stmt.exprsOf, Declarer.idsWith, List.map_append,
      Expr.declIds_append, List.count_append, List.flatMap_cons, Stmt.declIds] at ih ⊢
    omega

theorem Param.count_declIds (ps : List Param) :
    (ps.flatMap Param.declIds).count d
      = (ps.map Param.decl).count d + (Expr.declIds (Param.defaults ps)).count d := by
  induction ps with
  | nil => rfl
  | cons p ps ih =>
    simp only [List.flatMap_cons, Param.declIds, List.count_append, List.count_cons, List.map_cons,
      Param.defaults_cons, Expr.declIds_append] at ih ⊢
    omega

theorem FunDecl.count_declIds (f : FunDecl) : f.declIds.count d
    = [f.decl].count d + (f.params.flatMap Param.declIds).count d + f.body.declIds.count d := by
  obtain ⟨decl, name, receiver, params, returnType, body, isProperty, span⟩ := f
  have hparams : (params.map Declarer.param).map Declarer.id = params.map Param.decl := by
    rw [List.map_map]
    rfl
  simp only [FunDecl.declIds, Declarer.idsWith, FunDecl.declarers, FunDecl.exprs, Body.declIds,
    Param.count_declIds, List.map_append, hparams, Expr.declIds_append, List.count_append,
    List.count_cons, List.count_nil]
  omega

theorem ValDecl.count_declIds (v : ValDecl) : v.declIds.count d
    = [v.decl].count d + (Expr.declIds v.init.toList).count d + v.getter.declIds.count d := by
  obtain ⟨decl, mutable, receiver, name, nameSpan, type, init, getter, span⟩ := v
  simp only [ValDecl.declIds, Declarer.idsWith, ValDecl.declarers, ValDecl.exprs, Body.declIds,
    Expr.declIds_append, List.count_append, List.count_cons, List.count_nil]
  omega

theorem ValDecl.count_declIds_getterFunction (v : ValDecl) :
    v.getterFunction.declIds.count d ≤ v.declIds.count d := by
  rw [FunDecl.count_declIds, ValDecl.count_declIds]
  show [v.decl].count d + ([] : List DeclId).count d + v.getter.declIds.count d ≤ _
  rw [List.count_nil]
  omega

theorem Stmt.count_declIds_val (v : ValDecl) :
    (Stmt.val v).declIds.count d = v.declIds.count d := by
  simp only [Stmt.declIds, ValDecl.declIds, Declarer.idsWith, Stmt.declarers, Stmt.exprs,
    Declarer.id, List.map_append, List.map_cons, List.map_nil, List.count_append, List.count_cons,
    List.count_nil]
  omega

end

/-! ## Parsers -/

namespace Parser

variable {α β σ : Type}

/-- The parser takes back no id of a declaration, and from declarers `before`, which have ids before
that of the state, it makes the declarers `after` of what it returns. -/
structure Allots (p : Parser α) (before : List DeclId) (after : α → List DeclId) : Prop where
  le : ∀ s, s.nextDecl ≤ (p s).state.nextDecl
  made : ∀ {s lo a t}, Fresh lo s.nextDecl before → p s = .done a t → Fresh lo t.nextDecl (after a)

namespace Allots

variable {p : Parser α} {f : α → Parser β} {before : List DeclId} {mid : α → List DeclId}
  {after : β → List DeclId}

theorem done {a : α} {after : α → List DeclId} (h : ∀ d, (after a).count d ≤ before.count d) :
    Allots (pure a) before after where
  le _ := Nat.le_refl _
  made hs hd := by
    cases hd
    exact hs.rearrange h

/-- An answer with the same declarers. -/
theorem same {a : α} {after : α → List DeclId} (h : after a = before) :
    Allots (pure a) before after :=
  done fun _ => Nat.le_of_eq (by rw [h])

theorem fail {after : α → List DeclId} : Allots (fail : Parser α) before after where
  le _ := Nat.le_refl _
  made _ hd := nomatch hd

theorem failBefore : Allots ((Parser.fail : Parser α) >>= f) before after where
  le _ := Nat.le_refl _
  made _ hd := nomatch hd

theorem le_bind (hp : ∀ s, s.nextDecl ≤ (p s).state.nextDecl)
    (hf : ∀ a s, s.nextDecl ≤ (f a s).state.nextDecl) (s : ParseState) :
    s.nextDecl ≤ ((p >>= f) s).state.nextDecl := by
  have hps := hp s
  rcases state_bind p f s with hs | ⟨a, t, h, hs⟩
  · rwa [hs]
  · rw [h] at hps
    rw [hs]
    exact hps.trans (hf a t)

theorem next (h : Allots p before mid) (hf : ∀ a, Allots (f a) (mid a) after) :
    Allots (p >>= f) before after where
  le := le_bind h.le fun a => (hf a).le
  made hs hd := by
    obtain ⟨a, t, hp, hfa⟩ := bind_eq_done.1 hd
    exact (hf a).made (h.made hs hp) hfa

/-- What a parser declares on its own, it declares behind other trees. -/
theorem behind (h : Allots p [] mid) (hf : ∀ a, Allots (f a) (before ++ mid a) after) :
    Allots (p >>= f) before after where
  le := le_bind h.le fun a => (hf a).le
  made hs hd := by
    obtain ⟨a, t, hp, hfa⟩ := bind_eq_done.1 hd
    exact (hf a).made (hs.append (h.made (.nil (Nat.le_refl _)) hp)) hfa

/-- A parser that goes on in the text, and then one that goes on. -/
theorem skip [hp : Forward p] (hf : ∀ a, Allots (f a) before after) :
    Allots (p >>= f) before after where
  le := le_bind (fun s => (hp.along s).grown.nextDecl) fun a => (hf a).le
  made {s _ _ _} hs hd := by
    obtain ⟨a, u, hp', hfa⟩ := bind_eq_done.1 hd
    have hle := (hp.along s).grown.nextDecl
    rw [hp'] at hle
    exact (hf a).made (hs.mono hle) hfa

/-- The declarers before may stand in another order. -/
theorem rearrange {before' : List DeclId} (h : Allots p before' mid)
    (hc : ∀ d, before'.count d ≤ before.count d) : Allots p before mid where
  le := h.le
  made hs hd := h.made (hs.rearrange hc) hd

/-- A parser that gives out no id, and then one that goes on. -/
theorem past (hp : ∀ s, (p s).state.nextDecl = s.nextDecl)
    (hf : ∀ a, Allots (f a) before after) : Allots (p >>= f) before after where
  le := le_bind (fun s => (hp s).ge) fun a => (hf a).le
  made {s _ _ _} hs hd := by
    obtain ⟨a, u, hp', hfa⟩ := bind_eq_done.1 hd
    have hle := hp s
    rw [hp'] at hle
    exact (hf a).made (hs.mono hle.ge) hfa

/-- A parser that makes trees which are dropped, and then one that goes on. -/
theorem drop (h : Allots p [] mid) (hf : ∀ a, Allots (f a) before after) :
    Allots (p >>= f) before after where
  le := le_bind h.le fun a => (hf a).le
  made {s _ _ _} hs hd := by
    obtain ⟨a, u, hp, hfa⟩ := bind_eq_done.1 hd
    exact (hf a).made (hs.mono (h.made (.nil (Nat.le_refl _)) hp).le) hfa

theorem map {g : α → β} (h : Allots p before mid)
    (hg : ∀ a d, (after (g a)).count d ≤ (mid a).count d) : Allots (g <$> p) before after :=
  h.next fun a => done (hg a)

/-- An expression that may be missing. -/
theorem optional {p : Parser Expr} (h : Allots p before fun e => Expr.declIds [e]) :
    Allots (some <$> p) before fun o => Expr.declIds o.toList :=
  h.map fun _ _ => Nat.le_refl _

/-- A failed attempt leaves the declarers that were there. -/
theorem attempt {m : α → List DeclId} (h : Allots p before m) :
    Allots (Parser.attempt p) before fun o => (o.map m).getD before where
  le s := by
    rw [state_attempt]
    exact h.le s
  made {s lo o t} hs hd := by
    have hle := h.le s
    obtain ⟨a, rfl, hps⟩ | ⟨rfl, hps⟩ := attempt_eq_done.1 hd
    · exact h.made hs hps
    · rw [hps] at hle
      exact hs.mono hle

/-! ### Repetition -/

/-- What a round of a loop declares : that of the next state, or that of the result. -/
def ofRound (state : σ → List DeclId) (after : β → List DeclId) : Round σ β → List DeclId
  | .next a => state a
  | .stop r => after r

theorem rounds {step : σ → Parser (Round σ β)} {state : σ → List DeclId}
    (h : ∀ a, Allots (step a) (state a) (ofRound state after)) :
    ∀ n a, Allots (Parser.rounds step n a) (state a) after
  | 0, _ => fail
  | n + 1, a => by
    refine (h a).next fun r => ?_
    cases r with
    | next b => exact rounds h n b
    | stop r => exact same rfl

/-- A loop keeps what each of its rounds keeps. -/
theorem loop {step : σ → Parser (Round σ β)} (state : σ → List DeclId) (after : β → List DeclId)
    (h : ∀ a, Allots (step a) (state a) (ofRound state after)) (start : σ) :
    Allots (Parser.loop step start) (state start) after where
  le s := (rounds h _ start).le s
  made hs hd := (rounds h _ start).made hs hd

theorem foldlM {step : β → α → Parser β} (state : β → List DeclId)
    (h : ∀ b a, Allots (step b a) (state b) state) :
    ∀ (l : List α) (b : β), Allots (l.foldlM step b) (state b) state
  | [], _ => same rfl
  | a :: l, b => by
    rw [List.foldlM_cons]
    exact (h b a).next fun b' => foldlM state h l b'

theorem mapM {f : α → Parser β} {made : β → List DeclId} (h : ∀ a, Allots (f a) [] made) :
    ∀ l : List α, Allots (l.mapM f) [] fun bs => bs.flatMap made
  | [] => same rfl
  | a :: l => by
    rw [List.mapM_cons]
    refine (h a).next fun b => (mapM h l).behind fun bs => same ?_
    rw [List.flatMap_cons]

/-! ### Ids -/

/-- A new id behind those before. -/
theorem newDecl_next {f : DeclId → Parser β} (hf : ∀ d, Allots (f d) (before ++ [d]) after) :
    Allots (Parser.newDecl >>= f) before after where
  le := le_bind (fun _ => Nat.le_succ _) fun a => (hf a).le
  made {s lo b t} hs hd := by
    refine (hf s.nextDecl).made (s := { s with nextDecl := s.nextDecl + 1 }) (hs.append ?_) hd
    refine ⟨Nat.le_succ _, fun d => ?_⟩
    by_cases h : s.nextDecl = d
    · simp [h]
    · simp [h]

/-- An expression declares what its children do, and what declares directly in it. -/
theorem newExpr {span : Span} {kind : ExprKind} {l : List Expr}
    (hl : ∀ id, (Expr.mk id span kind).children = l)
    (h : ∀ id d, (Expr.declIds l).count d
      + ((Expr.mk id span kind).declarers.map Declarer.id).count d ≤ before.count d) :
    Allots (Parser.newExpr span kind) before fun e => Expr.declIds [e] where
  le _ := Nat.le_refl _
  made {s lo e t} hs hd := by
    cases hd
    refine hs.rearrange fun d => ?_
    rw [Expr.declIds_singleton, hl, List.count_append]
    exact h s.nextExpr d

/-- An expression that is no block and no lambda declares what its children do. -/
theorem newNode {span : Span} {kind : ExprKind} {es : List Expr}
    (hes : ∀ id, (Expr.mk id span kind).children = es)
    (hown : ∀ id, (Expr.mk id span kind).declarers = []) :
    Allots (Parser.newExpr span kind) (Expr.declIds es) fun e => Expr.declIds [e] :=
  newExpr hes fun id d => by simp [hown id]

/-- Other tokens make no difference. -/
theorem within {tokens : List Token} (h : Allots p before mid) :
    Allots (Parser.within tokens p) before mid where
  le s := by
    rw [state_within]
    exact h.le { s with cursor := Cursor.ofTokens tokens }
  made {s lo a t} hs hd := by
    obtain ⟨u, hp, rfl⟩ := within_eq_done.1 hd
    exact (h.made (s := { s with cursor := Cursor.ofTokens tokens }) hs hp :
      Fresh lo u.nextDecl _)

end Allots

end Parser

/-- The parsers for nested parts give out new ids. -/
class Grammar.Declaring (g : Grammar) : Prop extends g.Forward where
  expr : Parser.Allots g.expr [] fun e => Expr.declIds [e]
  stmts : Parser.Allots g.stmts [] (List.flatMap Stmt.declIds)

namespace Parser.Allots

/-! ## Expressions -/

section

variable {operand : Parser Expr} (h : Allots operand [] fun e => Expr.declIds [e])

include h

theorem chain (p : Precedence) :
    Allots (Parser.chain p operand) [] fun e => Expr.declIds [e] := by
  refine h.next fun first => loop (fun e => Expr.declIds [e]) _ (fun left => ?_) first
  refine skip fun c => ?_
  cases BinaryOp.at? c with
  | none => exact same rfl
  | some op =>
    simp only
    split
    · refine skip fun _ => skip fun _ => skip fun _ => h.behind fun right => ?_
      rw [← Expr.declIds_append]
      exact (newNode (fun _ => rfl) fun _ => rfl).next fun e => same rfl
    · exact same rfl

theorem binary : ∀ ps, Allots (Parser.binary operand ps) [] fun e => Expr.declIds [e]
  | [] => h
  | p :: tighter => (binary tighter).chain p

theorem signed : Allots (Parser.signed operand) [] fun e => Expr.declIds [e] := by
  refine @skip _ _ _ _ _ _ ?_ fun ops => h.next fun inner => ?_
  · refine ⟨fun c => Tracks.loop (fun ops => Tracks.next fun k => ?_) _⟩
    cases UnaryOp.ofToken? k <;> infer_instance
  · exact foldlM (fun e => Expr.declIds [e])
      (fun e op => newNode (fun _ => rfl) fun _ => rfl) ops inner

theorem castChain (g : Grammar) [g.Forward] :
    Allots (Parser.castChain g operand) [] fun e => Expr.declIds [e] := by
  refine h.next fun first => loop (fun e => Expr.declIds [e]) _ (fun e => ?_) first
  refine skip fun isCast => ?_
  split
  · refine skip fun safe => skip fun type => skip fun last => ?_
    exact (newNode (fun _ => rfl) fun _ => rfl).next fun e => same rfl
  · exact same rfl

end

variable (g : Grammar) [hg : g.Declaring]

/-! ### Calls and blocks -/

theorem arguments : Allots (Parser.arguments g) []
    fun args => Expr.declIds (args.map Argument.value) := by
  refine skip fun _ => loop (fun args => Expr.declIds (args.map Argument.value)) _
    (fun args => ?_) []
  refine skip fun _ => skip fun closed => ?_
  split
  · exact same rfl
  refine skip fun name => skip fun _ => hg.expr.behind fun value => ?_
  refine skip fun _ => skip fun more => ?_
  have hv : Expr.declIds ((args ++ [Argument.mk name value]).map Argument.value)
      = Expr.declIds (args.map Argument.value) ++ Expr.declIds [value] := by
    rw [List.map_append, Expr.declIds_append]
    rfl
  split
  · exact same hv
  · exact skip fun _ => skip fun _ => same hv

theorem block : Allots (Parser.block g) [] Block.declIds :=
  skip fun _ => hg.stmts.next fun stmts => skip fun _ =>
    done fun d => (Stmt.count_declIds d stmts).le

theorem lambdaParams :
    Allots (Parser.lambdaParams g) [] (List.map LambdaParam.decl) := by
  refine skip fun start => (attempt (m := List.map LambdaParam.decl) ?_).next fun params => ?_
  · refine skip fun _ => loop (List.map LambdaParam.decl) _ (fun seen => ?_) []
    refine skip fun k => skip fun name => skip fun _ => skip fun typed => ?_
    extract_lets declare
    have hdeclare (type : Option TypeRef) : Allots (declare type) (seen.map LambdaParam.decl)
        (ofRound (List.map LambdaParam.decl) (List.map LambdaParam.decl)) := by
      refine newDecl_next fun d => skip fun more => ?_
      split
      · exact same (by simp [ofRound])
      · exact skip fun _ => same (by simp [ofRound])
    split
    · exact skip hdeclare
    · exact (same rfl).next hdeclare
  · cases params with
    | some params => exact same rfl
    | none => exact past (fun _ => rfl) fun _ => same rfl

theorem lambda : Allots (Parser.lambda g) [] fun e => Expr.declIds [e] := by
  refine skip fun start => (lambdaParams g).next fun params => newDecl_next fun it => ?_
  refine hg.stmts.behind fun stmts => skip fun last => ?_
  refine newExpr (l := Stmt.exprsOf stmts) (fun _ => rfl) fun id d => ?_
  have hstmts := Stmt.count_declIds d stmts
  simp only [Declarer.idsWith, Expr.declarers, Block.declarers, List.map_append, List.map_cons,
    LambdaParam.map_id_declarers, Declarer.id, List.count_append, List.count_cons,
    List.count_nil] at hstmts ⊢
  omega

theorem call (callee : Expr) (typeArgs : List TypeRef) :
    Allots (Parser.call g callee typeArgs) (Expr.declIds [callee])
      fun e => Expr.declIds [e] := by
  refine skip fun paren => ?_
  extract_lets made trailing
  have hmade (args) : Allots (made args)
      (Expr.declIds [callee] ++ Expr.declIds (args.map Argument.value))
      fun e => Expr.declIds [e] := by
    rw [← Expr.declIds_append]
    exact skip fun last => newNode (fun _ => rfl) fun _ => rfl
  have htrailing (args) : Allots (trailing args)
      (Expr.declIds [callee] ++ Expr.declIds (args.map Argument.value))
      fun e => Expr.declIds [e] := by
    refine skip fun brace => ?_
    split
    · refine (lambda g).behind fun f => (same ?_).next hmade
      simp
    · exact (same rfl).next hmade
  split
  · exact (arguments g).behind htrailing
  · exact (same (by simp)).next htrailing

/-! ### Suffixes -/

theorem memberOf (receiver : Expr) :
    Allots (Parser.memberOf receiver) (Expr.declIds [receiver]) fun e => Expr.declIds [e] := by
  refine skip fun _ => skip fun _ => skip fun named => ?_
  obtain ⟨name, nameSpan⟩ := named
  exact newNode (fun _ => rfl) fun _ => rfl

theorem indexOf (receiver : Expr) :
    Allots (Parser.indexOf g receiver) (Expr.declIds [receiver]) fun e => Expr.declIds [e] := by
  refine skip fun _ => ?_
  refine (loop Expr.declIds Expr.declIds (fun indices => ?_) []).behind fun indices => ?_
  · refine skip fun _ => hg.expr.behind fun index => skip fun _ => skip fun more => ?_
    split <;> exact same (Expr.declIds_append _ _)
  · rw [← Expr.declIds_append]
    exact skip fun _ => skip fun last => newNode (fun _ => rfl) fun _ => rfl

theorem suffix (e : Expr) :
    Allots (Parser.suffix g e) (Expr.declIds [e]) fun o => Expr.declIds [o.getD e] := by
  refine skip fun c => ?_
  extract_lets callable
  split
  · exact (memberOf e).map fun _ _ => Nat.le_refl _
  split
  · refine skip fun typeArgs => ?_
    cases typeArgs with
    | none => exact same rfl
    | some typeArgs => exact (call g e typeArgs).map fun _ _ => Nat.le_refl _
  split
  · exact (call g e []).map fun _ _ => Nat.le_refl _
  split
  · exact (indexOf g e).map fun _ _ => Nat.le_refl _
  split
  · refine skip fun _ => skip fun last => ?_
    exact (newNode (fun _ => rfl) fun _ => rfl).map fun _ _ => Nat.le_refl _
  · exact same rfl

/-! ### Branches -/

theorem branch : Allots (Parser.branch g) [] fun e => Expr.declIds [e] := by
  refine skip fun _ => skip fun braced => ?_
  split
  · refine (block g).next fun b => newExpr (l := b.exprs) (fun _ => rfl) fun id d => ?_
    rw [Block.declIds, Declarer.idsWith, List.count_append]
    exact Nat.le_of_eq (Nat.add_comm ..)
  · exact hg.expr

theorem ifElse : Allots (Parser.ifElse g) [] fun e => Expr.declIds [e] := by
  refine skip fun _ => skip fun _ => skip fun _ => hg.expr.next fun condition => ?_
  refine skip fun _ => skip fun _ => (branch g).behind fun thenBranch => skip fun more => ?_
  extract_lets made
  have hmade (elseBranch : Option Expr) : Allots (made elseBranch)
      (Expr.declIds [condition] ++ Expr.declIds [thenBranch] ++ Expr.declIds elseBranch.toList)
      fun e => Expr.declIds [e] := by
    rw [← Expr.declIds_append, ← Expr.declIds_append]
    exact skip fun last => newNode (fun _ => rfl) fun _ => rfl
  split
  · exact skip fun _ => skip fun _ => (branch g).optional.behind hmade
  · exact (same (by simp)).next hmade

theorem whenSubject : Allots (Parser.whenSubject g) [] fun e => Expr.declIds [e] := by
  refine skip fun _ => skip fun named => ?_
  extract_lets subject
  have hsubject : Allots (subject ()) [] fun e => Expr.declIds [e] :=
    hg.expr.next fun e => skip fun _ => skip fun _ => same rfl
  split
  · refine skip fun _ => skip fun typed => ?_
    split
    · exact skip fun _ => skip fun _ => skip fun _ => hsubject
    · exact skip fun _ => skip fun _ => hsubject
  · exact hsubject

theorem whenCondition :
    Allots (Parser.whenCondition g) [] fun o => Expr.declIds o.toList := by
  refine skip fun c => ?_
  extract_lets condition
  have hcondition : Allots (condition ()) [] fun o => Expr.declIds o.toList := by
    refine skip fun isType => ?_
    split
    · exact skip fun _ => same rfl
    · exact skip fun _ => hg.expr.map fun _ _ => Nat.le_refl _
  split
  · exact skip fun _ => hcondition
  · exact hcondition

theorem whenBranch :
    Allots (Parser.whenBranch g) [] fun b => Expr.declIds b.exprs := by
  refine skip fun isElse => ?_
  extract_lets arm
  have harm (conditions : List Expr) : Allots (arm conditions) (Expr.declIds conditions)
      fun b => Expr.declIds b.exprs :=
    skip fun _ => skip fun _ => (branch g).behind fun b => same (Expr.declIds_append _ _)
  split
  · exact (same rfl).next harm
  · refine (loop Expr.declIds Expr.declIds (fun conditions => ?_) []).next harm
    refine skip fun _ => (whenCondition g).behind fun c => skip fun _ => skip fun more => ?_
    split <;> exact same (Expr.declIds_append _ _)

theorem whenOf : Allots (Parser.whenOf g) [] fun e => Expr.declIds [e] := by
  refine skip fun _ => skip fun subjected => ?_
  extract_lets branches
  have hbranches (subject : Option Expr) :
      Allots (branches subject) (Expr.declIds subject.toList) fun e => Expr.declIds [e] := by
    refine skip fun _ => skip fun _ => ?_
    refine (loop (fun bs => Expr.declIds (bs.flatMap WhenBranch.exprs))
      (fun bs => Expr.declIds (bs.flatMap WhenBranch.exprs)) (fun bs => ?_) []).behind
      fun bs => skip fun last => ?_
    · refine skip fun _ => skip fun closed => ?_
      split
      · exact same rfl
      · exact (whenBranch g).behind fun b => same (by simp [ofRound])
    · rw [← Expr.declIds_append]
      exact newNode (fun _ => rfl) fun _ => rfl
  split
  · exact (whenSubject g).optional.next hbranches
  · exact (same rfl).next hbranches

/-! ### Operands -/

theorem embedded (tokens : List Token) :
    Allots (Parser.embedded g tokens) [] fun e => Expr.declIds [e] := by
  refine within (skip fun _ => hg.expr.next fun e => skip fun _ => skip fun k => ?_)
  split
  · exact same rfl
  · exact fail

theorem parenthesized : Allots (Parser.parenthesized g) [] fun e => Expr.declIds [e] :=
  skip fun _ => skip fun _ => hg.expr.next fun _ => skip fun _ => skip fun _ => same rfl

theorem primary : Allots (Parser.primary g) [] fun e => Expr.declIds [e] := by
  have hleaf {span : Span} {kind : ExprKind} (hc : ∀ id, (Expr.mk id span kind).children = [])
      (hd : ∀ id, (Expr.mk id span kind).declarers = []) :
      Allots (Parser.newExpr span kind) [] fun e => Expr.declIds [e] := newNode hc hd
  refine skip fun c => ?_
  extract_lets token
  split
  · exact skip fun _ => hleaf (fun _ => rfl) fun _ => rfl
  · exact skip fun _ => hleaf (fun _ => rfl) fun _ => rfl
  · split
    · exact skip fun _ => hleaf (fun _ => rfl) fun _ => rfl
    · exact parenthesized g
    · refine skip fun _ => (mapM (embedded g) _).next fun parts => ?_
      rw [← Expr.declIds_flatMap, List.flatMap_singleton']
      exact newNode (fun _ => rfl) fun _ => rfl
    · exact ifElse g
    · exact whenOf g
    · exact lambda g
    · exact fail

theorem suffixed : Allots (Parser.suffixed g) [] fun e => Expr.declIds [e] := by
  refine (primary g).next fun first => loop (fun e => Expr.declIds [e]) _ (fun e => ?_) first
  refine (suffix g e).next fun o => ?_
  cases o <;> exact same rfl

theorem expression : Allots (Parser.expression g) [] fun e => Expr.declIds [e] :=
  ((suffixed g).signed.castChain g).binary _

end Parser.Allots

end FrameCheck
