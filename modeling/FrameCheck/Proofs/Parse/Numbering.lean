import FrameCheck.Proofs.Parse.Outcomes
import FrameCheck.Proofs.Rising
import FrameCheck.Proofs.Tree.Nodes
import Mathlib.Data.List.Flatten
import Mathlib.Data.List.Perm.Basic

/-!
# How a parser numbers what it makes

Ids are given out in one rising sequence, and an expression gets its id when all of its parts
have theirs. So in the trees that a parser makes, read node by node with each node behind its
parts, the ids rise (`Issued`). A failed attempt uses up ids and no more.

`Yields p before after` says that of a parser which goes on from trees made before, for any
reading of a list of trees that can be extended at its end (`Numbering`). The members of a
class are sorted into properties and methods, so a class has the trees that were issued in
some order (`Scattered`).

* `Yields.next`, `Yields.attempt`, `Yields.loop` : the rules for combined parsers.
* `Yields.newExpr` : an expression behind its children.
-/

namespace FrameCheck

/-! ## Issued trees -/

/-- The ids of the nodes of all these trees, each behind its parts. -/
def Expr.idsOf (es : List Expr) : List ExprId := (es.flatMap Expr.nodes).map Expr.id

theorem Expr.idsOf_append (es fs : List Expr) : idsOf (es ++ fs) = idsOf es ++ idsOf fs := by
  simp [idsOf]

/-- The ids of the trees rise from node to node, from `lo` on and below `hi`. -/
def Issued (lo hi : ExprId) (es : List Expr) : Prop := Rising lo hi (Expr.idsOf es)

/-- The trees are issued in some order. -/
def Scattered (lo hi : ExprId) (es : List Expr) : Prop := ∃ fs, fs.Perm es ∧ Issued lo hi fs

theorem Issued.sublist {lo hi : ExprId} {es fs : List Expr} (h : Issued lo hi es)
    (hs : fs.Sublist es) : Issued lo hi fs :=
  Rising.sublist ((hs.flatMap Expr.nodes).map Expr.id) h

theorem Scattered.subperm {lo hi : ExprId} {es fs : List Expr} (h : Scattered lo hi es)
    (hs : fs.Subperm es) : Scattered lo hi fs := by
  obtain ⟨es', hp, h⟩ := h
  obtain ⟨fs', hq, hs⟩ := hs.trans hp.symm.subperm
  exact ⟨fs', hq, h.sublist hs⟩

/-- A reading of trees between two ids that can be extended at its end. -/
class Numbering (I : ExprId → ExprId → List Expr → Prop) : Prop where
  nil : ∀ n, I n n []
  mono : ∀ {lo hi hi' es}, I lo hi es → hi ≤ hi' → I lo hi' es
  append : ∀ {lo mid hi es fs}, I lo mid es → I mid hi fs → I lo hi (es ++ fs)
  sublist : ∀ {lo hi es fs}, I lo hi es → fs.Sublist es → I lo hi fs
  of_issued : ∀ {lo hi es}, Issued lo hi es → I lo hi es

instance Issued.numbering : Numbering Issued where
  nil n := Nat.le_refl n
  mono h hh := Rising.mono hh h
  append h h' := by
    rw [Issued, Expr.idsOf_append]
    exact Rising.append h' h
  sublist h hs := h.sublist hs
  of_issued h := h

instance Scattered.numbering : Numbering Scattered where
  nil n := ⟨[], List.Perm.refl _, Issued.numbering.nil n⟩
  mono := fun ⟨fs, hp, h⟩ hh => ⟨fs, hp, Issued.numbering.mono h hh⟩
  append := fun ⟨fs, hp, h⟩ ⟨gs, hq, h'⟩ =>
    ⟨fs ++ gs, hp.append hq, Issued.numbering.append h h'⟩
  sublist h hs := h.subperm hs.subperm
  of_issued h := ⟨_, List.Perm.refl _, h⟩

/-- The ids of scattered trees differ. -/
theorem Scattered.nodup {lo hi : ExprId} {es : List Expr} (h : Scattered lo hi es) :
    (Expr.idsOf es).Nodup := by
  obtain ⟨fs, hp, h⟩ := h
  refine ((hp.flatMap_right Expr.nodes).map Expr.id).nodup_iff.1 ?_
  exact h.pairwise.imp fun hlt => Nat.ne_of_lt hlt

/-! ## Parsers -/

namespace Parser

variable {α β σ : Type} {I : ExprId → ExprId → List Expr → Prop}

/-- The parser takes back no id. -/
class Quiet (p : Parser α) : Prop where
  le : ∀ s, s.nextExpr ≤ (p s).state.nextExpr

/-- From trees `before`, which have the ids before those of the state, the parser makes the
trees `after` of what it returns. -/
structure Yields (I : ExprId → ExprId → List Expr → Prop) (p : Parser α) (before : List Expr)
    (after : α → List Expr) : Prop where
  le : ∀ s, s.nextExpr ≤ (p s).state.nextExpr
  made : ∀ {s lo a t}, I lo s.nextExpr before → p s = .done a t → I lo t.nextExpr (after a)

namespace Yields

variable {p : Parser α} {f : α → Parser β} {before : List Expr} {mid : α → List Expr}
  {after : β → List Expr}

theorem quiet (h : Yields I p before mid) : Quiet p := ⟨h.le⟩

theorem le_of_done [hp : Quiet p] {s t : ParseState} {a : α} (h : p s = .done a t) :
    s.nextExpr ≤ t.nextExpr := by
  have := hp.le s
  rwa [h] at this

theorem done {a : α} {after : α → List Expr} (h : after a = before) :
    Yields I (pure a) before after where
  le _ := Nat.le_refl _
  made hs hd := by
    cases hd
    exact h ▸ hs

/-- An answer that leaves out some of the trees. -/
theorem drop [hI : Numbering I] {a : α} {after : α → List Expr} (h : (after a).Sublist before) :
    Yields I (pure a) before after where
  le _ := Nat.le_refl _
  made hs hd := by
    cases hd
    exact hI.sublist hs h

theorem fail {after : α → List Expr} : Yields I (fail : Parser α) before after where
  le _ := Nat.le_refl _
  made _ hd := nomatch hd

theorem failBefore : Yields I ((Parser.fail : Parser α) >>= f) before after where
  le _ := Nat.le_refl _
  made _ hd := nomatch hd

theorem next (h : Yields I p before mid) (hf : ∀ a, Yields I (f a) (mid a) after) :
    Yields I (p >>= f) before after where
  le s := by
    rcases state_bind p f s with hs | ⟨a, t, hp, hs⟩
    · exact hs ▸ h.le s
    · have := h.quiet
      exact Nat.le_trans (le_of_done hp) (hs ▸ (hf a).le t)
  made hs hd := by
    obtain ⟨a, t, hp, hfa⟩ := bind_eq_done.1 hd
    exact (hf a).made (h.made hs hp) hfa

/-- What a parser makes on its own, it makes behind other trees. -/
theorem keep [hI : Numbering I] (h : Yields I p [] mid) :
    Yields I p before fun a => before ++ mid a where
  le := h.le
  made hs hd := hI.append hs (h.made (hI.nil _) hd)

/-- A parser on its own, and then one that goes on behind its trees. -/
theorem behind [hI : Numbering I] (h : Yields I p [] mid)
    (hf : ∀ a, Yields I (f a) (before ++ mid a) after) : Yields I (p >>= f) before after :=
  (h.keep).next hf

/-- A parser that makes nothing, and then one that goes on. -/
theorem past [hI : Numbering I] (hq : Quiet p) (hf : ∀ a, Yields I (f a) before after) :
    Yields I (p >>= f) before after :=
  have h : Yields I p before fun _ => before :=
    ⟨hq.le, fun hs hd => hI.mono hs (le_of_done hd)⟩
  h.next hf

theorem skip [Numbering I] [hq : Quiet p] (hf : ∀ a, Yields I (f a) before after) :
    Yields I (p >>= f) before after :=
  past hq hf

theorem map {g : α → β} (h : Yields I p before mid) (after : β → List Expr)
    (hg : ∀ a, after (g a) = mid a) : Yields I (g <$> p) before after :=
  h.next fun a => done (hg a)

/-- A failed attempt leaves the trees that were there. -/
theorem attempt [hI : Numbering I] (h : Yields I p before mid) :
    Yields I (attempt p) before fun o => (o.map mid).getD before where
  le s := by
    rw [state_attempt]
    exact h.le s
  made {s lo o t} hs hd := by
    have hle := h.le s
    obtain ⟨a, rfl, hp⟩ | ⟨rfl, hp⟩ := attempt_eq_done.1 hd
    · exact h.made hs hp
    · rw [hp] at hle
      exact hI.mono hs hle

theorem of_issued [hI : Numbering I] (h : Yields Issued p [] mid) : Yields I p [] mid where
  le := h.le
  made hs hd := hI.append hs (hI.of_issued (h.made (Issued.numbering.nil _) hd))

/-! ### Repetition -/

/-- What a round of a loop makes : the trees of the next state, or those of the result. -/
def ofRound (state : σ → List Expr) (after : β → List Expr) : Round σ β → List Expr
  | .next a => state a
  | .stop r => after r

theorem rounds {step : σ → Parser (Round σ β)} {state : σ → List Expr}
    (h : ∀ a, Yields I (step a) (state a) (ofRound state after)) :
    ∀ n a, Yields I (rounds step n a) (state a) after
  | 0, _ => fail
  | n + 1, a => by
    refine (h a).next fun r => ?_
    cases r with
    | next b => exact rounds h n b
    | stop r => exact done rfl

/-- A loop keeps what each of its rounds keeps. -/
theorem loop {step : σ → Parser (Round σ β)} (state : σ → List Expr) (after : β → List Expr)
    (h : ∀ a, Yields I (step a) (state a) (ofRound state after)) (start : σ) :
    Yields I (loop step start) (state start) after where
  le s := (rounds h _ start).le s
  made hs hd := (rounds h _ start).made hs hd

theorem foldlM {step : β → α → Parser β} (state : β → List Expr)
    (h : ∀ b a, Yields I (step b a) (state b) state) :
    ∀ (l : List α) (b : β), Yields I (l.foldlM step b) (state b) state
  | [], _ => done rfl
  | a :: l, b => by
    rw [List.foldlM_cons]
    exact (h b a).next fun b' => foldlM state h l b'

theorem mapM {f : α → Parser β} {made : β → List Expr} [hI : Numbering I]
    (h : ∀ a, Yields I (f a) [] made) :
    ∀ l : List α, Yields I (l.mapM f) [] fun bs => bs.flatMap made
  | [] => done rfl
  | a :: l => by
    rw [List.mapM_cons]
    refine (h a).next fun b => ?_
    refine ((mapM h l).keep).next fun bs => done ?_
    rw [List.flatMap_cons]

/-! ### Expressions -/

/-- An expression comes behind its children. -/
theorem newExpr {span : Span} {kind : ExprKind}
    (h : ∀ id, (Expr.mk id span kind).children = before) :
    Yields Issued (newExpr span kind) before fun e => [e] where
  le _ := Nat.le_succ _
  made {s lo e t} hs hd := by
    cases hd
    have hids : Expr.idsOf [⟨s.nextExpr, span, kind⟩] = Expr.idsOf before ++ [s.nextExpr] := by
      simp [Expr.idsOf, Expr.nodes_eq, Expr.parts, h]
    rw [Issued, hids]
    exact Rising.append (show Rising s.nextExpr (s.nextExpr + 1) [s.nextExpr] from
      ⟨Nat.le_refl _, Nat.le_refl _⟩) hs

/-- Other tokens make no difference. -/
theorem within {tokens : List Token} (h : Yields I p before mid) :
    Yields I (within tokens p) before mid where
  le s := by
    rw [state_within]
    exact h.le { s with cursor := Cursor.ofTokens tokens }
  made {s lo a t} hs hd := by
    obtain ⟨u, hp, rfl⟩ := within_eq_done.1 hd
    exact (h.made (s := { s with cursor := Cursor.ofTokens tokens }) hs hp : I lo u.nextExpr _)

end Yields

/-! ### Parsers that make nothing -/

namespace Quiet

variable {p : Parser α}

theorem of_nextExpr (h : ∀ s, (p s).state.nextExpr = s.nextExpr) : Quiet p where
  le s := Nat.le_of_eq (h s).symm

instance cursor : Quiet Parser.cursor := of_nextExpr fun _ => rfl
instance moveTo (c : Cursor) : Quiet (Parser.moveTo c) := of_nextExpr fun _ => rfl
instance kind : Quiet Parser.kind := of_nextExpr fun _ => rfl
instance span : Quiet Parser.span := of_nextExpr fun _ => rfl
instance lastSpan : Quiet Parser.lastSpan := of_nextExpr fun _ => rfl
instance advance : Quiet Parser.advance := of_nextExpr fun _ => rfl
instance skipNewlines : Quiet Parser.skipNewlines := of_nextExpr fun _ => rfl
instance skipSeparators : Quiet Parser.skipSeparators := of_nextExpr fun _ => rfl
instance skipLine : Quiet Parser.skipLine := of_nextExpr fun _ => rfl
instance skipUnparsed (c : Cursor) : Quiet (Parser.skipUnparsed c) := of_nextExpr fun _ => rfl
instance atMark (m : Mark) : Quiet (Parser.atMark m) := of_nextExpr fun _ => rfl
instance newDecl : Quiet Parser.newDecl := of_nextExpr fun _ => rfl
instance fail : Quiet (Parser.fail : Parser α) := of_nextExpr fun _ => rfl
instance answer (a : α) : Quiet (pure a : Parser α) := of_nextExpr fun _ => rfl

instance eatIf (test : TokenKind → Bool) : Quiet (Parser.eatIf test) := of_nextExpr fun s => by
  unfold Parser.eatIf
  split <;> rfl

instance eat (m : Mark) : Quiet (Parser.eat m) := eatIf _
instance eatKeyword (k : Keyword) : Quiet (Parser.eatKeyword k) := eatIf _

instance expect (m : Mark) : Quiet (Parser.expect m) := of_nextExpr fun s => by
  unfold Parser.expect
  split <;> rfl

instance orFail (o : Option α) : Quiet (Parser.orFail o) := by
  cases o
  · exact fail
  · exact answer _

theorem seq {f : α → Parser β} (hf : ∀ a, Quiet (f a)) (hp : Quiet p) :
    Quiet (p >>= f) where
  le s := by
    rcases state_bind p f s with hs | ⟨a, t, h, hs⟩
    · exact hs ▸ hp.le s
    · exact Nat.le_trans (Yields.le_of_done h) (hs ▸ (hf a).le t)

theorem next [hp : Quiet p] {f : α → Parser β} (hf : ∀ a, Quiet (f a)) : Quiet (p >>= f) :=
  seq hf hp

instance bind [Quiet p] {f : α → Parser β} [hf : ∀ a, Quiet (f a)] : Quiet (p >>= f) :=
  next hf

instance map [Quiet p] (f : α → β) : Quiet (f <$> p) := next fun _ => answer _

theorem attempt (hp : Quiet p) : Quiet (Parser.attempt p) where
  le s := by
    rw [state_attempt]
    exact hp.le s

instance ite {c : Prop} [Decidable c] {q : Parser α} [Quiet p] [Quiet q] :
    Quiet (if c then p else q) := by
  split <;> infer_instance

theorem loop {step : σ → Parser (Round σ β)} (h : ∀ a, Quiet (step a)) (start : σ) :
    Quiet (Parser.loop step start) :=
  (Yields.loop (I := fun lo hi _ => lo ≤ hi) (fun _ => []) (fun _ => [])
    (fun a => ⟨(h a).le, fun hs hd => Nat.le_trans hs (Yields.le_of_done hd)⟩) start).quiet

instance expectName : Quiet Parser.expectName :=
  next fun token => by
    cases token.kind.asName? <;> infer_instance

end Quiet

/-! ## Types -/

end Parser

/-- The parsers for nested parts number what they make. -/
class Grammar.Numbered (g : Grammar) : Prop where
  type : Parser.Quiet g.type
  expr : Parser.Yields Issued g.expr [] fun e => [e]
  stmts : Parser.Yields Issued g.stmts [] Stmt.exprsOf

namespace Parser

namespace Quiet

instance typeSegments (name : String) : Quiet (Parser.typeSegments name) := by
  refine loop (fun name => next fun c => ?_) name
  split
  · exact next fun _ => next fun (_, _) => answer _
  · infer_instance

instance skipVariance : Quiet Parser.skipVariance :=
  next fun c => by split <;> infer_instance

variable (g : Grammar) [hg : g.Numbered]

instance typeArgs : Quiet (Parser.typeArgs g) := by
  have := hg.type
  exact seq inferInstance (loop inferInstance _)

instance typeRef : Quiet (Parser.typeRef g) := by
  refine next fun star => ?_
  split
  · infer_instance
  · exact next fun (first, _) => inferInstance

instance callTypeArgs : Quiet (Parser.callTypeArgs g) :=
  next fun _ => seq inferInstance (attempt (next fun _ => loop inferInstance _))

instance argumentName : Quiet Parser.argumentName := by
  refine next fun c => ?_
  cases c.kind.plainName? with
  | none => infer_instance
  | some name => infer_instance

instance lambdaParams : Quiet (Parser.lambdaParams g) := by
  refine next fun start => seq (fun params => ?_) (attempt (next fun _ => loop (fun seen => ?_) _))
  · cases params <;> infer_instance
  · refine next fun _ => next fun _ => next fun _ => next fun typed => ?_
    extract_lets declare
    have hdeclare : ∀ type, Quiet (declare type) := inferInstance
    split <;> exact next hdeclare

instance atElse : Quiet Parser.atElse := inferInstanceAs (Quiet (Parser.cursor >>= _))

end Quiet

/-! ## Expressions -/

namespace Yields

/-! ### Operator chains -/

section

variable {operand : Parser Expr} (h : Yields Issued operand [] fun e => [e])

include h

theorem chain (p : Precedence) : Yields Issued (Parser.chain p operand) [] fun e => [e] := by
  refine h.next fun first => loop (fun e => [e]) _ (fun left => ?_) first
  refine skip fun c => ?_
  cases BinaryOp.at? c with
  | none => exact done rfl
  | some op =>
    simp only
    split
    · refine skip fun _ => skip fun _ => skip fun _ => h.behind fun right => ?_
      exact (newExpr fun _ => rfl).next fun e => done rfl
    · exact done rfl

theorem binary : ∀ ps, Yields Issued (Parser.binary operand ps) [] fun e => [e]
  | [] => h
  | p :: tighter => (binary tighter).chain p

theorem signed : Yields Issued (Parser.signed operand) [] fun e => [e] := by
  refine past ?_ fun ops => h.next fun inner => ?_
  · refine Quiet.loop (fun ops => Quiet.next fun k => ?_) _
    cases UnaryOp.ofToken? k <;> infer_instance
  · exact foldlM (fun e => [e]) (fun e op => newExpr fun _ => rfl) ops inner

theorem castChain (g : Grammar) [g.Numbered] :
    Yields Issued (Parser.castChain g operand) [] fun e => [e] := by
  refine h.next fun first => loop (fun e => [e]) _ (fun e => ?_) first
  refine skip fun isCast => ?_
  split
  · refine skip fun safe => skip fun type => skip fun last => ?_
    exact (newExpr fun _ => rfl).next fun e => done rfl
  · exact done rfl

end

variable (g : Grammar) [hg : g.Numbered]

/-! ### Calls and blocks -/

theorem arguments : Yields Issued (Parser.arguments g) [] fun args => args.map Argument.value := by
  refine skip fun _ => loop (fun args => args.map Argument.value) _ (fun args => ?_) []
  refine skip fun _ => skip fun closed => ?_
  split
  · exact done rfl
  refine skip fun name => skip fun _ => hg.expr.behind fun value => ?_
  refine skip fun _ => skip fun more => ?_
  have hv : (args ++ [Argument.mk name value]).map Argument.value
      = args.map Argument.value ++ [value] := by simp
  split
  · exact done hv
  · exact skip fun _ => skip fun _ => done hv

theorem block : Yields Issued (Parser.block g) [] Block.exprs :=
  skip fun _ => hg.stmts.next fun _ => skip fun _ => done rfl

theorem lambda : Yields Issued (Parser.lambda g) [] fun e => [e] := by
  refine skip fun start => skip fun params => skip fun it => hg.stmts.next fun stmts => ?_
  exact skip fun last => newExpr fun _ => rfl

theorem call (callee : Expr) (typeArgs : List TypeRef) :
    Yields Issued (Parser.call g callee typeArgs) [callee] fun e => [e] := by
  refine skip fun paren => ?_
  extract_lets made trailing
  have hmade (args) : Yields Issued (made args) ([callee] ++ args.map Argument.value)
      fun e => [e] := skip fun last => newExpr fun _ => rfl
  have htrailing (args) : Yields Issued (trailing args) ([callee] ++ args.map Argument.value)
      fun e => [e] := by
    refine skip fun brace => ?_
    split
    · refine (lambda g).behind fun f => (done ?_).next hmade
      simp
    · exact (done rfl).next hmade
  split
  · exact (arguments g).behind htrailing
  · exact (done rfl).next htrailing

/-! ### Suffixes -/

theorem memberOf (receiver : Expr) :
    Yields Issued (Parser.memberOf receiver) [receiver] fun e => [e] :=
  skip fun _ => skip fun _ => skip fun (_, _) => newExpr fun _ => rfl

theorem indexOf (receiver : Expr) :
    Yields Issued (Parser.indexOf g receiver) [receiver] fun e => [e] := by
  refine skip fun _ => ?_
  refine (loop id id (fun indices => ?_) []).behind fun indices => ?_
  · refine skip fun _ => hg.expr.behind fun index => skip fun _ => skip fun more => ?_
    split <;> exact done rfl
  · exact skip fun _ => skip fun last => newExpr fun _ => rfl

theorem suffix (e : Expr) : Yields Issued (Parser.suffix g e) [e] fun o => [o.getD e] := by
  refine skip fun c => ?_
  extract_lets callable
  split
  · exact (memberOf e).map _ fun _ => rfl
  split
  · refine skip fun typeArgs => ?_
    cases typeArgs with
    | none => exact done rfl
    | some typeArgs => exact (call g e typeArgs).map _ fun _ => rfl
  split
  · exact (call g e []).map _ fun _ => rfl
  split
  · exact (indexOf g e).map _ fun _ => rfl
  split
  · refine skip fun _ => skip fun last => ?_
    exact (newExpr fun _ => rfl).map _ fun _ => rfl
  · exact done rfl

/-! ### Branches -/

theorem branch : Yields Issued (Parser.branch g) [] fun e => [e] := by
  refine skip fun _ => skip fun braced => ?_
  split
  · exact (block g).next fun b => newExpr fun _ => rfl
  · exact hg.expr

theorem ifElse : Yields Issued (Parser.ifElse g) [] fun e => [e] := by
  refine skip fun _ => skip fun _ => skip fun _ => hg.expr.next fun condition => ?_
  refine skip fun _ => skip fun _ => (branch g).behind fun thenBranch => skip fun more => ?_
  extract_lets made
  have hmade (elseBranch : Option Expr) : Yields Issued (made elseBranch)
      ([condition] ++ [thenBranch] ++ elseBranch.toList) fun e => [e] :=
    skip fun last => newExpr fun _ => rfl
  split
  · have hbranch := (branch g).map (g := some) Option.toList fun _ => rfl
    exact skip fun _ => skip fun _ => hbranch.behind hmade
  · exact (done rfl).next hmade

theorem whenSubject : Yields Issued (Parser.whenSubject g) [] fun e => [e] := by
  refine skip fun _ => skip fun named => ?_
  extract_lets subject
  have hsubject : Yields Issued (subject ()) [] fun e => [e] :=
    hg.expr.next fun e => skip fun _ => skip fun _ => done rfl
  split
  · refine skip fun _ => skip fun typed => ?_
    split
    · exact skip fun _ => skip fun _ => skip fun _ => hsubject
    · exact skip fun _ => skip fun _ => hsubject
  · exact hsubject

theorem whenCondition : Yields Issued (Parser.whenCondition g) [] Option.toList := by
  refine skip fun c => ?_
  extract_lets condition
  have hcondition : Yields Issued (condition ()) [] Option.toList := by
    refine skip fun isType => ?_
    split
    · exact skip fun _ => done rfl
    · exact skip fun _ => hg.expr.map _ fun _ => rfl
  split
  · exact skip fun _ => hcondition
  · exact hcondition

theorem whenBranch : Yields Issued (Parser.whenBranch g) [] WhenBranch.exprs := by
  refine skip fun isElse => ?_
  extract_lets arm
  have harm (conditions : List Expr) : Yields Issued (arm conditions) conditions WhenBranch.exprs :=
    skip fun _ => skip fun _ => (branch g).behind fun b => done rfl
  split
  · exact (done rfl).next harm
  · refine (loop id id (fun conditions => ?_) []).next harm
    refine skip fun _ => (whenCondition g).behind fun c => skip fun _ => skip fun more => ?_
    split <;> exact done rfl

theorem whenOf : Yields Issued (Parser.whenOf g) [] fun e => [e] := by
  refine skip fun _ => skip fun subjected => ?_
  extract_lets branches
  have hbranches (subject : Option Expr) :
      Yields Issued (branches subject) subject.toList fun e => [e] := by
    refine skip fun _ => skip fun _ => ?_
    refine (loop (List.flatMap WhenBranch.exprs) (List.flatMap WhenBranch.exprs)
      (fun bs => ?_) []).behind fun bs => skip fun last => newExpr fun _ => rfl
    refine skip fun _ => skip fun closed => ?_
    split
    · exact done rfl
    · exact (whenBranch g).behind fun b => done (by simp [ofRound])
  split
  · exact ((whenSubject g).map Option.toList fun _ => rfl).next hbranches
  · exact (done rfl).next hbranches

/-! ### Operands -/

theorem embedded (tokens : List Token) :
    Yields Issued (Parser.embedded g tokens) [] fun e => [e] := by
  refine within (skip fun _ => hg.expr.next fun e => skip fun _ => skip fun k => ?_)
  split
  · exact done rfl
  · exact fail

theorem parenthesized : Yields Issued (Parser.parenthesized g) [] fun e => [e] :=
  skip fun _ => skip fun _ => hg.expr.next fun _ => skip fun _ => skip fun _ => done rfl

theorem primary : Yields Issued (Parser.primary g) [] fun e => [e] := by
  refine skip fun c => ?_
  extract_lets token
  split
  · exact skip fun _ => newExpr fun _ => rfl
  · exact skip fun _ => newExpr fun _ => rfl
  · split
    · exact skip fun _ => newExpr fun _ => rfl
    · exact parenthesized g
    · refine skip fun _ => (mapM (embedded g) _).next fun parts => newExpr fun _ => ?_
      simp [Expr.children]
    · exact ifElse g
    · exact whenOf g
    · exact lambda g
    · exact fail

theorem suffixed : Yields Issued (Parser.suffixed g) [] fun e => [e] := by
  refine (primary g).next fun first => loop (fun e => [e]) _ (fun e => ?_) first
  refine (suffix g e).next fun o => ?_
  cases o <;> exact done rfl

theorem expression : Yields Issued (Parser.expression g) [] fun e => [e] :=
  ((suffixed g).signed.castChain g).binary _

end Yields

end Parser

end FrameCheck
