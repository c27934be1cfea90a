import FrameCheck.Proofs.Parse.Declared
import FrameCheck.Proofs.Parse.Identities
import FrameCheck.Proofs.Parse.Laying

/-!
# The spans of a unit nest

The rules of `Lays`, followed through statements and declarations. A statement that does not parse is
skipped from where it started, and what is declared in its place holds no expression, so the
statements behind it lie behind those before it. The members of a class are sorted by what they are,
and no longer lie in the order of the text, but the trees in them still nest (`Parser.Nestles`).

* `Grammar.laying_ofDepth` : the grammar of a text lays out what it reads.
* `SourceUnit.nests_of_mem_allExprs` : all expressions of a text nest.
-/

namespace FrameCheck

namespace Parser

variable {α β σ : Type}

/-- What a skipped `val` or `var` declares holds no expression. -/
theorem unparsedVal_exprs (g : Grammar) (start : Cursor) :
    Ensures (unparsedVal g start) fun o => o.toList.flatMap ValDecl.exprs = [] := by
  intro s o t hd
  have ho := unparsedVal_ensures g start s o t hd
  cases o with
  | none => rfl
  | some v =>
    obtain ⟨-, hinit, hgetter⟩ := Declares.bare ho
    rw [Option.toList_some, List.flatMap_singleton, ValDecl.exprs_eq, hinit, hgetter]
    rfl

theorem LaysBack.next {p : Parser α} {f : α → Parser β} {P : α → Prop} {before : List Piece}
    {after : β → List Piece} {d : Cursor} (hp : Ensures p P)
    (hf : ∀ a, P a → LaysBack d (f a) before after) : LaysBack d (p >>= f) before after where
  made hts hd hs := by
    obtain ⟨a, t, ha, hfa⟩ := bind_eq_done.1 hs
    exact (hf a (hp _ a t ha)).made hts hd hfa

namespace Lays

variable (g : Grammar) [hg : g.Laying]

/-! ## Functions and properties -/

theorem initializer : Lays (Parser.initializer g) [] fun o => o.toList.map .expr := by
  refine skip fun assigned => ?_
  split
  · exact skip fun _ => (expression g).optional
  · exact same rfl

theorem declared {one : List α → Parser (List α)} {read : List α → List Piece}
    (h : ∀ seen, Lays (one seen) (read seen) read) (h0 : read [] = []) :
    Lays (Parser.declared one) [] read := by
  refine skip fun _ => h0 ▸ loop read _ (fun seen => ?_) []
  refine skip fun _ => skip fun closed => ?_
  split
  · exact same rfl
  refine (h seen).next fun seen => skip fun _ => skip fun more => ?_
  split
  · exact same rfl
  · exact skip fun _ => same rfl

/-- Annotations of a parameter are no part of the tree. -/
theorem param : Lays (Parser.param g) [] fun p => p.default.toList.map .expr := by
  refine skip fun _ => skip fun named => ?_
  obtain ⟨name, span⟩ := named
  refine skip fun type => ?_
  exact (initializer g).next fun default => skip fun decl => skip fun last => same rfl

theorem params : Lays (Parser.declared fun seen => do return seen ++ [← Parser.param g]) []
    fun ps => (Param.defaults ps).map .expr :=
  declared (fun seen => (param g).behind fun p => same (by
    cases h : p.default <;> simp [Param.defaults, h])) rfl

theorem body : Lays (Parser.body g) [] fun b => b.exprs.map .expr := by
  refine skip fun short => ?_
  split
  · exact skip fun _ => (expression g).map fun _ => List.Sublist.refl _
  · exact (block g).map fun _ => List.Sublist.refl _

theorem funDecl : Lays (Parser.funDecl g) [] fun f => f.exprs.map .expr := by
  refine skip fun _ => skip fun decl => skip fun generic => ?_
  extract_lets rest
  have hrest : Lays (rest ()) [] fun f => f.exprs.map .expr := by
    refine skip fun (receiver, name) => (params g).next fun ps => ?_
    refine skip fun type => skip fun k => ?_
    extract_lets made
    have hmade (b : Body) : Lays (made b) ((Param.defaults ps).map .expr ++ b.exprs.map .expr)
        fun f => f.exprs.map .expr :=
      skip fun last => same (by rw [← List.map_append]; rfl)
    split
    · exact (body g).behind hmade
    · exact (same (by simp [Body.exprs])).next hmade
  split
  · exact skip fun _ => hrest
  · exact hrest

theorem getter : Lays (Parser.getter g) [] fun b => b.exprs.map .expr := by
  refine cursor_next fun d => ?_
  extract_lets c
  split
  · have hd : d.Reaches c.advance.advance.advance :=
      (d.reaches_skipWhile _).trans (.step (.step (.step .here)))
    exact (LaysBack.moveTo_next hd (skip fun _ => body g)).at
  · have hnone : Lays (pure .absent) [] fun b : Body => b.exprs.map .expr := same rfl
    exact hnone.at

theorem valDecl : Lays (Parser.valDecl g) [] fun v => v.exprs.map .expr := by
  refine skip fun keyword => ?_
  extract_lets mutable
  refine skip fun (receiver, name, nameSpan) => skip fun type => ?_
  refine (initializer g).next fun init => (getter g).behind fun getter => ?_
  exact skip fun decl => skip fun last => same (by rw [← List.map_append]; rfl)

/-! ## Statements -/

theorem returned : Lays (Parser.returned g) [] fun s => s.exprs.map .expr := by
  refine skip fun start => skip fun k => ?_
  extract_lets made
  have hmade (value : Option Expr) :
      Lays (made value) (value.toList.map .expr) fun s => s.exprs.map .expr :=
    skip fun last => same rfl
  split
  · exact (same rfl).next hmade
  · exact (expression g).optional.next hmade

theorem assignment : Lays (Parser.assignment g) [] fun s => s.exprs.map .expr := by
  refine (expression g).next fun target => skip fun assigned => ?_
  split
  · exact skip fun _ => (expression g).behind fun value => same rfl
  · exact same rfl

theorem statement : Lays (Parser.statement g) [] fun s => s.exprs.map .expr := by
  have hval : Lays (do
      let v ← Parser.valDecl g
      if v.receiver.isSome then return Stmt.function v.getterFunction else return Stmt.val v) []
      fun s => s.exprs.map .expr := by
    refine (valDecl g).next fun v => ?_
    split
    · refine done (List.Sublist.map _ ?_)
      rw [v.exprs_eq]
      exact List.sublist_append_right _ _
    · exact same rfl
  refine skip fun k => ?_
  split
  · exact hval
  · exact hval
  · exact (funDecl g).map fun _ => List.Sublist.refl _
  · exact returned g
  · exact assignment g

theorem statements : Lays (Parser.statements g) [] fun ss => (Stmt.exprsOf ss).map .expr := by
  let read (ss : List Stmt) : List Piece := (Stmt.exprsOf ss).map .expr
  have hread (ss more : List Stmt) : read (ss ++ more) = read ss ++ read more := by
    simp only [read, Stmt.exprsOf_eq_flatMap, List.flatMap_append, List.map_append]
  refine loop read _ (fun stmts => ?_) []
  refine skip fun _ => skip fun closed => ?_
  split
  · exact same rfl
  refine skip fun k => ?_
  split
  · exact failBefore
  refine cursor_next fun d => ?_
  have hone : Lays (do
      let stmt ← Parser.statement g
      statementEnd
      return stmt) [] fun s => read [s] :=
    (statement g).next fun s => skip fun _ => same (by simp [read, Stmt.exprsOf])
  refine .attempt_next hone (fun stmt => same (hread _ _)) ?_
  refine .next (unparsedVal_exprs g d) fun declared hdeclared => .skipUnparsed_next (same ?_)
  cases declared with
  | none => simp [ofRound]
  | some v =>
    have hv : read [Stmt.val v] = [] := by
      have hv : v.exprs = [] := by simpa using hdeclared
      simp [read, Stmt.exprsOf, Stmt.exprs, hv]
    rw [ofRound]
    exact (hread stmts [Stmt.val v]).trans (by rw [hv, List.append_nil])

end Lays

end Parser

/-- The grammar of a text lays out what it reads, at any depth. -/
theorem Grammar.laying_ofDepth : ∀ n, (Grammar.ofDepth n).Laying
  | 0 => { agrees := (Grammar.forward_ofDepth 0).agrees, expr := .fail, stmts := .fail }
  | n + 1 =>
    have := Grammar.laying_ofDepth n
    { agrees := (Grammar.forward_ofDepth (n + 1)).agrees
      expr := Parser.Lays.expression _
      stmts := Parser.Lays.statements _ }

/-! ## Trees in any order -/

/-- All these trees nest. -/
def Expr.AllNest (ts : List Token) (es : List Expr) : Prop := ∀ e ∈ es, e.Nests ts

namespace Expr.AllNest

variable {ts : List Token} {es fs : List Expr}

theorem nil : AllNest ts [] := fun _ h => absurd h List.not_mem_nil

theorem append (h : AllNest ts es) (h' : AllNest ts fs) : AllNest ts (es ++ fs) :=
  List.forall_mem_append.2 ⟨h, h'⟩

theorem subset (h : AllNest ts es) (hs : fs ⊆ es) : AllNest ts fs := fun e he => h e (hs he)

end Expr.AllNest

namespace Parser

/-- Where the cursor stands in the list, the parser stays in the list, and its answer has the
property. -/
structure Nestles (ts : List Token) (p : Parser α) (P : α → Prop) : Prop where
  made : ∀ {s i a t}, s.cursor.Stands ts i → p s = .done a t →
    (∃ j, t.cursor.Stands ts j) ∧ P a

namespace Nestles

variable {ts : List Token} {p : Parser α} {f : α → Parser β} {P : α → Prop} {Q : β → Prop}

theorem of_lays {es : α → List Expr} (hts : Token.Orderly ts)
    (h : Lays p [] fun a => (es a).map .expr) : Nestles ts p fun a => Expr.AllNest ts (es a) where
  made {_ i _ _} hs hd := by
    obtain ⟨j, hj, hlaid⟩ := h.made hts ⟨i, hs, .nil (Nat.le_refl i)⟩ hd
    exact ⟨⟨j, hj⟩, fun e he => hlaid.nests_of_mem (List.mem_map_of_mem he)⟩

theorem answer {a : α} (h : P a) : Nestles ts (pure a) P where
  made hs hd := by
    cases hd
    exact ⟨⟨_, hs⟩, h⟩

theorem fail : Nestles ts (Parser.fail : Parser α) P where
  made _ hd := by cases hd

theorem failBefore : Nestles ts ((Parser.fail : Parser α) >>= f) Q where
  made _ hd := by cases hd

theorem next (h : Nestles ts p P) (hf : ∀ a, P a → Nestles ts (f a) Q) : Nestles ts (p >>= f) Q where
  made hs hd := by
    obtain ⟨a, t, hp, hfa⟩ := bind_eq_done.1 hd
    obtain ⟨⟨j, hj⟩, ha⟩ := h.made hs hp
    exact (hf a ha).made hj hfa

theorem skip [hp : Forward p] (hf : ∀ a, Nestles ts (f a) Q) : Nestles ts (p >>= f) Q where
  made hs hd := by
    obtain ⟨a, t, hp', hfa⟩ := bind_eq_done.1 hd
    obtain ⟨j, -, hj⟩ := hs.reaches (hp.reaches_of_done hp')
    exact (hf a).made hj hfa

theorem map {m : α → β} (h : Nestles ts p P) (hm : ∀ a, P a → Q (m a)) : Nestles ts (m <$> p) Q :=
  h.next fun a ha => answer (hm a ha)

/-- What a round of a loop comes to. -/
def ofRound (P : σ → Prop) (Q : β → Prop) : Round σ β → Prop
  | .next a => P a
  | .stop r => Q r

theorem loop {step : σ → Parser (Round σ β)} {P : σ → Prop}
    (h : ∀ a, P a → Nestles ts (step a) (ofRound P Q)) {start : σ} (hstart : P start) :
    Nestles ts (Parser.loop step start) Q := by
  have hrounds : ∀ n a, P a → Nestles ts (rounds step n a) Q := by
    intro n
    induction n with
    | zero => exact fun a _ => fail
    | succ n ih =>
      intro a ha
      refine next (h a ha) fun r hr => ?_
      cases r with
      | next b => exact ih b hr
      | stop r => exact answer hr
  exact ⟨fun hs hd => (hrounds _ start hstart).made hs hd⟩

end Nestles

/-- The parser does so wherever the cursor is, for it returns to a place in the list. -/
structure NestlesBack (ts : List Token) (d : Cursor) (p : Parser α) (P : α → Prop) : Prop where
  made : ∀ {s i a t}, d.Stands ts i → p s = .done a t → (∃ j, t.cursor.Stands ts j) ∧ P a

section

variable {ts : List Token} {p : Parser α} {P : α → Prop} {Q : β → Prop} {d : Cursor}

theorem NestlesBack.skipUnparsed_next {f : Unit → Parser β} (hf : Nestles ts (f ()) Q) :
    NestlesBack ts d (Parser.skipUnparsed d >>= f) Q where
  made {s _ _ _} hd hp := by
    rw [bind_of_done (skipUnparsed_eq d s)] at hp
    obtain ⟨j, -, hj⟩ := hd.reaches (reaches_skipStop d)
    exact hf.made (s := { s with cursor := skipStop d, skipped := skipSpan d :: s.skipped }) hj hp

theorem NestlesBack.next {f : α → Parser β} (hp : Ensures p P)
    (hf : ∀ a, P a → NestlesBack ts d (f a) Q) : NestlesBack ts d (p >>= f) Q where
  made hd hs := by
    obtain ⟨a, t, ha, hfa⟩ := bind_eq_done.1 hs
    exact (hf a (hp _ a t ha)).made hd hfa

/-- An attempt that succeeds goes on, and one that is given up returns to where it started. -/
theorem Nestles.attempt_next {f : Cursor → Option α → Parser β} (hp : Nestles ts p P)
    (hsome : ∀ d a, P a → Nestles ts (f d (some a)) Q)
    (hnone : ∀ d, NestlesBack ts d (f d none) Q) :
    Nestles ts (Parser.cursor >>= fun d => Parser.attempt p >>= f d) Q where
  made {s i b t} hs hd := by
    obtain ⟨d, u, hcursor, hd⟩ := bind_eq_done.1 hd
    cases hcursor
    obtain ⟨o, u, ho, hfo⟩ := bind_eq_done.1 hd
    obtain ⟨a, rfl, h⟩ | ⟨rfl, -⟩ := attempt_eq_done.1 ho
    · obtain ⟨⟨j, hj⟩, ha⟩ := hp.made hs h
      exact (hsome s.cursor a ha).made hj hfo
    · exact (hnone s.cursor).made hs hfo

end

namespace Nestles

open FrameCheck.Expr (AllNest)

variable (g : Grammar) [hg : g.Laying] {ts : List Token} (hts : Token.Orderly ts)

include hts

theorem annotations : Nestles ts (Parser.annotations g)
    fun as => AllNest ts (as.flatMap AnnotationEntry.args) := by
  refine loop (P := fun as => AllNest ts (as.flatMap AnnotationEntry.args))
    (fun seen hseen => skip fun marked => ?_) .nil
  split
  · refine skip fun start => skip fun name => skip fun opened => ?_
    extract_lets entry
    have hentry (args : List Argument) (hargs : AllNest ts (args.map Argument.value)) :
        Nestles ts (entry args) (ofRound (fun as => AllNest ts (as.flatMap AnnotationEntry.args))
          fun as => AllNest ts (as.flatMap AnnotationEntry.args)) := by
      refine skip fun last => skip fun _ => answer ?_
      rw [ofRound, List.flatMap_append, List.flatMap_singleton]
      exact hseen.append hargs
    split
    · exact (of_lays hts (Lays.arguments g)).next hentry
    · exact (answer (P := fun args => AllNest ts (args.map Argument.value)) .nil).next hentry
  · exact answer hseen

theorem initializer : Nestles ts (Parser.initializer g) fun o => AllNest ts o.toList :=
  of_lays hts (Lays.initializer g)

theorem funDecl : Nestles ts (Parser.funDecl g) fun f => AllNest ts f.exprs :=
  of_lays hts (Lays.funDecl g)

theorem valDecl : Nestles ts (Parser.valDecl g) fun v => AllNest ts v.exprs :=
  of_lays hts (Lays.valDecl g)

theorem constructorParam :
    Nestles ts (Parser.constructorParam g) fun p => AllNest ts p.exprs := by
  refine (annotations g hts).next fun as has => skip fun _ => skip fun start => skip fun isVal => ?_
  extract_lets rest
  have hrest (isVar : Bool) : Nestles ts (rest isVar) fun p => AllNest ts p.exprs := by
    refine skip fun named => ?_
    obtain ⟨name, nameSpan⟩ := named
    refine skip fun _ => skip fun type => ?_
    refine (initializer g hts).next fun default hdefault => skip fun decl => skip fun last => ?_
    extract_lets span
    split
    · exact answer (has.append (hdefault.append .nil))
    · exact answer hdefault
  split
  · exact (answer (P := fun _ => True) trivial).next fun isVar _ => hrest isVar
  · exact skip hrest

theorem member {seen : Members} (hseen : AllNest ts seen.exprs) :
    Nestles ts (Parser.member g seen) fun m => AllNest ts m.exprs := by
  have hmethod (f : FunDecl) (hf : AllNest ts f.exprs) :
      AllNest ts (Members.exprs { seen with methods := seen.methods ++ [f] }) := by
    refine (hseen.append hf).subset fun e he => ?_
    simp only [Members.exprs, List.flatMap_append, List.flatMap_singleton, List.mem_append] at he ⊢
    tauto
  have hproperty (p : PropertyDecl) (hp : AllNest ts (p.annotationArgs ++ p.exprs)) :
      AllNest ts (Members.exprs { seen with properties := seen.properties ++ [p] }) := by
    refine (hseen.append hp).subset fun e he => ?_
    simp only [Members.exprs, List.flatMap_append, List.flatMap_singleton, List.mem_append] at he ⊢
    tauto
  refine (annotations g hts).next fun as has => skip fun _ => skip fun k => ?_
  have hval : Nestles ts (do
      let v ← Parser.valDecl g
      Parser.statementEnd
      if v.receiver.isSome then
        return { seen with methods := seen.methods ++ [v.getterFunction] }
      else return { seen with properties := seen.properties ++ [⟨v.decl, as, v.mutable, v.name,
        v.nameSpan, v.type, v.init, v.getter, false, v.span⟩] }) fun m => AllNest ts m.exprs := by
    refine (valDecl g hts).next fun v hv => skip fun _ => ?_
    rw [v.exprs_eq] at hv
    split
    · exact answer (hmethod _ (hv.subset (List.subset_append_right _ _)))
    · exact answer (hproperty _ (has.append hv))
  split
  · exact hval
  · exact hval
  · exact (funDecl g hts).next fun f hf => skip fun _ => answer (hmethod f hf)
  · exact fail

theorem classBody {seen : Members} (hseen : AllNest ts seen.exprs) :
    Nestles ts (Parser.classBody g seen) fun m => AllNest ts m.exprs := by
  refine skip fun _ => loop (P := fun m => AllNest ts m.exprs) (fun seen hseen => ?_) hseen
  refine skip fun _ => skip fun closed => ?_
  split
  · exact answer hseen
  refine skip fun k => ?_
  split
  · exact failBefore
  exact attempt_next (member g hts hseen) (fun _ more hmore => answer hmore)
    fun d => .skipUnparsed_next (answer hseen)

theorem constructor : Nestles ts
    (Parser.declared fun seen => do return seen ++ [← Parser.constructorParam g])
    fun ps => AllNest ts (ps.flatMap ConstructorParam.exprs) := by
  refine skip fun _ => loop (P := fun ps => AllNest ts (ps.flatMap ConstructorParam.exprs))
    (fun seen hseen => skip fun _ => skip fun closed => ?_) .nil
  split
  · exact answer hseen
  refine next (P := fun ps => AllNest ts (ps.flatMap ConstructorParam.exprs)) ?_
    fun seen hseen => skip fun _ => skip fun more => ?_
  · refine (constructorParam g hts).next fun p hp => answer ?_
    rw [List.flatMap_append, List.flatMap_singleton]
    exact hseen.append hp
  · split
    · exact answer hseen
    · exact skip fun _ => answer hseen

theorem classDecl {as : List AnnotationEntry} (isInterface : Bool)
    (has : AllNest ts (as.flatMap AnnotationEntry.args)) :
    Nestles ts (Parser.classDecl g as isInterface) fun c => AllNest ts (Item.classDecl c).exprs := by
  refine skip fun start => skip fun named => ?_
  obtain ⟨name, nameSpan⟩ := named
  refine skip fun generic => ?_
  extract_lets finish rest
  have hfinish (ps : List ConstructorParam) (hps : AllNest ts (ps.flatMap ConstructorParam.exprs)) :
      Nestles ts (finish ps) fun c => AllNest ts (Item.classDecl c).exprs := by
    refine skip fun supertypes => ?_
    extract_lets members made
    have hconstructor : AllNest ts (Param.defaults (ps.filterMap ConstructorParam.param?)
        ++ members.exprs) := by
      classical
      refine hps.subset fun e he => ?_
      have hcount := Yields.count_constructor e ps
      simp only [members, Members.exprs, List.flatMap_nil, List.append_nil, ← List.append_assoc]
        at he
      rw [← List.count_pos_iff, List.count_append, List.count_append, ← hcount] at he
      exact List.count_pos_iff.1 he
    have hmade (m : Members) (hm : AllNest ts m.exprs) :
        Nestles ts (made m) fun c => AllNest ts (Item.classDecl c).exprs := by
      refine skip fun last => answer (((has.append hconstructor).append hm).subset fun e he => ?_)
      simp only [Item.exprs, Item.annotationArgs, Item.roots, Members.exprs, List.mem_append]
        at he ⊢
      tauto
    have hmembers : AllNest ts members.exprs :=
      hconstructor.subset (List.subset_append_right _ _)
    refine skip fun opened => ?_
    split
    · exact (classBody g hts hmembers).next hmade
    · exact (answer (P := fun m => AllNest ts m.exprs) hmembers).next hmade
  have hrest : Nestles ts (rest ()) fun c => AllNest ts (Item.classDecl c).exprs := by
    refine skip fun opened => ?_
    split
    · exact (constructor g hts).next hfinish
    · exact (answer (P := fun ps => AllNest ts (ps.flatMap ConstructorParam.exprs)) .nil).next
        hfinish
  split
  · exact skip fun _ => hrest
  · exact hrest

/-! ## Items -/

theorem item : Nestles ts (Parser.item g) fun i => AllNest ts i.exprs := by
  refine (annotations g hts).next fun as has => skip fun _ => skip fun k => ?_
  have hval : Nestles ts (do
      let v ← Parser.valDecl g
      Parser.statementEnd
      if v.receiver.isSome then return Item.function v.getterFunction else return Item.property v)
      fun i => AllNest ts i.exprs := by
    refine (valDecl g hts).next fun v hv => skip fun _ => ?_
    split
    · rw [v.exprs_eq] at hv
      exact answer (hv.subset (List.subset_append_right _ _))
    · exact answer hv
  split
  · exact (classDecl g hts true has).map fun _ hc => hc
  · exact skip fun _ => (classDecl g hts false has).map fun _ hc => hc
  · exact (classDecl g hts false has).map fun _ hc => hc
  · exact (funDecl g hts).next fun f hf => skip fun _ => answer hf
  · exact hval
  · exact hval
  · exact fail

theorem items : Nestles ts (Parser.items g) fun is => AllNest ts (is.flatMap Item.exprs) := by
  refine loop (P := fun is => AllNest ts (is.flatMap Item.exprs))
    (fun seen hseen => skip fun _ => skip fun k => ?_) .nil
  have hmore (is : List Item) (his : AllNest ts (is.flatMap Item.exprs)) :
      AllNest ts ((seen ++ is).flatMap Item.exprs) := by
    rw [List.flatMap_append]
    exact hseen.append his
  split
  · exact answer hseen
  · exact skip fun _ => answer hseen
  · exact skip fun _ => answer hseen
  · refine attempt_next (item g hts) (fun _ i hi => answer (hmore [i] ?_)) fun d => ?_
    · rwa [List.flatMap_singleton]
    · refine .next (unparsedVal_exprs g d) fun declared hd => .skipUnparsed_next
        (answer (hmore _ fun e he => ?_))
      cases declared with
      | none => exact absurd he List.not_mem_nil
      | some v =>
        have hv : v.exprs = [] := by simpa using hd
        simp [Item.exprs, Item.annotationArgs, Item.roots, hv] at he

end Nestles

end Parser

/-! ## Units -/

namespace SourceUnit

/-- Whatever a text is, the spans of its expressions nest. Each is not empty, starts where a token
does and stops where one does, be it a token of the text or of a template; it covers those of its
children, which lie apart and in order. -/
theorem spanned_of_scan {text : String} {ts : List Token} (h : Token.scan text = .ok ts) :
    ∀ e ∈ (ofTokens ts).allExprs, e.Spanned ts := by
  intro e he
  have hts := Token.orderly_of_scan h
  have hg := Grammar.laying_ofDepth (Token.listWeight ts)
  have hstart : (start ts).cursor.Stands ts 0 :=
    Cursor.stands_ofTokens (Token.ended_of_scan h).ends.ne_nil
  unfold ofTokens at he
  cases hitems : Parser.items (Grammar.ofDepth (Token.listWeight ts)) (start ts) with
  | failed s =>
    rw [hitems] at he
    exact absurd he List.not_mem_nil
  | done items s =>
    rw [hitems] at he
    obtain ⟨root, hroot, he⟩ := List.mem_flatMap.1 he
    exact ((Parser.Nestles.items _ hts).made hstart hitems).2 root hroot e he

/-- Parentheses, a sign, and a string with a name and code in it. -/
def spansText : String := "val x = (a + -b) * \"$s $\x7bf(c)!!\x7d\""

theorem spanned_of_scan_spansText : ∃ ts, Token.scan spansText = .ok ts ∧
    (∃ e ∈ (ofTokens ts).allExprs, e.span = ⟨9, 33⟩ ∧ e.children.map Expr.span = [⟨9, 15⟩, ⟨19, 33⟩]) ∧
      ∀ e ∈ (ofTokens ts).allExprs, e.Spanned ts := by
  obtain ⟨ts, hts, htest⟩ : ∃ ts, Token.scan spansText = .ok ts ∧
      (((ofTokens ts).items.flatMap Item.exprs).any fun e =>
        e.span == ⟨9, 33⟩ && e.children.map Expr.span == [⟨9, 15⟩, ⟨19, 33⟩]) = true := by
    refine Token.exists_scan rfl ?_
    decide +kernel
  obtain ⟨e, he, hspans⟩ := List.any_eq_true.1 htest
  rw [Bool.and_eq_true, beq_iff_eq, beq_iff_eq] at hspans
  exact ⟨ts, hts, ⟨e, List.mem_flatMap.2 ⟨e, he, e.mem_nodes_self⟩, hspans⟩, spanned_of_scan hts⟩

end SourceUnit

end FrameCheck
