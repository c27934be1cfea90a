import FrameCheck.Proofs.Parse.Numbering

/-!
# The expressions of a unit have different ids

The rules of `Yields`, followed through statements, declarations and classes. What a tree
keeps of an annotation, of a default or of a getter is less than what was read, so the trees
of a declaration are some of those that were issued for it.

* `SourceUnit.nodup_ids` : the ids of all expressions in the bodies of a unit differ.
-/

namespace FrameCheck

/-! ## Trees of declarations -/

/-- The arguments of the annotations of a property. -/
def PropertyDecl.annotationArgs (p : PropertyDecl) : List Expr :=
  p.annotations.flatMap AnnotationEntry.args

/-- The arguments of the annotations of an item and of its members. -/
def Item.annotationArgs : Item → List Expr
  | classDecl c =>
    c.annotations.flatMap AnnotationEntry.args
      ++ c.properties.flatMap PropertyDecl.annotationArgs
  | _ => []

/-- All expressions of an item that are in no other, with those in annotations. -/
def Item.exprs (i : Item) : List Expr := i.annotationArgs ++ i.roots

theorem Param.defaults_cons (p : Param) (ps : List Param) :
    Param.defaults (p :: ps) = p.default.toList ++ Param.defaults ps := by
  cases h : p.default <;> simp [Param.defaults, h]

theorem ValDecl.exprs_getterFunction (v : ValDecl) : v.getterFunction.exprs = v.getter.exprs := rfl

namespace Parser

namespace Quiet

variable (g : Grammar) [hg : g.Numbered]

instance statementEnd : Quiet Parser.statementEnd := by
  refine next fun k => ?_
  split
  · infer_instance
  · split <;> infer_instance

instance annotationName : Quiet Parser.annotationName := by
  refine next fun (first, _) => next fun sited => ?_
  extract_lets rest
  have hrest : ∀ name, Quiet (rest name) := fun name => loop inferInstance _
  split <;> exact next hrest

instance skipModifiers : Quiet Parser.skipModifiers := by
  refine loop (fun _ => next fun c => ?_) _
  extract_lets after
  split <;> infer_instance

instance skipTypeParameters : Quiet Parser.skipTypeParameters := by
  refine next fun _ => loop (fun depth => next fun token => ?_) _
  split
  · infer_instance
  split
  · infer_instance
  split
  · split <;> infer_instance
  · infer_instance

instance typeMark : Quiet (Parser.typeMark g) := by
  refine next fun typed => ?_
  split <;> infer_instance

instance functionName : Quiet (Parser.functionName g) := by
  refine next fun head => next fun dotted => ?_
  split
  · infer_instance
  · split <;> infer_instance

instance propertyName : Quiet (Parser.propertyName g) := by
  refine next fun c => ?_
  extract_lets after
  split
  · refine next fun head => next fun dotted => ?_
    split
    · exact next fun (_, _) => inferInstance
    · split <;> infer_instance
  · exact next fun (_, _) => inferInstance

end Quiet

namespace Yields

variable {I : ExprId → ExprId → List Expr → Prop}

variable (g : Grammar) [hg : g.Numbered]

/-- What is declared in place of a `val` that did not parse holds no expression. -/
theorem unparsedVal [Numbering I] (start : Cursor) :
    Yields I (Parser.unparsedVal g start) [] fun o => o.toList.flatMap ValDecl.exprs :=
  have := Quiet.attempt (Quiet.typeRef g)
  unparsedVal_cases (P := fun p => Yields I (p g) [] fun o => o.toList.flatMap ValDecl.exprs)
    (done rfl) (fun _ _ _ _ => skip fun _ => done rfl) fun _ _ _ _ =>
      skip fun _ => skip fun _ => skip fun _ => done rfl

theorem annotations :
    Yields Issued (Parser.annotations g) [] fun as => as.flatMap AnnotationEntry.args := by
  refine loop (List.flatMap AnnotationEntry.args) _ (fun seen => skip fun marked => ?_) []
  split
  · refine skip fun start => skip fun name => skip fun opened => ?_
    extract_lets entry
    have hentry (args : List Argument) : Yields Issued (entry args)
        (seen.flatMap AnnotationEntry.args ++ args.map Argument.value)
        (ofRound (List.flatMap AnnotationEntry.args) (List.flatMap AnnotationEntry.args)) :=
      skip fun last => skip fun _ => done (by simp [ofRound])
    split
    · exact (arguments g).behind hentry
    · exact (done (by simp)).next hentry
  · exact done rfl

/-! ## Functions and properties -/

theorem initializer : Yields Issued (Parser.initializer g) [] Option.toList := by
  refine skip fun assigned => ?_
  split
  · exact skip fun _ => (expression g).map _ fun _ => rfl
  · exact done rfl

theorem declared [Numbering I] {α : Type} {one : List α → Parser (List α)}
    {trees : List α → List Expr} (h : ∀ seen, Yields I (one seen) (trees seen) trees)
    (h0 : trees [] = []) : Yields I (Parser.declared one) [] trees := by
  refine skip fun _ => h0 ▸ loop trees _ (fun seen => ?_) []
  refine skip fun _ => skip fun closed => ?_
  split
  · exact done rfl
  refine (h seen).next fun seen => skip fun _ => skip fun more => ?_
  split
  · exact done rfl
  · exact skip fun _ => done rfl

theorem param : Yields Issued (Parser.param g) [] fun p => p.default.toList := by
  have := (annotations g).quiet
  refine skip fun _ => skip fun (name, span) => skip fun type => ?_
  exact (initializer g).next fun default => skip fun decl => skip fun last => done rfl

theorem body : Yields Issued (Parser.body g) [] Body.exprs := by
  refine skip fun short => ?_
  split
  · exact skip fun _ => (expression g).map _ fun _ => rfl
  · exact (block g).map _ fun _ => rfl

theorem params : Yields Issued
    (Parser.declared fun seen => do return seen ++ [← Parser.param g]) [] Param.defaults :=
  declared (fun seen => (param g).behind fun p => done (by
    cases h : p.default <;> simp [Param.defaults, h])) rfl

theorem funDecl : Yields Issued (Parser.funDecl g) [] FunDecl.exprs := by
  refine skip fun _ => skip fun decl => skip fun generic => ?_
  extract_lets rest
  have hrest : Yields Issued (rest ()) [] FunDecl.exprs := by
    refine skip fun (receiver, name) => (params g).next fun ps => skip fun type => skip fun k => ?_
    extract_lets made
    have hmade (b : Body) : Yields Issued (made b) (Param.defaults ps ++ b.exprs) FunDecl.exprs :=
      skip fun last => done rfl
    split
    · exact (body g).behind hmade
    · exact (done (by simp [Body.exprs])).next hmade
  split
  · exact skip fun _ => hrest
  · exact hrest

theorem getter : Yields Issued (Parser.getter g) [] Body.exprs := by
  refine skip fun c => ?_
  extract_lets here
  split
  · exact skip fun _ => skip fun _ => body g
  · exact done rfl

theorem valDecl : Yields Issued (Parser.valDecl g) [] ValDecl.exprs := by
  refine skip fun keyword => ?_
  extract_lets mutable
  refine skip fun (receiver, name, nameSpan) => skip fun type => (initializer g).next fun init => ?_
  refine (getter g).behind fun getter => skip fun decl => skip fun last => done ?_
  rw [ValDecl.exprs_eq]

/-! ## Statements -/

theorem returned : Yields Issued (Parser.returned g) [] Stmt.exprs := by
  refine skip fun start => skip fun k => ?_
  extract_lets made
  have hmade (value : Option Expr) : Yields Issued (made value) value.toList Stmt.exprs :=
    skip fun last => done rfl
  split
  · exact (done rfl).next hmade
  · exact ((expression g).map Option.toList fun _ => rfl).next hmade

theorem assignment : Yields Issued (Parser.assignment g) [] Stmt.exprs := by
  refine (expression g).next fun target => skip fun assigned => ?_
  split
  · exact skip fun _ => (expression g).behind fun value => done rfl
  · exact done rfl

theorem statement : Yields Issued (Parser.statement g) [] Stmt.exprs := by
  have hval : Yields Issued (do
      let v ← Parser.valDecl g
      if v.receiver.isSome then return Stmt.function v.getterFunction else return Stmt.val v) []
      Stmt.exprs := by
    refine (valDecl g).next fun v => ?_
    split
    · refine drop ?_
      rw [Stmt.exprs, ValDecl.exprs_getterFunction, ValDecl.exprs_eq]
      exact List.sublist_append_right _ _
    · exact done rfl
  refine skip fun k => ?_
  split
  · exact hval
  · exact hval
  · exact (funDecl g).map _ fun _ => rfl
  · exact returned g
  · exact assignment g

theorem statements : Yields Issued (Parser.statements g) [] Stmt.exprsOf := by
  refine loop Stmt.exprsOf _ (fun stmts => ?_) []
  refine skip fun _ => skip fun closed => ?_
  split
  · exact done rfl
  refine skip fun k => ?_
  split
  · exact failBefore
  refine skip fun start => ?_
  have hone : Yields Issued (do
      let stmt ← Parser.statement g
      statementEnd
      return stmt) [] Stmt.exprs := (statement g).next fun s => skip fun _ => done rfl
  refine hone.attempt.behind fun parsed => ?_
  cases parsed with
  | some stmt => exact done (by simp [ofRound, Stmt.exprsOf_eq_flatMap])
  | none =>
    refine (unparsedVal g start).behind fun declared => skip fun _ => done ?_
    cases declared <;> simp [ofRound, Stmt.exprsOf_eq_flatMap, Stmt.exprs]

end Yields

end Parser

/-- The parsers for nested parts number what they make, to any depth. -/
theorem Grammar.numbered_ofDepth : ∀ n, (Grammar.ofDepth n).Numbered
  | 0 => ⟨Parser.Quiet.fail, Parser.Yields.fail, Parser.Yields.fail⟩
  | n + 1 =>
    have := Grammar.numbered_ofDepth n
    ⟨Parser.Quiet.typeRef _, Parser.Yields.expression _, Parser.Yields.statements _⟩

/-! ## Classes -/

namespace Parser

/-- All expressions of a constructor parameter that the tree may keep. -/
def ConstructorParam.exprs : ConstructorParam → List Expr
  | plain p => p.default.toList
  | property d => d.annotationArgs ++ d.exprs

/-- The expressions of the members of a class, with those in annotations. -/
def Members.exprs (m : Members) : List Expr :=
  m.properties.flatMap PropertyDecl.annotationArgs ++ m.properties.flatMap PropertyDecl.exprs
    ++ m.methods.flatMap FunDecl.exprs

namespace Yields

variable (g : Grammar) [hg : g.Numbered]

/-- The trees may be sorted in another way, and some may be left out. -/
theorem rearrange [DecidableEq Expr] {α : Type} {p : Parser α} {before b : List Expr}
    {after : α → List Expr} (hp : Yields Scattered p b after)
    (h : ∀ e, b.count e ≤ before.count e) : Yields Scattered p before after where
  le := hp.le
  made hs := hp.made (hs.subperm (List.subperm_ext_iff.2 fun e _ => h e))

theorem constructorParam : Yields Issued (Parser.constructorParam g) [] ConstructorParam.exprs := by
  refine (annotations g).next fun as => skip fun _ => skip fun start => skip fun isVal => ?_
  extract_lets rest
  have hrest (isVar : Bool) : Yields Issued (rest isVar) (as.flatMap AnnotationEntry.args)
      ConstructorParam.exprs := by
    refine skip fun (name, nameSpan) => skip fun _ => skip fun type => ?_
    refine (initializer g).behind fun default => skip fun decl => skip fun last => ?_
    extract_lets span
    split
    · refine done ?_
      simp [ConstructorParam.exprs, PropertyDecl.annotationArgs, PropertyDecl.exprs, Body.exprs]
    · exact drop (List.sublist_append_right _ _)
  split
  · exact (done rfl).next hrest
  · exact skip hrest

theorem member (others : List Expr) (seen : Members) :
    Yields Scattered (Parser.member g seen) (others ++ seen.exprs) fun m => others ++ m.exprs := by
  classical
  refine (annotations g).of_issued.behind fun as => skip fun _ => skip fun k => ?_
  have hval : Yields Scattered (do
      let v ← Parser.valDecl g
      Parser.statementEnd
      if v.receiver.isSome then
        return { seen with methods := seen.methods ++ [v.getterFunction] }
      else return { seen with properties := seen.properties ++ [⟨v.decl, as, v.mutable, v.name,
        v.nameSpan, v.type, v.init, v.getter, false, v.span⟩] })
      (others ++ seen.exprs ++ as.flatMap AnnotationEntry.args) fun m => others ++ m.exprs := by
    refine (valDecl g).of_issued.behind fun v => skip fun _ => ?_
    split
    · refine (done rfl).rearrange fun e => ?_
      simp only [Members.exprs, List.flatMap_append, List.count_append, List.flatMap_singleton,
        ValDecl.exprs_getterFunction, ValDecl.exprs_eq]
      omega
    · refine (done rfl).rearrange fun e => ?_
      simp only [Members.exprs, List.flatMap_append, List.count_append, List.flatMap_singleton,
        PropertyDecl.annotationArgs, PropertyDecl.exprs, ValDecl.exprs_eq]
      omega
  split
  · exact hval
  · exact hval
  · refine (funDecl g).of_issued.behind fun f => skip fun _ => (done rfl).rearrange fun e => ?_
    simp only [Members.exprs, List.flatMap_append, List.count_append, List.flatMap_singleton]
    omega
  · exact fail

theorem classBody (others : List Expr) (seen : Members) :
    Yields Scattered (Parser.classBody g seen) (others ++ seen.exprs)
      fun m => others ++ m.exprs := by
  refine skip fun _ => loop (fun m => others ++ m.exprs) _ (fun seen => ?_) seen
  refine skip fun _ => skip fun closed => ?_
  split
  · exact done rfl
  refine skip fun k => ?_
  split
  · exact failBefore
  refine skip fun start => (member g others seen).attempt.next fun more => ?_
  cases more with
  | some more => exact done rfl
  | none => exact skip fun _ => done rfl

instance supertypes : Quiet (Parser.supertypes g) := by
  refine Quiet.next fun colon => ?_
  split
  · refine Quiet.loop (fun types => Quiet.next fun _ => Quiet.next fun type => ?_) _
    have := (arguments g).quiet
    extract_lets types
    infer_instance
  · infer_instance

theorem constructor : Yields Issued
    (Parser.declared fun seen => do return seen ++ [← Parser.constructorParam g]) []
    (List.flatMap ConstructorParam.exprs) :=
  declared (fun seen => (constructorParam g).behind fun p => done (by simp)) rfl

/-- The trees of constructor parameters are those of the plain ones and of the properties. -/
theorem count_constructor [DecidableEq Expr] (e : Expr) : ∀ ps : List ConstructorParam,
    (ps.flatMap ConstructorParam.exprs).count e =
      (Param.defaults (ps.filterMap ConstructorParam.param?)).count e +
      ((ps.filterMap ConstructorParam.property?).flatMap PropertyDecl.annotationArgs).count e +
      ((ps.filterMap ConstructorParam.property?).flatMap PropertyDecl.exprs).count e
  | [] => rfl
  | .plain p :: ps => by
    have := count_constructor e ps
    simp only [List.flatMap_cons, ConstructorParam.exprs, ConstructorParam.param?,
      ConstructorParam.property?, List.filterMap_cons, List.count_append,
      Param.defaults_cons] at this ⊢
    omega
  | .property d :: ps => by
    have := count_constructor e ps
    simp only [List.flatMap_cons, ConstructorParam.exprs, ConstructorParam.param?,
      ConstructorParam.property?, List.filterMap_cons, List.count_append] at this ⊢
    omega

theorem classDecl (as : List AnnotationEntry) (isInterface : Bool) :
    Yields Scattered (Parser.classDecl g as isInterface) (as.flatMap AnnotationEntry.args)
      fun c => (Item.classDecl c).exprs := by
  classical
  refine skip fun start => skip fun (name, nameSpan) => skip fun generic => ?_
  extract_lets finish rest
  have hfinish (ps : List ConstructorParam) : Yields Scattered (finish ps)
      (as.flatMap AnnotationEntry.args ++ ps.flatMap ConstructorParam.exprs)
      fun c => (Item.classDecl c).exprs := by
    refine skip fun supertypes => ?_
    extract_lets members made
    let others := as.flatMap AnnotationEntry.args
      ++ Param.defaults (ps.filterMap ConstructorParam.param?)
    have hmade (m : Members) : Yields Scattered (made m) (others ++ m.exprs)
        fun c => (Item.classDecl c).exprs := by
      refine skip fun last => (done rfl).rearrange fun e => ?_
      simp only [others, Item.exprs, Item.annotationArgs, Item.roots, Members.exprs,
        List.count_append]
      omega
    refine skip fun opened => rearrange (b := others ++ members.exprs) ?_ fun e => ?_
    · split
      · exact (classBody g others members).next hmade
      · exact (done rfl).next hmade
    · have := count_constructor e ps
      simp only [others, members, Members.exprs, List.count_append, List.flatMap_nil,
        List.count_nil]
      omega
  have hrest : Yields Scattered (rest ()) (as.flatMap AnnotationEntry.args)
      fun c => (Item.classDecl c).exprs := by
    refine skip fun opened => ?_
    split
    · exact (constructor g).of_issued.behind hfinish
    · exact (done (by simp)).next hfinish
  split
  · exact skip fun _ => hrest
  · exact hrest

/-! ## Items -/

theorem item : Yields Scattered (Parser.item g) [] Item.exprs := by
  refine (annotations g).of_issued.next fun as => skip fun _ => skip fun k => ?_
  have hval : Yields Scattered (do
      let v ← Parser.valDecl g
      Parser.statementEnd
      if v.receiver.isSome then return Item.function v.getterFunction else return Item.property v)
      (as.flatMap AnnotationEntry.args) Item.exprs := by
    refine (valDecl g).of_issued.behind fun v => skip fun _ => ?_
    split
    · refine drop ?_
      rw [ValDecl.exprs_eq, ← List.append_assoc]
      exact List.sublist_append_right _ _
    · exact drop (List.sublist_append_right _ _)
  split
  · exact (classDecl g as true).map _ fun _ => rfl
  · exact skip fun _ => (classDecl g as false).map _ fun _ => rfl
  · exact (classDecl g as false).map _ fun _ => rfl
  · refine (funDecl g).of_issued.behind fun f => skip fun _ => drop ?_
    exact List.sublist_append_right _ _
  · exact hval
  · exact hval
  · exact fail

theorem items : Yields Scattered (Parser.items g) [] (List.flatMap Item.exprs) := by
  refine loop (List.flatMap Item.exprs) _ (fun seen => skip fun _ => skip fun k => ?_) []
  split
  · exact done rfl
  · exact skip fun _ => done rfl
  · exact skip fun _ => done rfl
  · refine skip fun start => (item g).attempt.behind fun made => ?_
    cases made with
    | some i => exact done (by simp [ofRound])
    | none =>
      refine (unparsedVal g start).behind fun declared => skip fun _ => done ?_
      cases declared <;> simp [ofRound, Item.exprs, Item.annotationArgs, Item.roots]

end Yields

end Parser

/-! ## Units -/

namespace SourceUnit

/-- All trees of a unit are issued, those in annotations included. -/
theorem scattered_items (tokens : List Token) :
    ∃ hi, Scattered 0 hi ((ofTokens tokens).items.flatMap Item.exprs) := by
  have hg := Grammar.numbered_ofDepth (Token.listWeight tokens)
  have hnil : Scattered 0 (start tokens).nextExpr [] := Scattered.numbering.nil 0
  unfold ofTokens
  cases h : Parser.items (Grammar.ofDepth (Token.listWeight tokens)) (start tokens) with
  | failed s => exact ⟨_, hnil⟩
  | done items s => exact ⟨_, (Parser.Yields.items _).made hnil h⟩

/-- The ids of all expressions of a unit differ, those in annotations included. -/
theorem nodup_idsOf (tokens : List Token) :
    (Expr.idsOf ((ofTokens tokens).items.flatMap Item.exprs)).Nodup := by
  obtain ⟨hi, h⟩ := scattered_items tokens
  exact h.nodup

theorem exprs_eq_flatMap (u : SourceUnit) :
    u.exprs = (u.items.flatMap Item.roots).flatMap Expr.nodes := by
  rw [exprs, List.flatMap_assoc]

/-- The ids of the expressions in the bodies of a unit differ. -/
theorem nodup_ids (tokens : List Token) : ((ofTokens tokens).exprs.map Expr.id).Nodup := by
  refine (nodup_idsOf tokens).sublist ?_
  rw [exprs_eq_flatMap]
  refine (List.Sublist.flatMap ?_ Expr.nodes).map Expr.id
  exact List.Sublist.flatMap_right _ fun i _ => List.sublist_append_right _ _

theorem exists_tokens_of_ofText {text : String} {u : SourceUnit} (h : ofText text = .ok u) :
    ∃ tokens, u = ofTokens tokens := by
  unfold ofText at h
  cases hs : Token.scan text with
  | error e =>
    rw [hs] at h
    cases h
  | ok tokens =>
    rw [hs] at h
    cases h
    exact ⟨tokens, rfl⟩

theorem nodup_ids_of_ofText {text : String} {u : SourceUnit} (h : ofText text = .ok u) :
    (u.exprs.map Expr.id).Nodup := by
  obtain ⟨tokens, rfl⟩ := exists_tokens_of_ofText h
  exact nodup_ids tokens

end SourceUnit

end FrameCheck
