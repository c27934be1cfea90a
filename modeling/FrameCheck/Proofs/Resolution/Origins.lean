import FrameCheck.Proofs.Inference.Rules
import FrameCheck.Proofs.Checker.Places
import FrameCheck.Proofs.Resolution.Known
import FrameCheck.Proofs.Tree.Declarers

/-!
# Where facts come from

Each fact that the walk over a unit finds stems from something in the unit : a declaration from
what declares it, a reference from a name that no call starts with, a call of a lambda from the
call that has the lambda as an argument. What a name refers to is in sight where the name stands,
so it was declared in the part that is walked, or in sight of the part from outside.

* `Part` : a part of a unit, closed under what is inside of its expressions.
* `Fact.StemsFrom` : what a fact stems from in a part.
* `Expr.stems`, `Item.stems` : every fact of a walk stems from the part that is walked.
-/

namespace FrameCheck

/-! ## Scopes -/

/-- The declarations in sight of a part of a unit. -/
structure Scope.Within (sc : Scope) (inSight : DeclId → Prop) : Prop where
  of_mem : ∀ n ∈ sc.names, inSight n.2

namespace Scope.Within

variable {sc : Scope} {inSight : DeclId → Prop}

theorem of_lookup? (h : sc.Within inSight) {name : String} {d : DeclId}
    (hd : sc.lookup? name = some d) : inSight d := by
  obtain ⟨l, l', hl, -⟩ := List.lookup_eq_some_iff.1 hd
  exact h.of_mem (name, d) (by simp [hl])

theorem declare (h : sc.Within inSight) (name : String) {d : DeclId} (hd : inSight d) :
    (sc.declare name d).Within inSight where
  of_mem n hn := by
    rcases List.mem_cons.1 hn with rfl | hn
    · exact hd
    · exact h.of_mem n hn

theorem withThis (h : sc.Within inSight) (type : Option TypeRef) :
    (sc.withThis type).Within inSight :=
  ⟨h.of_mem⟩

theorem declareParams : ∀ {l : List Param} {sc : Scope}, sc.Within inSight →
    (∀ p ∈ l, inSight p.decl) → (sc.declareParams l).Within inSight
  | [], _, h, _ => h
  | p :: l, _, h, hl =>
    declareParams (l := l) (h.declare p.name (hl p List.mem_cons_self)) fun q hq =>
      hl q (List.mem_cons_of_mem p hq)

theorem declareLambdaParams : ∀ {l : List LambdaParam} {sc : Scope}, sc.Within inSight →
    (∀ p ∈ l, inSight p.decl) → (sc.declareLambdaParams l).Within inSight
  | [], _, h, _ => h
  | p :: l, _, h, hl =>
    declareLambdaParams (l := l) (h.declare p.name (hl p List.mem_cons_self)) fun q hq =>
      hl q (List.mem_cons_of_mem p hq)

theorem ofLambda (h : sc.Within inSight) {ps : List LambdaParam} {it : DeclId}
    (hps : ∀ p ∈ ps, inSight p.decl) (hit : inSight it) :
    (sc.ofLambda ps it).Within inSight := by
  unfold Scope.ofLambda
  split
  · exact h.declare "it" hit
  · exact h.declareLambdaParams hps

end Scope.Within

/-! ## Occurrences -/

/-- Expressions and what is inside of them, as it occurs. -/
def Expr.allOccurrences (es : List Expr) : List Occurrence :=
  es.map (·, false) ++ (es.flatMap nodes).flatMap occurrences

theorem Expr.mem_allOccurrences {es : List Expr} {o : Occurrence} : o ∈ Expr.allOccurrences es ↔
    ∃ e ∈ es, o = (e, false) ∨ ∃ x ∈ e.nodes, o ∈ x.occurrences := by
  simp only [allOccurrences, List.mem_append, List.mem_map, List.mem_flatMap]
  constructor
  · rintro (⟨e, he, rfl⟩ | ⟨x, ⟨e, he, hx⟩, ho⟩)
    · exact ⟨e, he, Or.inl rfl⟩
    · exact ⟨e, he, Or.inr ⟨x, hx, ho⟩⟩
  · rintro ⟨e, he, rfl | ⟨x, hx, ho⟩⟩
    · exact Or.inl ⟨e, he, rfl⟩
    · exact Or.inr ⟨x, ⟨e, he, hx⟩, ho⟩

theorem Expr.mem_nodes_of_mem_allOccurrences {es : List Expr} {x : Expr} {called : Bool}
    (h : (x, called) ∈ Expr.allOccurrences es) : x ∈ es.flatMap Expr.nodes := by
  obtain ⟨e, he, heq | ⟨y, hy, ho⟩⟩ := mem_allOccurrences.1 h
  · cases heq
    exact List.mem_flatMap.2 ⟨x, he, x.mem_nodes_self⟩
  · have hchild : x ∈ y.children := map_fst_occurrences y ▸ List.mem_map_of_mem ho
    exact List.mem_flatMap.2 ⟨e, he, nodes_subset_of_mem_nodes hy
      (mem_nodes.2 (Or.inl (mem_parts_of_mem_children hchild)))⟩

/-- Every node occurs, as a called one only if some call starts with it. -/
theorem Expr.mem_allOccurrences_of_mem_nodes {es : List Expr} {x : Expr}
    (h : x ∈ es.flatMap nodes) : (x, false) ∈ allOccurrences es ∨
      ∃ call ∈ es.flatMap nodes, ∃ typeArgs args, call.kind = .call x typeArgs args := by
  obtain ⟨e, he, hx⟩ := List.mem_flatMap.1 h
  have hinside : x = e ∨ ∃ y ∈ e.nodes, x ∈ y.children := by
    clear h he
    induction e using childrenInduction with
    | step e ih =>
      rcases mem_nodes.1 hx with hx | rfl
      · obtain ⟨c, hc, hx⟩ := mem_parts.1 hx
        rcases ih c hc hx with rfl | ⟨y, hy, hxy⟩
        · exact Or.inr ⟨e, e.mem_nodes_self, hc⟩
        · exact Or.inr ⟨y, mem_nodes.2 (Or.inl (mem_parts.2 ⟨c, hc, hy⟩)), hxy⟩
      · exact Or.inl rfl
  rcases hinside with rfl | ⟨y, hy, hxy⟩
  · exact Or.inl (mem_allOccurrences.2 ⟨x, he, Or.inl rfl⟩)
  · rw [← map_fst_occurrences] at hxy
    obtain ⟨⟨x, called⟩, ho, rfl⟩ := List.mem_map.1 hxy
    cases called with
    | false => exact Or.inl (mem_allOccurrences.2 ⟨e, he, Or.inr ⟨y, hy, ho⟩⟩)
    | true => exact Or.inr ⟨y, List.mem_flatMap.2 ⟨e, he, hy⟩, mem_occurrences_true.1 ho⟩

theorem SourceUnit.occurrences_eq (u : SourceUnit) :
    u.occurrences = Expr.allOccurrences (u.items.flatMap Item.roots) := by
  rw [occurrences, Expr.allOccurrences, exprs_eq_flatMap]

/-! ## Parts -/

/-- The lambda is an argument of the call, or gives a column in a block that is one. -/
def Expr.Passes (call lambda : Expr) : Prop :=
  ∃ callee typeArgs args, call.kind = .call callee typeArgs args ∧ lambda.isLambda ∧
    ∃ a ∈ args, lambda = a.value ∨ ∃ params it body columns, a.value.kind = .lambda params it body ∧
      body.columnFroms? = some columns ∧ ∃ c ∈ columns, c.2 = lambda

/-- A part of a unit, with all that is inside of its expressions. -/
structure Part where
  occurs : Occurrence → Prop
  declares : Declarer → Prop
  /-- What names of the part may refer to. -/
  inSight : DeclId → Prop
  inside : ∀ {e called}, occurs (e, called) → ∀ o ∈ e.occurrences, occurs o
  declarers : ∀ {e called}, occurs (e, called) → ∀ x ∈ e.declarers, declares x
  declared : ∀ {x}, declares x → inSight x.id

/-- The trees and what is inside of them, with what declares around them. -/
def Part.ofTrees (es : List Expr) (ds : List Declarer) (outer : DeclId → Prop) : Part where
  occurs o := o ∈ Expr.allOccurrences es
  declares x := x ∈ ds ++ (es.flatMap Expr.nodes).flatMap Expr.declarers
  inSight d := outer d ∨ ∃ x ∈ ds ++ (es.flatMap Expr.nodes).flatMap Expr.declarers, x.id = d
  inside he _ ho := List.mem_append_right _
    (List.mem_flatMap.2 ⟨_, Expr.mem_nodes_of_mem_allOccurrences he, ho⟩)
  declarers he _ hx := List.mem_append_right _
    (List.mem_flatMap.2 ⟨_, Expr.mem_nodes_of_mem_allOccurrences he, hx⟩)
  declared hx := Or.inr ⟨_, hx, rfl⟩

/-- What a fact stems from in a part of a unit. -/
def Fact.StemsFrom (part : Part) : Fact → Prop
  | .expr e => ∃ called, part.occurs (e, called)
  | .declares d => ∃ x, part.declares x ∧ x.declaration? = some d
  | .refers name d => (∃ e, part.occurs (e, false) ∧ e.isName ∧ e.id = name) ∧ part.inSight d
  | .assigns d => part.inSight d
  | .expects id _ => ∃ e called, part.occurs (e, called) ∧ e.id = id
  | .thisType id _ => ∃ e called, part.occurs (e, called) ∧ e.kind = .this ∧ e.id = id
  | .function f => part.declares (.function f) ∨ part.declares (.method f) ∧ f.isProperty
  | .passed lambda call => ∃ c l b b', part.occurs (c, b) ∧ part.occurs (l, b') ∧ c.Passes l ∧
      c.id = call ∧ l.id = lambda

theorem Expr.mem_occurrences_of_mem_args {e callee : Expr} {typeArgs : List TypeRef}
    {args : List Argument} (hk : e.kind = .call callee typeArgs args) {a : Argument}
    (ha : a ∈ args) : (a.value, false) ∈ e.occurrences := by
  unfold occurrences
  rw [hk]
  exact List.mem_cons_of_mem _ (List.mem_map_of_mem ha)

/-- A lambda whose call is noted is an argument, or gives a column in an argument. -/
theorem Expr.exists_of_mem_passedFacts {call : ExprId} {e : Expr} {x : Fact}
    (h : x ∈ passedFacts call e) : ∃ lambda : Expr, x = .passed lambda.id call ∧ lambda.isLambda ∧
      lambda ∈ e.nodes ∧ (lambda = e ∨ ∃ params it body columns, e.kind = .lambda params it body ∧
        body.columnFroms? = some columns ∧ ∃ c ∈ columns, c.2 = lambda) := by
  unfold passedFacts at h
  split at h
  · rename_i params it body hbody
    rcases List.mem_cons.1 h with rfl | h
    · exact ⟨e, rfl, by simp [isLambda, hbody], e.mem_nodes_self, Or.inl rfl⟩
    · obtain ⟨c, hc, rfl⟩ := List.mem_map.1 h
      obtain ⟨hc, hlambda⟩ := List.mem_filter.1 hc
      cases hcolumns : body.columnFroms? with
      | none => simp [hcolumns] at hc
      | some columns =>
        rw [hcolumns, Option.getD_some] at hc
        obtain ⟨stmt, hstmt, hchild⟩ := Block.exists_of_mem_columnFroms? hcolumns hc
        have hstmt : stmt ∈ e.children := by simpa [children, hbody] using hstmt
        have hmem : c.2 ∈ e.nodes := mem_nodes.2 (Or.inl (mem_parts.2 ⟨stmt, hstmt,
          mem_nodes.2 (Or.inl (mem_parts_of_mem_children hchild))⟩))
        exact ⟨c.2, rfl, hlambda, hmem,
          Or.inr ⟨params, it, body, columns, hbody, hcolumns, c, hc, rfl⟩⟩
  · exact absurd h List.not_mem_nil

/-- A parameter of a lambda declares. -/
theorem LambdaParam.exists_declarer (lambda : ExprId) : ∀ {ps : List LambdaParam}
    (index : Nat) {p : LambdaParam}, p ∈ ps →
      ∃ x ∈ LambdaParam.declarers lambda index ps, x.id = p.decl
  | q :: ps, index, p, hp => by
    rcases List.mem_cons.1 hp with rfl | hp
    · exact ⟨_, List.mem_cons_self, rfl⟩
    · obtain ⟨x, hx, hxp⟩ := exists_declarer lambda (index + 1) hp
      exact ⟨x, List.mem_cons_of_mem _ hx, hxp⟩

theorem LambdaParam.exists_of_mem_declarations {lambda : ExprId} : ∀ {ps : List LambdaParam}
    {index : Nat} {d : Declaration}, d ∈ LambdaParam.declarations lambda index ps →
      ∃ x ∈ LambdaParam.declarers lambda index ps, x.declaration? = some d
  | q :: ps, index, d, hd => by
    rcases List.mem_cons.1 hd with rfl | hd
    · exact ⟨_, List.mem_cons_self, rfl⟩
    · obtain ⟨x, hx, hxd⟩ := exists_of_mem_declarations hd
      exact ⟨x, List.mem_cons_of_mem _ hx, hxd⟩

/-- What a lambda declares is declared by a parameter or by its `it`. -/
theorem LambdaParam.exists_of_mem_allDeclarations {lambda : ExprId} {ps : List LambdaParam}
    {it : DeclId} {d : Declaration} (hd : d ∈ LambdaParam.allDeclarations lambda ps it) :
    (∃ x ∈ LambdaParam.declarers lambda 0 ps, x.declaration? = some d) ∨
      (Declarer.implicitIt lambda ps.isEmpty it).declaration? = some d := by
  unfold allDeclarations at hd
  split at hd
  · rename_i hempty
    obtain rfl := List.mem_singleton.1 hd
    exact Or.inr (by simp [Declarer.declaration?, hempty])
  · exact Or.inl (exists_of_mem_declarations hd)

namespace Part

/-- The part holds the facts. -/
def Holds (part : Part) (fs : List Fact) : Prop := ∀ f ∈ fs, f.StemsFrom part

/-- The walk over an expression of the part finds facts of the part. -/
def Walks (part : Part) (e : Expr) : Prop :=
  part.occurs (e, false) ∧ ∀ sc : Scope, sc.Within part.inSight → part.Holds (e.facts sc)

variable {part : Part} {f g : List Fact} {sc : Scope}

theorem exists_occurs_of_mem_nodes (part : Part) {e x : Expr} {called : Bool}
    (h : part.occurs (e, called)) (hx : x ∈ e.nodes) : ∃ b, part.occurs (x, b) := by
  induction e using Expr.childrenInduction generalizing called with
  | step e ih =>
    rcases Expr.mem_nodes.1 hx with hx | rfl
    · obtain ⟨c, hc, hx⟩ := Expr.mem_parts.1 hx
      have hc' := hc
      rw [← Expr.map_fst_occurrences] at hc'
      obtain ⟨⟨c, b⟩, ho, rfl⟩ := List.mem_map.1 hc'
      exact ih c hc (part.inside h _ ho) hx
    · exact ⟨called, h⟩

namespace Holds

theorem nil : part.Holds [] := fun _ h => absurd h List.not_mem_nil

theorem append (h : part.Holds f) (h' : part.Holds g) : part.Holds (f ++ g) :=
  List.forall_mem_append.2 ⟨h, h'⟩

theorem cons {x : Fact} (hx : x.StemsFrom part) (h : part.Holds f) : part.Holds (x :: f) :=
  List.forall_mem_cons.2 ⟨hx, h⟩

theorem single {x : Fact} (hx : x.StemsFrom part) : part.Holds [x] := nil.cons hx

theorem flatMap {α : Type} {l : List α} {f : α → List Fact} (h : ∀ a ∈ l, part.Holds (f a)) :
    part.Holds (l.flatMap f) := fun x hx => by
  obtain ⟨a, ha, hx⟩ := List.mem_flatMap.1 hx
  exact h a ha x hx

theorem expected {e : Expr} (he : part.occurs (e, false)) (type : Option TypeRef) :
    part.Holds (expectedFacts type e.id) := by
  cases type with
  | none => exact nil
  | some t => exact single ⟨e, false, he, rfl⟩

theorem assigned (h : sc.Within part.inSight) (target : Expr) :
    part.Holds (assignedFacts sc target) := by
  unfold assignedFacts
  split
  · rename_i n _
    intro x hx
    obtain ⟨d, hd, rfl⟩ := Option.map_eq_some_iff.1 (Option.mem_toList.1 hx)
    exact h.of_lookup? hd
  · exact nil

/-! ### Lists of expressions -/

theorem exprs (h : sc.Within part.inSight) : ∀ {l : List Expr}, (∀ e ∈ l, part.Walks e) →
    part.Holds (Expr.factsOf sc l)
  | [], _ => nil
  | e :: _, hl => by
    rw [List.forall_mem_cons] at hl
    exact (hl.1.2 sc h).append (exprs h hl.2)

theorem expr? (h : sc.Within part.inSight) : ∀ {o : Option Expr},
    (∀ e ∈ o.toList, part.Walks e) → part.Holds (Expr.factsOf? sc o)
  | none, _ => nil
  | some e, ho => (ho e (List.mem_singleton_self e)).2 sc h

theorem typed (h : sc.Within part.inSight) (type : Option TypeRef) : ∀ {o : Option Expr},
    (∀ e ∈ o.toList, part.Walks e) → part.Holds (Expr.factsTyped sc type o)
  | none, _ => nil
  | some e, ho => by
    have he := ho e (List.mem_singleton_self e)
    exact (expected he.1 type).append (he.2 sc h)

theorem branches (h : sc.Within part.inSight) : ∀ {l : List WhenBranch},
    (∀ e ∈ l.flatMap WhenBranch.exprs, part.Walks e) → part.Holds (WhenBranch.facts sc l)
  | [], _ => nil
  | ⟨conditions, isElse, body⟩ :: _, hl => by
    rw [List.flatMap_cons, List.forall_mem_append, WhenBranch.exprs, List.forall_mem_append] at hl
    have hbody := (hl.1.2 body (List.mem_singleton_self body)).2 sc h
    exact ((exprs h hl.1.1).append hbody).append (branches h hl.2)

theorem params : ∀ {l : List Param} {sc : Scope}, sc.Within part.inSight →
    (∀ e ∈ Param.defaults l, part.Walks e) → (∀ p ∈ l, ∃ x, part.declares x ∧
      x.declaration? = some p.declaration) → part.Holds (Param.facts sc l)
  | [], _, _, _, _ => nil
  | ⟨decl, name, type, default, span⟩ :: l, sc, h, hl, hd => by
    rw [Param.defaults_cons, List.forall_mem_append] at hl
    rw [List.forall_mem_cons] at hd
    obtain ⟨x, hx, hxd⟩ := hd.1
    have hid : decl = x.id := Declarer.id_of_declaration? hxd
    have hrest := params (h.declare name (hid ▸ part.declared hx)) hl.2 hd.2
    exact (typed h type hl.1).append (hrest.cons ⟨x, hx, hxd⟩)

/-! ### Statements -/

mutual

theorem block : ∀ {b : Block} {sc : Scope}, sc.Within part.inSight →
    (∀ e ∈ b.exprs, part.Walks e) → (∀ x ∈ b.declarers, part.declares x) → part.Holds (b.facts sc)
  | ⟨_, _⟩, _, h, hb, hd => statements h hb hd

theorem statements : ∀ {l : List Stmt} {sc : Scope}, sc.Within part.inSight →
    (∀ e ∈ Stmt.exprsOf l, part.Walks e) → (∀ x ∈ Stmt.declarersOf l, part.declares x) →
      part.Holds (Stmt.facts sc l)
  | [], _, _, _, _ => nil
  | s :: _, sc, h, hl, hd => by
    rw [Stmt.exprsOf, List.forall_mem_append] at hl
    rw [Stmt.declarersOf, List.forall_mem_append] at hd
    have hafter : (sc.afterStmt s).Within part.inSight := by
      cases s with
      | val v => exact h.declare v.name (part.declared (hd.1 (.localVal v) (by simp [Stmt.declarers])))
      | function | expr | assign | ret => exact h
    exact (statement h hl.1 hd.1).append (statements hafter hl.2 hd.2)

theorem statement : ∀ {s : Stmt} {sc : Scope}, sc.Within part.inSight →
    (∀ e ∈ s.exprs, part.Walks e) → (∀ x ∈ s.declarers, part.declares x) →
      part.Holds (Stmt.factsOne sc s)
  | .val v, _, h, hs, hd => by
    rw [Stmt.declarers, List.forall_mem_append] at hd
    exact (valDecl h hs hd.1).append
      (single ⟨.localVal v, hd.2 _ (List.mem_singleton_self _), rfl⟩)
  | .function f, _, h, hs, hd => by
    rw [Stmt.declarers, List.forall_mem_cons] at hd
    exact (funDecl h f.receiver hs hd.2).cons (Or.inl hd.1)
  | .expr e, sc, h, hs, _ => (hs e (List.mem_singleton_self e)).2 sc h
  | .assign target value _, sc, h, hs, _ => by
    have htarget := (hs target (by simp [Stmt.exprs])).2 sc h
    have hvalue := (hs value (by simp [Stmt.exprs])).2 sc h
    exact (htarget.append hvalue).append (assigned h target)
  | .ret _ _, _, h, hs, _ => expr? h hs

theorem body : ∀ {b : Body} {sc : Scope}, sc.Within part.inSight → ∀ type : Option TypeRef,
    (∀ e ∈ b.exprs, part.Walks e) → (∀ x ∈ b.declarers, part.declares x) →
      part.Holds (b.facts sc type)
  | .absent, _, _, _, _, _ => nil
  | .expr e, sc, h, type, hb, _ => by
    have he := hb e (List.mem_singleton_self e)
    exact (expected he.1 type).append (he.2 sc h)
  | .block b, _, h, _, hb, hd => block (b := b) h hb hd

theorem valDecl : ∀ {v : ValDecl} {sc : Scope}, sc.Within part.inSight →
    (∀ e ∈ v.exprs, part.Walks e) → (∀ x ∈ v.declarers, part.declares x) → part.Holds (v.facts sc)
  | ⟨_, _, _, _, _, type, _, _, _⟩, _, h, hv, hd => by
    rw [ValDecl.exprs, List.forall_mem_append] at hv
    exact (typed h type hv.1).append (body h type hv.2 hd)

theorem funDecl : ∀ {f : FunDecl} {sc : Scope}, sc.Within part.inSight →
    ∀ thisType : Option TypeRef, (∀ e ∈ f.exprs, part.Walks e) →
      (∀ x ∈ f.declarers, part.declares x) → part.Holds (f.facts sc thisType)
  | ⟨_, _, _, ps, returnType, b, _, _⟩, _, h, thisType, hf, hd => by
    rw [FunDecl.exprs, List.forall_mem_append] at hf
    rw [FunDecl.declarers, List.forall_mem_append, List.forall_mem_map] at hd
    have hthis := h.withThis thisType
    have hps := hthis.declareParams fun p hp => part.declared (hd.1 p hp)
    exact (params hthis hf.1 fun p hp => ⟨.param p, hd.1 p hp, rfl⟩).append
      (body hps returnType hf.2 hd.2)

end

/-! ### Arguments -/

theorem passed {call : Expr} {called : Bool} (hcall : part.occurs (call, called)) {callee : Expr}
    {typeArgs : List TypeRef} {args : List Argument} (hk : call.kind = .call callee typeArgs args)
    {a : Argument} (ha : a ∈ args) : part.Holds (passedFacts call.id a.value) := fun x hx => by
  obtain ⟨lambda, rfl, hlambda, hmem, hpasses⟩ := Expr.exists_of_mem_passedFacts hx
  have hvalue : part.occurs (a.value, false) :=
    part.inside hcall _ (Expr.mem_occurrences_of_mem_args hk ha)
  obtain ⟨b, hb⟩ := part.exists_occurs_of_mem_nodes hvalue hmem
  exact ⟨call, lambda, called, b, hcall, hb, ⟨callee, typeArgs, args, hk, hlambda, a, ha, hpasses⟩,
    rfl, rfl⟩

theorem arguments (h : sc.Within part.inSight) {call : ExprId} : ∀ {l : List Argument},
    (∀ a ∈ l, part.Walks a.value ∧ part.Holds (passedFacts call a.value)) →
      part.Holds (Argument.facts sc call l)
  | [], _ => nil
  | ⟨_, e⟩ :: _, hl => by
    rw [List.forall_mem_cons] at hl
    exact (hl.1.2.append (hl.1.1.2 sc h)).append (arguments h hl.2)

end Holds

/-- What is inside of an expression of a part is in the part. -/
theorem walks_of_mem_children {e c : Expr} {called : Bool} (he : part.occurs (e, called))
    (hk : ∀ callee typeArgs args, e.kind ≠ .call callee typeArgs args) (hc : c ∈ e.children)
    (hwalk : part.occurs (c, false) → ∀ sc : Scope, sc.Within part.inSight →
      part.Holds (c.facts sc)) : part.Walks c := by
  have hoccurs : (c, false) ∈ e.occurrences := by
    obtain ⟨id, span, kind⟩ := e
    cases kind with
    | call callee typeArgs args => exact absurd rfl (hk callee typeArgs args)
    | _ => exact List.mem_map_of_mem hc
  exact ⟨part.inside he _ hoccurs, hwalk (part.inside he _ hoccurs)⟩

end Part

/-! ## Walks -/

/-- The walk over an expression of a part, unless it is a name that a call starts with, finds facts
that stem from the part. -/
theorem Expr.stems {part : Part} (e : Expr) : ∀ called, part.occurs (e, called) →
    (called → ¬e.isName) → ∀ sc : Scope, sc.Within part.inSight → part.Holds (e.facts sc) := by
  induction e using Expr.childrenInduction with
  | step e ih =>
  obtain ⟨id, span, kind⟩ := e
  intro called he hname sc h
  refine Part.Holds.cons ⟨called, he⟩ ?_
  by_cases hk : ∃ callee typeArgs args, kind = .call callee typeArgs args
  · obtain ⟨callee, typeArgs, args, rfl⟩ := hk
    have hcallee : part.occurs (callee, true) := part.inside he _ (by simp [occurrences])
    refine Part.Holds.append ?_ (Part.Holds.arguments h fun a ha => ?_)
    · split
      · exact Part.Holds.single ⟨true, hcallee⟩
      · exact ih callee (by simp [children]) true hcallee (fun _ => ‹_›) sc h
    · have hvalue : part.occurs (a.value, false) :=
        part.inside he _ (mem_occurrences_of_mem_args rfl ha)
      have hmem : a.value ∈ children ⟨id, span, .call callee typeArgs args⟩ := by
        simpa [children] using Or.inr ⟨a, ha, rfl⟩
      exact ⟨⟨hvalue, ih a.value hmem false hvalue (absurd · Bool.false_ne_true)⟩,
        Part.Holds.passed he rfl ha⟩
  have hchild : ∀ c ∈ children ⟨id, span, kind⟩, part.Walks c := fun c hc =>
    Part.walks_of_mem_children he (fun callee typeArgs args h => hk ⟨callee, typeArgs, args, h⟩) hc
      fun hoccurs => ih c hc false hoccurs (absurd · Bool.false_ne_true)
  cases kind with
  | call callee typeArgs args => exact absurd ⟨callee, typeArgs, args, rfl⟩ hk
  | literal => exact Part.Holds.nil
  | name n =>
    cases called with
    | true => exact absurd rfl (hname rfl)
    | false =>
      intro x hx
      obtain ⟨d, hd, rfl⟩ := Option.map_eq_some_iff.1 (Option.mem_toList.1 hx)
      exact ⟨⟨_, he, rfl, rfl⟩, h.of_lookup? hd⟩
  | this =>
    intro x hx
    obtain ⟨type, -, rfl⟩ := Option.map_eq_some_iff.1 (Option.mem_toList.1 hx)
    exact ⟨_, called, he, rfl, rfl⟩
  | member receiver => exact (hchild receiver (by simp [children])).2 sc h
  | index receiver indices =>
    exact ((hchild receiver (by simp [children])).2 sc h).append
      (Part.Holds.exprs h fun e he => hchild e (by simp [children, he]))
  | binary op left right =>
    exact ((hchild left (by simp [children])).2 sc h).append
      ((hchild right (by simp [children])).2 sc h)
  | unary op operand => exact (hchild operand (by simp [children])).2 sc h
  | notNull inner => exact (hchild inner (by simp [children])).2 sc h
  | cast operand => exact (hchild operand (by simp [children])).2 sc h
  | ifElse condition thenBranch elseBranch =>
    exact (((hchild condition (by simp [children])).2 sc h).append
      ((hchild thenBranch (by simp [children])).2 sc h)).append
      (Part.Holds.expr? h fun e he => hchild e (by simp [children, Option.mem_toList.1 he]))
  | whenOf subject branches =>
    exact (Part.Holds.expr? h fun e he => hchild e (List.mem_append_left _ he)).append
      (Part.Holds.branches h fun e he => hchild e (List.mem_append_right _ he))
  | template parts => exact Part.Holds.exprs h hchild
  | block body => exact Part.Holds.block h hchild (part.declarers he)
  | lambda params it body =>
    have hd := part.declarers he
    simp only [declarers, List.forall_mem_append, List.forall_mem_cons] at hd
    obtain ⟨hparams, hit, hbody⟩ := hd
    have hsc : (sc.ofLambda params it).Within part.inSight := by
      refine h.ofLambda (fun p hp => ?_) (part.declared hit)
      obtain ⟨x, hx, hxp⟩ := LambdaParam.exists_declarer id 0 hp
      exact hxp ▸ part.declared (hparams x hx)
    refine Part.Holds.append (fun x hx => ?_) (Part.Holds.block hsc hchild hbody)
    obtain ⟨d, hd, rfl⟩ := List.mem_map.1 hx
    rcases LambdaParam.exists_of_mem_allDeclarations hd with ⟨x, hx, hxd⟩ | hxd
    · exact ⟨x, hparams x hx, hxd⟩
    · exact ⟨_, hit, hxd⟩

/-- An expression that no call starts with is walked over with facts of the part. -/
theorem Part.walks {part : Part} {e : Expr} (h : part.occurs (e, false)) : part.Walks e :=
  ⟨h, e.stems false h nofun⟩

/-! ## Units -/

namespace ClassDecl

/-- In sight in a class are its properties and what is in sight around it. -/
theorem scope_within {inSight : DeclId → Prop} {sc : Scope} (h : sc.Within inSight) (c : ClassDecl)
    (hps : ∀ p ∈ c.properties, inSight p.decl) : (c.scope sc).Within inSight := by
  unfold scope
  have hfold : ∀ {ps : List PropertyDecl} {sc : Scope}, sc.Within inSight →
      (∀ p ∈ ps, inSight p.decl) →
        (ps.foldl (fun sc p => sc.declare p.name p.decl) sc).Within inSight := by
    intro ps
    induction ps with
    | nil => exact fun h _ => h
    | cons p ps ih =>
      intro sc h hps
      rw [List.forall_mem_cons] at hps
      exact ih (h.declare p.name hps.1) hps.2
  exact hfold (h.withThis c.thisType) hps

end ClassDecl

namespace Part.Holds

variable {part : Part} {sc : Scope}

theorem property (h : sc.Within part.inSight) {p : PropertyDecl}
    (hp : ∀ e ∈ p.exprs, part.Walks e) (hd : ∀ x ∈ p.declarers, part.declares x) :
    part.Holds (Expr.factsTyped sc p.type p.init ++ p.getter.facts sc p.type) := by
  rw [PropertyDecl.exprs, List.forall_mem_append] at hp
  rw [PropertyDecl.declarers, List.forall_mem_cons] at hd
  exact (typed h p.type hp.1).append (body h p.type hp.2 hd.2)

theorem classDecl (h : sc.Within part.inSight) {c : ClassDecl}
    (hc : ∀ e ∈ (Item.classDecl c).roots, part.Walks e)
    (hd : ∀ x ∈ (Item.classDecl c).declarers, part.declares x) : part.Holds (c.facts sc) := by
  simp only [Item.roots, List.forall_mem_append, List.forall_mem_flatMap] at hc
  simp only [Item.declarers, List.forall_mem_append, List.forall_mem_flatMap, List.forall_mem_map,
    List.forall_mem_cons] at hd
  obtain ⟨⟨hparams, hproperties⟩, hmethods⟩ := hc
  obtain ⟨⟨dparams, dproperties⟩, dmethods⟩ := hd
  have hmember : ∀ p ∈ c.properties, part.declares (.classMember p) := fun p hp =>
    dproperties p hp _ List.mem_cons_self
  have hmembers := c.scope_within h fun p hp => part.declared (hmember p hp)
  have hinner := hmembers.declareParams fun p hp => part.declared (dparams p hp)
  refine Part.Holds.append (Part.Holds.append (Part.Holds.append (fun x hx => ?_) ?_) ?_) ?_
  · obtain ⟨p, hp, rfl⟩ := List.mem_map.1 hx
    exact ⟨_, hmember p hp, rfl⟩
  · exact params hmembers hparams fun p hp => ⟨.plainParam p, dparams p hp, rfl⟩
  · exact flatMap fun p hp => property hinner (hproperties p hp) (dproperties p hp)
  · exact flatMap fun m hm => funDecl hmembers _ (hmethods m hm) (dmethods m hm).2

theorem item (h : sc.Within part.inSight) : ∀ {i : Item}, (∀ e ∈ i.roots, part.Walks e) →
    (∀ x ∈ i.declarers, part.declares x) → part.Holds (i.facts sc)
  | .classDecl _, hi, hd => classDecl h hi hd
  | .function f, hi, hd => funDecl h f.receiver hi (List.forall_mem_cons.1 hd).2
  | .property _, hi, hd => valDecl h hi (List.forall_mem_cons.1 hd).2

theorem global : ∀ {i : Item}, (∀ x ∈ i.declarers, part.declares x) → part.Holds i.globalFacts
  | .classDecl c, hd => fun x hx => by
    obtain ⟨f, hf, rfl⟩ := List.mem_map.1 hx
    obtain ⟨hf, hproperty⟩ := List.mem_filter.1 hf
    have hmethod : .method f ∈ (Item.classDecl c).declarers :=
      List.mem_append_right _ (List.mem_flatMap.2 ⟨f, hf, List.mem_cons_self⟩)
    exact Or.inr ⟨hd _ hmethod, hproperty⟩
  | .function _, hd => single (Or.inl (hd _ List.mem_cons_self))
  | .property _, hd => single ⟨_, hd _ List.mem_cons_self, rfl⟩

end Part.Holds

/-- A property of the top level is in sight in the whole unit. -/
def Scope.withItem (sc : Scope) : Item → Scope
  | .property v => sc.declare v.name v.decl
  | .classDecl _ | .function _ => sc

namespace SourceUnit

theorem scope_eq (u : SourceUnit) : u.scope = u.items.foldl Scope.withItem Scope.empty := by
  unfold scope
  congr 1
  funext sc i
  cases i <;> rfl

/-- The whole of a unit. -/
def part (u : SourceUnit) : Part :=
  .ofTrees (u.items.flatMap Item.roots) (u.items.flatMap Item.declarers) fun _ => False

theorem scope_within {inSight : DeclId → Prop} (u : SourceUnit)
    (h : ∀ v, .property v ∈ u.items → inSight v.decl) : u.scope.Within inSight := by
  rw [scope_eq]
  have hfold : ∀ {l : List Item} {sc : Scope}, sc.Within inSight →
      (∀ v, Item.property v ∈ l → inSight v.decl) → (l.foldl Scope.withItem sc).Within inSight := by
    intro l
    induction l with
    | nil => exact fun h _ => h
    | cons i l ih =>
      intro sc h hl
      refine ih ?_ fun v hv => hl v (List.mem_cons_of_mem i hv)
      cases i with
      | property v => exact h.declare v.name (hl v List.mem_cons_self)
      | classDecl | function => exact h
  exact hfold ⟨fun n hn => absurd hn List.not_mem_nil⟩ h

/-- Every fact that the walk over a unit finds stems from something in the unit. -/
theorem stems (u : SourceUnit) : u.part.Holds u.facts := by
  have hdeclares : ∀ i ∈ u.items, ∀ x ∈ i.declarers, u.part.declares x := fun i hi x hx =>
    List.mem_append_left _ (List.mem_flatMap.2 ⟨i, hi, hx⟩)
  have hroots : ∀ i ∈ u.items, ∀ e ∈ i.roots, u.part.Walks e := fun i hi e he =>
    Part.walks (Expr.mem_allOccurrences.2 ⟨e, List.mem_flatMap.2 ⟨i, hi, he⟩, Or.inl rfl⟩)
  have hscope : u.scope.Within u.part.inSight := u.scope_within fun v hv =>
    u.part.declared (hdeclares _ hv (.topLevel v) List.mem_cons_self)
  exact (Part.Holds.flatMap fun i hi => Part.Holds.global (hdeclares i hi)).append
    (Part.Holds.flatMap fun i hi => Part.Holds.item hscope (hroots i hi) (hdeclares i hi))

theorem part_declares {u : SourceUnit} {x : Declarer} : u.part.declares x ↔ x ∈ u.declarers := by
  rw [declarers, exprs_eq_flatMap]
  exact Iff.rfl

theorem mem_exprs_of_occurs {u : SourceUnit} {e : Expr} {called : Bool}
    (h : u.part.occurs (e, called)) : e ∈ u.exprs :=
  exprs_eq_flatMap u ▸ Expr.mem_nodes_of_mem_allOccurrences h

end SourceUnit

end FrameCheck
