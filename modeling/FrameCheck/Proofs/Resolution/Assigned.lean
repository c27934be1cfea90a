import FrameCheck.Proofs.Resolution.Walked

/-!
# What is assigned

An assignment tells that its target is assigned if the target is a name that refers to something,
and nothing else tells so. `Expr.targets` are the targets of the assignments that stand directly in
the statements of an expression that is a block or a lambda, and `Item.targets` those of an item
that stand in no expression, so all the targets of a unit are found node by node.

* `SourceUnit.targets` : the targets of the assignments in a unit.
* `SourceUnit.assigns_mem_facts` : the walk over a unit tells of what its targets refer to.
* `Resolution.isStable_eq_false_iff` : what does not keep the value of its initializer.
-/

namespace FrameCheck

/-! ## Targets -/

mutual

/-- The targets in the statements of a block, and in no expression of theirs. -/
def Block.targets : Block → List Expr
  | ⟨stmts, _⟩ => Stmt.targetsOf stmts

def Stmt.targetsOf : List Stmt → List Expr
  | [] => []
  | s :: rest => s.targets ++ Stmt.targetsOf rest

def Stmt.targets : Stmt → List Expr
  | .val v => v.targets
  | .function f => f.targets
  | .assign target _ _ => [target]
  | .expr _ | .ret .. => []

/-- The targets in the getter. -/
def ValDecl.targets : ValDecl → List Expr
  | ⟨_, _, _, _, _, _, _, getter, _⟩ => getter.targets

def FunDecl.targets : FunDecl → List Expr
  | ⟨_, _, _, _, _, body, _, _⟩ => body.targets

def Body.targets : Body → List Expr
  | .absent | .expr _ => []
  | .block b => b.targets

end

/-- The targets directly in an expression. -/
def Expr.targets (e : Expr) : List Expr :=
  match e.kind with
  | .block b | .lambda _ _ b => b.targets
  | _ => []

/-- The targets in an item, and in none of its expressions. -/
def Item.targets : Item → List Expr
  | classDecl c => c.properties.flatMap (fun p => p.getter.targets) ++ c.methods.flatMap FunDecl.targets
  | function f => f.targets
  | property v => v.targets

/-- The targets of the assignments in a unit. -/
def SourceUnit.targets (u : SourceUnit) : List Expr :=
  u.items.flatMap Item.targets ++ u.exprs.flatMap Expr.targets

/-! ## What the walk tells of targets -/

/-- The facts tell that what the targets refer to is assigned, and of nothing else that is, but in
the walks over the expressions. -/
structure Assigns (fs : Scope → List Fact) (es ts : List Expr) : Prop where
  walked : ∀ t ∈ ts, ∃ w, t.WalkedIn fs w ∧
    (t.isName → ∀ sc d, Fact.refers t.id d ∈ t.facts (w sc) → Fact.assigns d ∈ fs sc)
  told : ∀ sc d, Fact.assigns d ∈ fs sc → (∃ t ∈ ts, t.isName ∧ Fact.refers t.id d ∈ fs sc) ∨
    ∃ e ∈ es, ∃ sc', e.facts sc' ⊆ fs sc ∧ Fact.assigns d ∈ e.facts sc'

namespace Assigns

variable {f g : Scope → List Fact} {es es' ts ts' : List Expr}

theorem none (h : ∀ sc d, Fact.assigns d ∉ f sc) : Assigns f [] [] where
  walked := nofun
  told sc d hd := absurd hd (h sc d)

theorem nil : Assigns (fun _ => []) [] [] := none fun _ _ => List.not_mem_nil

theorem expr (e : Expr) : Assigns (fun sc => e.facts sc) [e] [] where
  walked := nofun
  told sc _ hd := Or.inr ⟨e, List.mem_singleton_self e, sc, List.Subset.refl _, hd⟩

theorem weaken (h : Assigns f es ts) (hes : es ⊆ es') : Assigns f es' ts where
  walked := h.walked
  told sc d hd := (h.told sc d hd).imp_right fun ⟨e, he, hwalk⟩ => ⟨e, hes he, hwalk⟩

theorem append (h : Assigns f es ts) (h' : Assigns g es' ts') :
    Assigns (fun sc => f sc ++ g sc) (es ++ es') (ts ++ ts') where
  walked t ht := by
    rcases List.mem_append.1 ht with ht | ht
    · obtain ⟨w, hw, hd⟩ := h.walked t ht
      exact ⟨w, hw.mono fun sc => List.subset_append_left _ _, fun hn sc d hr =>
        List.mem_append_left _ (hd hn sc d hr)⟩
    · obtain ⟨w, hw, hd⟩ := h'.walked t ht
      exact ⟨w, hw.mono fun sc => List.subset_append_right _ _, fun hn sc d hr =>
        List.mem_append_right _ (hd hn sc d hr)⟩
  told sc d hd := by
    rcases List.mem_append.1 hd with hd | hd
    · rcases h.told sc d hd with ⟨t, ht, hn, hr⟩ | ⟨e, he, sc', hsub, hd⟩
      · exact Or.inl ⟨t, List.mem_append_left _ ht, hn, List.mem_append_left _ hr⟩
      · exact Or.inr ⟨e, List.mem_append_left _ he, sc',
          List.Subset.trans hsub (List.subset_append_left _ _), hd⟩
    · rcases h'.told sc d hd with ⟨t, ht, hn, hr⟩ | ⟨e, he, sc', hsub, hd⟩
      · exact Or.inl ⟨t, List.mem_append_right _ ht, hn, List.mem_append_right _ hr⟩
      · exact Or.inr ⟨e, List.mem_append_right _ he, sc',
          List.Subset.trans hsub (List.subset_append_right _ _), hd⟩

theorem before (h : Assigns g es ts) (hf : ∀ sc d, Fact.assigns d ∉ f sc) :
    Assigns (fun sc => f sc ++ g sc) es ts :=
  (none hf).append h

theorem after (h : Assigns f es ts) (hg : ∀ sc d, Fact.assigns d ∉ g sc) :
    Assigns (fun sc => f sc ++ g sc) es ts := by
  simpa using h.append (none hg)

theorem under (h : Assigns f es ts) {t : Scope → Scope} (ht : Scope.Extends t) :
    Assigns (fun sc => f (t sc)) es ts where
  walked x hx := by
    obtain ⟨w, hw, hd⟩ := h.walked x hx
    exact ⟨_, hw.under ht, fun hn sc => hd hn (t sc)⟩
  told sc := h.told (t sc)

theorem flatMap {α : Type} {f : α → Scope → List Fact} {g g' : α → List Expr} {l : List α}
    (h : ∀ a ∈ l, Assigns (f a) (g a) (g' a)) :
    Assigns (fun sc => l.flatMap fun a => f a sc) (l.flatMap g) (l.flatMap g') := by
  induction l with
  | nil => exact nil
  | cons a l ih =>
    rw [List.forall_mem_cons] at h
    exact h.1.append (ih h.2)

/-! ### Lists of expressions -/

theorem not_mem_expectedFacts (type : Option TypeRef) (e : ExprId) (d : DeclId) :
    Fact.assigns d ∉ expectedFacts type e := by
  cases type <;> simp [expectedFacts]

theorem not_mem_passedFacts (call : ExprId) (e : Expr) (d : DeclId) :
    Fact.assigns d ∉ passedFacts call e := by
  unfold passedFacts
  split <;> simp

theorem exprsOf (l : List Expr) : Assigns (fun sc => Expr.factsOf sc l) l [] := by
  induction l with
  | nil => exact nil
  | cons e l ih => exact (expr e).append ih

theorem expr? (o : Option Expr) : Assigns (fun sc => Expr.factsOf? sc o) o.toList [] := by
  cases o with
  | none => exact nil
  | some e => exact expr e

theorem typed (type : Option TypeRef) (o : Option Expr) :
    Assigns (fun sc => Expr.factsTyped sc type o) o.toList [] := by
  cases o with
  | none => exact nil
  | some e => exact (expr e).before fun _ => not_mem_expectedFacts type e.id

theorem arguments (call : ExprId) (l : List Argument) :
    Assigns (fun sc => Argument.facts sc call l) (l.map Argument.value) [] := by
  induction l with
  | nil => exact nil
  | cons a l ih =>
    obtain ⟨name, e⟩ := a
    exact ((expr e).before fun _ => not_mem_passedFacts call e).append ih

theorem branches (l : List WhenBranch) :
    Assigns (fun sc => WhenBranch.facts sc l) (l.flatMap WhenBranch.exprs) [] := by
  induction l with
  | nil => exact nil
  | cons b l ih =>
    obtain ⟨conditions, isElse, body⟩ := b
    exact ((exprsOf conditions).append (expr body)).append ih

theorem params (l : List Param) : Assigns (fun sc => Param.facts sc l) (Param.defaults l) [] := by
  induction l with
  | nil => exact nil
  | cons p l ih =>
    obtain ⟨decl, name, type, default, span⟩ := p
    have hrest := ih.under (Scope.extends_declare name decl)
    rw [Param.defaults_cons]
    exact (typed type default).append (hrest.before (f := fun _ => [_]) (by simp))

/-! ### Statements -/

/-- The target is walked over in the scope in which it is looked up. -/
theorem assignment (target value : Expr) :
    Assigns (fun sc => target.facts sc ++ value.facts sc ++ assignedFacts sc target) [target, value]
      [target] where
  walked t ht := by
    obtain rfl := List.mem_singleton.1 ht
    refine ⟨_, (Expr.WalkedIn.self t).mono fun sc => ?_, fun hn sc d hd => ?_⟩
    · exact List.Subset.trans (List.subset_append_left _ _) (List.subset_append_left _ _)
    · obtain ⟨id, span, kind⟩ := t
      cases kind with
      | name n =>
        have hlookup : sc.lookup? n = some d := by simpa [Expr.facts, ExprKind.facts] using hd
        exact List.mem_append_right _ (by simp [assignedFacts, hlookup])
      | _ => cases hn
  told sc d hd := by
    rcases List.mem_append.1 hd with hd | hd
    · rcases List.mem_append.1 hd with hd | hd
      · exact Or.inr ⟨target, by simp, sc,
          List.Subset.trans (List.subset_append_left _ _) (List.subset_append_left _ _), hd⟩
      · exact Or.inr ⟨value, by simp, sc,
          List.Subset.trans (List.subset_append_right _ _) (List.subset_append_left _ _), hd⟩
    · obtain ⟨id, span, kind⟩ := target
      cases kind with
      | name n =>
        have hlookup : sc.lookup? n = some d := by simpa [assignedFacts] using hd
        exact Or.inl ⟨_, List.mem_singleton_self _, rfl, by simp [Expr.facts, ExprKind.facts, hlookup]⟩
      | _ => exact absurd hd List.not_mem_nil

mutual

theorem block : ∀ b : Block, Assigns (fun sc => b.facts sc) b.exprs b.targets
  | ⟨stmts, _⟩ => statements stmts

theorem statements : ∀ l : List Stmt,
    Assigns (fun sc => Stmt.facts sc l) (Stmt.exprsOf l) (Stmt.targetsOf l)
  | [] => nil
  | s :: l => (statement s).append ((statements l).under (Scope.extends_afterStmt s))

theorem statement : ∀ s : Stmt, Assigns (fun sc => Stmt.factsOne sc s) s.exprs s.targets
  | .val v => (valDecl v).after (by simp)
  | .function f => (funDecl f.receiver f).before (f := fun _ => [.function f]) (by simp)
  | .expr e => expr e
  | .assign target value _ => assignment target value
  | .ret value _ => expr? value

theorem body (type : Option TypeRef) : ∀ b : Body,
    Assigns (fun sc => b.facts sc type) b.exprs b.targets
  | .absent => nil
  | .expr e => (expr e).before fun _ => not_mem_expectedFacts type e.id
  | .block b => block b

theorem valDecl : ∀ v : ValDecl, Assigns (fun sc => v.facts sc) v.exprs v.targets
  | ⟨_, _, _, _, _, type, init, getter, _⟩ => (typed type init).append (body type getter)

theorem funDecl (thisType : Option TypeRef) : ∀ f : FunDecl,
    Assigns (fun sc => f.facts sc thisType) f.exprs f.targets
  | ⟨_, _, _, ps, returnType, b, _, _⟩ => by
    have hthis := Scope.extends_withThis thisType
    exact ((params ps).under hthis).append
      ((body returnType b).under (hthis.comp (Scope.extends_declareParams ps)))

end

/-! ### Items -/

theorem property (p : PropertyDecl) :
    Assigns (fun sc => Expr.factsTyped sc p.type p.init ++ p.getter.facts sc p.type) p.exprs
      p.getter.targets :=
  (typed p.type p.init).append (body p.type p.getter)

theorem item : ∀ i : Item, Assigns (fun sc => i.facts sc) i.roots i.targets
  | .classDecl c => by
    have hparams := (params c.params).under c.extends_scope
    have hproperties := (flatMap (l := c.properties) fun p _ => property p).under
      (c.extends_scope.comp (Scope.extends_declareParams c.params))
    have hmethods := (flatMap (l := c.methods) fun m _ =>
      funDecl (m.receiver.or c.thisType) m).under c.extends_scope
    exact ((hparams.before (by simp)).append hproperties).append hmethods
  | .function f => funDecl f.receiver f
  | .property v => valDecl v

theorem unit (u : SourceUnit) :
    Assigns (fun sc => u.items.flatMap Item.globalFacts ++ u.items.flatMap fun i => i.facts sc)
      (u.items.flatMap Item.roots) (u.items.flatMap Item.targets) := by
  refine (flatMap (l := u.items) fun i _ => item i).before fun sc d hd => ?_
  obtain ⟨i, -, hd⟩ := List.mem_flatMap.1 hd
  cases i <;> simp [Item.globalFacts] at hd

end Assigns

/-! ## Expressions -/

theorem Expr.targets_of_isName {e : Expr} (h : e.isName) : e.targets = [] := by
  obtain ⟨id, span, kind⟩ := e
  cases kind with
  | name => rfl
  | _ => cases h

theorem Expr.assigns (e : Expr) : Assigns (fun sc => e.facts sc) e.children e.targets := by
  obtain ⟨id, span, kind⟩ := e
  refine Assigns.before (f := fun _ => [.expr ⟨id, span, kind⟩]) (g := fun sc => kind.facts sc id) ?_
    (by simp)
  cases kind with
  | name n => exact Assigns.none fun sc => by simp [ExprKind.facts]
  | literal => exact Assigns.nil
  | this => exact Assigns.none fun sc => by simp [ExprKind.facts]
  | member receiver => exact Assigns.expr receiver
  | call callee typeArgs args =>
    have hcallee : Assigns (fun sc => if callee.isName then [.expr callee] else callee.facts sc)
        [callee] [] := by
      cases callee.isName with
      | true => exact (Assigns.none (by simp)).weaken (List.nil_subset _)
      | false => exact Assigns.expr callee
    exact hcallee.append (Assigns.arguments id args)
  | index receiver indices => exact (Assigns.expr receiver).append (Assigns.exprsOf indices)
  | binary op left right => exact (Assigns.expr left).append (Assigns.expr right)
  | unary op operand => exact Assigns.expr operand
  | notNull inner => exact Assigns.expr inner
  | cast operand => exact Assigns.expr operand
  | ifElse condition thenBranch elseBranch =>
    exact ((Assigns.expr condition).append (Assigns.expr thenBranch)).append
      (Assigns.expr? elseBranch)
  | whenOf subject branches => exact (Assigns.expr? subject).append (Assigns.branches branches)
  | template parts => exact Assigns.exprsOf parts
  | block body => exact Assigns.block body
  | lambda params it body =>
    exact ((Assigns.block body).under (Scope.extends_ofLambda params it)).before (by simp)

/-- What the walk over an expression tells to be assigned is the target of an assignment inside. -/
theorem Expr.exists_target (e : Expr) {sc : Scope} {d : DeclId}
    (h : Fact.assigns d ∈ e.facts sc) :
    ∃ x ∈ e.nodes, ∃ t ∈ x.targets, t.isName ∧ Fact.refers t.id d ∈ e.facts sc := by
  induction e using Expr.childrenInduction generalizing sc with
  | step e ih =>
  rcases e.assigns.told sc d h with ⟨t, ht, hn, hd⟩ | ⟨c, hc, sc', hsub, hd⟩
  · exact ⟨e, e.mem_nodes_self, t, ht, hn, hd⟩
  · obtain ⟨x, hx, t, ht, hn, hd⟩ := ih c hc hd
    exact ⟨x, mem_nodes.2 (Or.inl (mem_parts.2 ⟨c, hc, hx⟩)), t, ht, hn, hsub hd⟩

/-! ## Units -/

namespace SourceUnit

variable {u : SourceUnit}

/-- Each target is walked over, and what it refers to there is told to be assigned. -/
theorem walked_of_mem_targets {t : Expr} (ht : t ∈ u.targets) : ∃ w,
    t.WalkedIn (fun sc => u.items.flatMap Item.globalFacts ++ u.items.flatMap fun i => i.facts sc) w ∧
      (t.isName → ∀ d, Fact.refers t.id d ∈ t.facts (w u.scope) → Fact.assigns d ∈ u.facts) := by
  rcases List.mem_append.1 ht with ht | ht
  · obtain ⟨w, hw, hd⟩ := (Assigns.unit u).walked t ht
    exact ⟨w, hw, fun hn => hd hn u.scope⟩
  · obtain ⟨x, hx, ht⟩ := List.mem_flatMap.1 ht
    have hxname : ¬x.isName := fun hn => by
      rw [x.targets_of_isName hn] at ht
      exact absurd ht List.not_mem_nil
    obtain ⟨o, ho, rfl⟩ := List.mem_map.1 (u.occurrences_perm.mem_iff.1 hx)
    obtain ⟨w, hw⟩ := (Covers.unit u).inside (u.occurrences_eq ▸ ho) fun _ => hxname
    obtain ⟨w', hw', hd⟩ := o.1.assigns.walked t ht
    exact ⟨_, hw.trans hw', fun hn d hr => hw.subset u.scope (hd hn _ d hr)⟩

/-- The walk over a unit tells to be assigned what its targets refer to, and nothing else. -/
theorem assigns_mem_facts (hu : (u.exprs.map Expr.id).Nodup) {d : DeclId} :
    .assigns d ∈ u.facts ↔ ∃ t ∈ u.targets, t.isName ∧ .refers t.id d ∈ u.facts := by
  constructor
  · intro h
    rcases (Assigns.unit u).told u.scope d h with ⟨t, ht, hn, hd⟩ | ⟨e, he, sc, hsub, hd⟩
    · exact ⟨t, List.mem_append_left _ ht, hn, hd⟩
    · obtain ⟨x, hx, t, ht, hn, hd⟩ := e.exists_target hd
      obtain ⟨i, hi, he⟩ := List.mem_flatMap.1 he
      have hxu : x ∈ u.exprs := mem_exprs.2 ⟨i, hi, e, he, hx⟩
      exact ⟨t, List.mem_append_right _ (List.mem_flatMap.2 ⟨x, hxu, ht⟩), hn, hsub hd⟩
  · rintro ⟨t, ht, hn, hd⟩
    obtain ⟨w, hw, hassigned⟩ := walked_of_mem_targets ht
    obtain ⟨n, hk⟩ : ∃ n, t.kind = .name n := by
      obtain ⟨id, span, kind⟩ := t
      cases kind with
      | name n => exact ⟨n, rfl⟩
      | _ => cases hn
    have hlookup := ((Covers.unit u).refers_iff u.tells_in (nodup_nodes hu) hw hk u.scope d).1 hd
    refine hassigned hn d ?_
    obtain ⟨id, span, kind⟩ := t
    subst hk
    simp [Expr.facts, ExprKind.facts, hlookup]

end SourceUnit

namespace Resolution

def assignedEntry : Fact → Option (DeclId × Unit)
  | .assigns d => some (d, ())
  | _ => none

theorem filled_assigned : Filled assigned assignedEntry where
  empty := rfl
  add r f := by
    cases f with
    | function f =>
      simp only [add]
      split <;> rfl
    | _ => rfl
  addMarker _ _ := rfl

/-- A declaration does not keep the value of its initializer exactly if the unit has an assignment
to a name that refers to it. -/
theorem isStable_eq_false_iff {u : SourceUnit} (hu : (u.exprs.map Expr.id).Nodup) {d : Declaration} :
    (ofUnit u).isStable d = false ↔
      ∃ t ∈ u.targets, t.isName ∧ (ofUnit u).references[t.id]? = some d.id := by
  have hentry : ∀ f, assignedEntry f = some (d.id, ()) ↔ f = .assigns d.id := fun f => by
    cases f <;> simp [assignedEntry]
  simp only [references_eq_some_iff hu]
  rw [← SourceUnit.assigns_mem_facts hu, isStable, Bool.not_eq_false',
    Std.TreeMap.contains_eq_isSome_getElem?, Option.isSome_iff_exists]
  simp only [filled_assigned.getElem?_eq_some_iff fun _ _ _ _ _ _ _ _ => rfl]
  simp [hentry]

end Resolution

end FrameCheck
