import FrameCheck.Tree.Children

/-!
# The nodes of a tree

Every expression directly inside of another is smaller (`Expr.sizeOf_lt_of_mem_children`), so
what holds of an expression whenever it holds of its children holds of all
(`Expr.childrenInduction`), and walks over a tree may follow `Expr.children` alone.

`Expr.parts` are all expressions inside of an expression, and `Expr.nodes` are these with the
expression itself, each behind its own parts. `SourceUnit.exprs` are the nodes of the
expressions in the bodies of a unit : defaults, initializers, getters, functions and methods.
-/

namespace FrameCheck

/-! ## Statements -/

theorem Stmt.exprsOf_eq_flatMap : ∀ ss : List Stmt, Stmt.exprsOf ss = ss.flatMap Stmt.exprs
  | [] => rfl
  | s :: rest => by rw [Stmt.exprsOf, List.flatMap_cons, Stmt.exprsOf_eq_flatMap rest]

theorem Block.mem_exprs {b : Block} {e : Expr} : e ∈ b.exprs ↔ ∃ s ∈ b.stmts, e ∈ s.exprs := by
  obtain ⟨stmts, span⟩ := b
  rw [exprs, Stmt.exprsOf_eq_flatMap, List.mem_flatMap]

theorem ValDecl.exprs_eq (v : ValDecl) : v.exprs = v.init.toList ++ v.getter.exprs := by
  cases v
  rfl

/-! ## Children are smaller -/

theorem Param.sizeOf_lt_of_mem_defaults {ps : List Param} {e : Expr} (h : e ∈ Param.defaults ps) :
    sizeOf e < sizeOf ps := by
  obtain ⟨p, hp, he⟩ := List.mem_filterMap.1 h
  have := List.sizeOf_lt_of_mem hp
  obtain ⟨_, _, _, default, _⟩ := p
  subst he
  simp only [Param.mk.sizeOf_spec, Option.some.sizeOf_spec] at this
  omega

mutual

theorem Block.sizeOf_lt_of_mem_exprs {e : Expr} : ∀ {b : Block}, e ∈ b.exprs → sizeOf e < sizeOf b
  | ⟨stmts, _⟩, h => by
    have := Stmt.sizeOf_lt_of_mem_exprsOf h
    simp only [Block.mk.sizeOf_spec]
    omega

theorem Stmt.sizeOf_lt_of_mem_exprsOf {e : Expr} :
    ∀ {ss : List Stmt}, e ∈ Stmt.exprsOf ss → sizeOf e < sizeOf ss
  | s :: rest, h => by
    simp only [Stmt.exprsOf, List.mem_append] at h
    simp only [List.cons.sizeOf_spec]
    rcases h with h | h
    · have := Stmt.sizeOf_lt_of_mem_exprs h
      omega
    · have := Stmt.sizeOf_lt_of_mem_exprsOf h
      omega

theorem Stmt.sizeOf_lt_of_mem_exprs {e : Expr} : ∀ {s : Stmt}, e ∈ s.exprs → sizeOf e < sizeOf s
  | .val v, h => by
    have := ValDecl.sizeOf_lt_of_mem_exprs h
    simp only [Stmt.val.sizeOf_spec]
    omega
  | .function f, h => by
    have := FunDecl.sizeOf_lt_of_mem_exprs h
    simp only [Stmt.function.sizeOf_spec]
    omega
  | .expr e', h => by
    obtain rfl := List.mem_singleton.1 h
    simp only [Stmt.expr.sizeOf_spec]
    omega
  | .assign target value span, h => by
    simp only [Stmt.exprs, List.mem_cons, List.not_mem_nil, or_false] at h
    simp only [Stmt.assign.sizeOf_spec]
    rcases h with rfl | rfl <;> omega
  | .ret value span, h => by
    obtain rfl := Option.mem_toList.1 h
    simp only [Stmt.ret.sizeOf_spec, Option.some.sizeOf_spec]
    omega

theorem ValDecl.sizeOf_lt_of_mem_exprs {e : Expr} :
    ∀ {v : ValDecl}, e ∈ v.exprs → sizeOf e < sizeOf v
  | ⟨_, _, _, _, _, _, init, getter, _⟩, h => by
    simp only [ValDecl.exprs, List.mem_append, Option.mem_toList] at h
    simp only [ValDecl.mk.sizeOf_spec]
    rcases h with rfl | h
    · simp only [Option.some.sizeOf_spec]
      omega
    · have := Body.sizeOf_lt_of_mem_exprs h
      omega

theorem FunDecl.sizeOf_lt_of_mem_exprs {e : Expr} :
    ∀ {f : FunDecl}, e ∈ f.exprs → sizeOf e < sizeOf f
  | ⟨_, _, _, params, _, body, _, _⟩, h => by
    simp only [FunDecl.exprs, List.mem_append] at h
    simp only [FunDecl.mk.sizeOf_spec]
    rcases h with h | h
    · have := Param.sizeOf_lt_of_mem_defaults h
      omega
    · have := Body.sizeOf_lt_of_mem_exprs h
      omega

theorem Body.sizeOf_lt_of_mem_exprs {e : Expr} : ∀ {b : Body}, e ∈ b.exprs → sizeOf e < sizeOf b
  | .expr e', h => by
    obtain rfl := List.mem_singleton.1 h
    simp only [Body.expr.sizeOf_spec]
    omega
  | .block b, h => by
    have := Block.sizeOf_lt_of_mem_exprs h
    simp only [Body.block.sizeOf_spec]
    omega

end

namespace Expr

theorem sizeOf_lt_of_mem_children {e c : Expr} (h : c ∈ e.children) : sizeOf c < sizeOf e := by
  obtain ⟨id, span, kind⟩ := e
  have hk : sizeOf c < sizeOf kind := by
    cases kind with
    | literal | name | this => simp [children] at h
    | call callee typeArgs args =>
      simp only [children, List.mem_cons, List.mem_map] at h
      simp only [ExprKind.call.sizeOf_spec]
      rcases h with rfl | ⟨⟨n, v⟩, ha, rfl⟩
      · omega
      · have := List.sizeOf_lt_of_mem ha
        simp only [Argument.mk.sizeOf_spec] at this ⊢
        omega
    | index receiver indices =>
      simp only [children, List.mem_cons] at h
      simp only [ExprKind.index.sizeOf_spec]
      rcases h with rfl | h
      · omega
      · have := List.sizeOf_lt_of_mem h
        omega
    | ifElse condition thenBranch elseBranch =>
      simp only [children, List.mem_cons, Option.mem_toList] at h
      simp only [ExprKind.ifElse.sizeOf_spec]
      rcases h with rfl | rfl | rfl
      · omega
      · omega
      · simp only [Option.some.sizeOf_spec]
        omega
    | whenOf subject branches =>
      simp only [children, List.mem_append, Option.mem_toList, List.mem_flatMap,
        WhenBranch.exprs, List.mem_singleton] at h
      simp only [ExprKind.whenOf.sizeOf_spec]
      rcases h with rfl | ⟨⟨conditions, isElse, body⟩, hb, h | rfl⟩
      · simp only [Option.some.sizeOf_spec]
        omega
      · have h1 := List.sizeOf_lt_of_mem hb
        have h2 := List.sizeOf_lt_of_mem h
        simp only [WhenBranch.mk.sizeOf_spec] at h1 h2
        omega
      · have h1 := List.sizeOf_lt_of_mem hb
        simp only [WhenBranch.mk.sizeOf_spec] at h1
        omega
    | template parts =>
      have := List.sizeOf_lt_of_mem (show c ∈ parts from h)
      simp only [ExprKind.template.sizeOf_spec]
      omega
    | block body =>
      have := Block.sizeOf_lt_of_mem_exprs (show c ∈ body.exprs from h)
      simp only [ExprKind.block.sizeOf_spec]
      omega
    | lambda params implicitIt body =>
      have := Block.sizeOf_lt_of_mem_exprs (show c ∈ body.exprs from h)
      simp only [ExprKind.lambda.sizeOf_spec]
      omega
    | member | binary | unary | notNull | cast =>
      simp only [children, List.mem_cons, List.not_mem_nil, or_false] at h
      rcases h with rfl | rfl <;>
        simp only [ExprKind.member.sizeOf_spec, ExprKind.binary.sizeOf_spec,
          ExprKind.unary.sizeOf_spec, ExprKind.notNull.sizeOf_spec, ExprKind.cast.sizeOf_spec] <;>
        omega
  simp only [Expr.mk.sizeOf_spec]
  omega

/-- What holds of an expression whenever it holds of its children holds of every one. -/
theorem childrenInduction {P : Expr → Prop}
    (step : ∀ e : Expr, (∀ c ∈ e.children, P c) → P e) (e : Expr) : P e :=
  step e fun c _ => childrenInduction step c
termination_by sizeOf e
decreasing_by exact sizeOf_lt_of_mem_children ‹_›

/-! ## Nodes -/

/-- An expression with all that are inside of it, each behind its own parts. -/
def nodes (e : Expr) : List Expr :=
  (e.children.attach.flatMap fun ⟨c, _⟩ => c.nodes) ++ [e]
termination_by sizeOf e
decreasing_by exact sizeOf_lt_of_mem_children ‹_›

/-- All expressions inside of an expression. -/
def parts (e : Expr) : List Expr := e.children.flatMap nodes

theorem nodes_eq (e : Expr) : e.nodes = e.parts ++ [e] := by
  rw [nodes, parts]
  congr 1
  exact List.flatMap_subtype (by intros; rfl) |>.trans (by simp)

theorem mem_nodes_self (e : Expr) : e ∈ e.nodes := by simp [nodes_eq]

theorem mem_nodes {e x : Expr} : x ∈ e.nodes ↔ x ∈ e.parts ∨ x = e := by simp [nodes_eq]

theorem mem_parts {e x : Expr} : x ∈ e.parts ↔ ∃ c ∈ e.children, x ∈ c.nodes := by
  simp [parts, List.mem_flatMap]

theorem mem_parts_of_mem_children {e c : Expr} (h : c ∈ e.children) : c ∈ e.parts :=
  mem_parts.2 ⟨c, h, c.mem_nodes_self⟩

theorem nodes_subset_of_mem_nodes {e x : Expr} : x ∈ e.nodes → x.nodes ⊆ e.nodes := by
  induction e using childrenInduction with
  | step e ih =>
    intro h
    rcases mem_nodes.1 h with h | rfl
    · obtain ⟨c, hc, hx⟩ := mem_parts.1 h
      exact fun y hy => mem_nodes.2 (Or.inl (mem_parts.2 ⟨c, hc, ih c hc hx hy⟩))
    · exact fun _ hy => hy

/-- The parts of a part are parts. -/
theorem mem_parts_trans {e x y : Expr} (hx : x ∈ e.parts) (hy : y ∈ x.nodes) : y ∈ e.parts := by
  obtain ⟨c, hc, hx⟩ := mem_parts.1 hx
  exact mem_parts.2 ⟨c, hc, nodes_subset_of_mem_nodes hx hy⟩

end Expr

/-! ## Units -/

/-- The outermost expressions of the initializer and of the getter. -/
def PropertyDecl.exprs (p : PropertyDecl) : List Expr := p.init.toList ++ p.getter.exprs

/-- The outermost expressions in the bodies of an item. -/
def Item.roots : Item → List Expr
  | classDecl c =>
    Param.defaults c.params ++ c.properties.flatMap PropertyDecl.exprs
      ++ c.methods.flatMap FunDecl.exprs
  | function f => f.exprs
  | property v => v.exprs

namespace SourceUnit

/-- The expressions in the bodies of a unit. -/
def exprs (u : SourceUnit) : List Expr := u.items.flatMap fun i => i.roots.flatMap Expr.nodes

theorem mem_exprs {u : SourceUnit} {e : Expr} :
    e ∈ u.exprs ↔ ∃ i ∈ u.items, ∃ r ∈ i.roots, e ∈ r.nodes := by
  simp [exprs, List.mem_flatMap]

theorem nodes_subset_exprs {u : SourceUnit} {e : Expr} (h : e ∈ u.exprs) : e.nodes ⊆ u.exprs := by
  obtain ⟨i, hi, r, hr, he⟩ := mem_exprs.1 h
  exact fun x hx => mem_exprs.2 ⟨i, hi, r, hr, Expr.nodes_subset_of_mem_nodes he hx⟩

end SourceUnit

end FrameCheck
