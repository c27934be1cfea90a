import FrameCheck.Proofs.Inference.Rules
import FrameCheck.Proofs.Resolution.Known
import Mathlib.Data.List.Basic
import Mathlib.Data.List.Perm.Subperm
import Mathlib.Logic.Relation

/-!
# What expressions depend on

The rules for an expression ask for expressions that it depends on : for its children and what
is inside of these, for the initializer that a name refers to, and for the receiver of the call
that a lambda is passed to. Where no expression of a unit depends on itself, each has a rank,
the number of expressions it depends on, and the rank decreases along every dependence. So
questions that lead from expression to expression end, at a depth that ranks bound.

* `Expr.DependsOn` : the dependences.
* `SourceUnit.not_reaches_of_descends` : a check that no expression depends on itself.
* `SourceUnit.covered` : the rules for an expression ask for nothing else.
* `SourceUnit.rank_lt` : ranks decrease.
-/

namespace FrameCheck

/-! ## Dependences -/

/-- The receiver of the call that a lambda is passed to. -/
def Resolution.lambdaReceiver? (names : Resolution) (lambda : ExprId) : Option Expr := do
  let call ← (names.lambdaCall? lambda).bind names.expr?
  let callee ← names.callee? call
  callee.receiver.bind names.expr?

/-- An expression depends on its children, a name on the initializer of what it refers to, and
a parameter of a lambda on the receiver of the call that the lambda is passed to. -/
inductive Expr.DependsOn (names : Resolution) (e : Expr) : Expr → Prop where
  | child {x : Expr} (hx : x ∈ e.children) : DependsOn names e x
  | initializer {n : String} {d : Declaration} {x : Expr} (hn : e.kind = .name n)
      (hd : names.declaration? e = some d) (hx : d.init.bind names.expr? = some x) :
      DependsOn names e x
  | rows {n : String} {d : Declaration} {lambda : ExprId} {index : Nat} {x : Expr}
      (hn : e.kind = .name n) (hd : names.declaration? e = some d)
      (hk : d.kind = .lambdaParam lambda index) (hx : names.lambdaReceiver? lambda = some x) :
      DependsOn names e x

/-- Whether everything that an expression depends on comes before it. -/
def Resolution.descends (names : Resolution) : Bool :=
  names.exprs.toList.all fun r =>
    r.2.children.all (·.id < r.2.id) && (names.declaration? r.2).all fun d =>
      (d.init.bind names.expr?).all (·.id < r.2.id) &&
        match d.kind with
        | .lambdaParam lambda _ => (names.lambdaReceiver? lambda).all (·.id < r.2.id)
        | _ => true

/-- There is a way from expression to expression, along at least one dependence. -/
def Expr.Reaches (names : Resolution) : Expr → Expr → Prop :=
  Relation.TransGen (Expr.DependsOn names)

theorem Queries.lambdaReceiver?_of_rowReceiver? {p : Program} {lambda : ExprId} {index : Nat}
    {x : Expr} (h : rowReceiver? p lambda index = some x) :
    p.names.lambdaReceiver? lambda = some x := by
  obtain ⟨call, hcall, h⟩ := Option.bind_eq_some_iff.1 h
  obtain ⟨callee, hcallee, h⟩ := Option.bind_eq_some_iff.1 h
  obtain ⟨_, -, h⟩ := Option.bind_eq_some_iff.1 h
  exact Option.bind_eq_some_iff.2 ⟨call, hcall, Option.bind_eq_some_iff.2 ⟨callee, hcallee, h⟩⟩

/-- The receiver in a call of a member is what stands before the name. -/
theorem Resolution.exists_receiver {names : Resolution} {call : Expr} {callee : Callee}
    {id : ExprId} (h : names.callee? call = some callee) (hid : callee.receiver = some id) :
    ∃ f typeArgs args, call.kind = .call f typeArgs args ∧ ∃ receiver nameSpan safe,
      f.kind = .member receiver callee.name nameSpan safe ∧ receiver.id = id := by
  simp only [callee?] at h
  split at h
  · rename_i f typeArgs args hk
    refine ⟨f, typeArgs, args, hk, ?_⟩
    split at h
    · cases h
      cases hid
    · rename_i receiver n nameSpan safe hf
      cases h
      cases hid
      exact ⟨receiver, nameSpan, safe, hf, rfl⟩
    · cases h
  · cases h

theorem Resolution.exists_of_callee?_receiver {names : Resolution} {e : Expr} {c : Callee}
    {id : ExprId} (h : names.callee? e = some c) (hid : c.receiver = some id) :
    ∃ callee ∈ e.children, ∃ receiver ∈ callee.children, receiver.id = id := by
  obtain ⟨callee, typeArgs, args, hk, receiver, nameSpan, safe, hr, hid⟩ := exists_receiver h hid
  exact ⟨callee, by simp [Expr.children, hk], receiver, by simp [Expr.children, hr], hid⟩

namespace Expr.Reaches

variable {names : Resolution}

theorem of_mem_parts {e x : Expr} (hx : x ∈ e.parts) : e.Reaches names x := by
  induction e using childrenInduction with
  | step e ih =>
    obtain ⟨c, hc, hx⟩ := mem_parts.1 hx
    have hec : e.Reaches names c := Relation.TransGen.single (.child hc)
    rcases mem_nodes.1 hx with hx | rfl
    · exact hec.trans (ih c hc hx)
    · exact hec

end Expr.Reaches

/-! ## Inside of one unit -/

namespace SourceUnit

variable {u : SourceUnit} {p : Program}

theorem mem_exprs_of_expr? (hu : (u.exprs.map Expr.id).Nodup) {id : ExprId} {x : Expr}
    (h : (Resolution.ofUnit u).expr? id = some x) : x ∈ u.exprs :=
  ((Resolution.expr?_eq_some_iff hu).1 h).1

theorem eq_of_id_eq (hu : (u.exprs.map Expr.id).Nodup) {x y : Expr} (hx : x ∈ u.exprs)
    (hy : y ∈ u.exprs) (h : x.id = y.id) : x = y :=
  List.inj_on_of_nodup_map hu hx hy h

theorem mem_exprs_of_dependsOn (hu : (u.exprs.map Expr.id).Nodup) {e x : Expr}
    (he : e ∈ u.exprs) (h : e.DependsOn (Resolution.ofUnit u) x) : x ∈ u.exprs := by
  cases h with
  | child hx =>
    exact nodes_subset_exprs he (Expr.mem_nodes.2 (Or.inl (Expr.mem_parts_of_mem_children hx)))
  | initializer hn hd hx =>
    obtain ⟨id, -, hx⟩ := Option.bind_eq_some_iff.1 hx
    exact mem_exprs_of_expr? hu hx
  | rows hn hd hk hx =>
    obtain ⟨call, -, hx⟩ := Option.bind_eq_some_iff.1 hx
    obtain ⟨callee, -, hx⟩ := Option.bind_eq_some_iff.1 hx
    obtain ⟨id, -, hx⟩ := Option.bind_eq_some_iff.1 hx
    exact mem_exprs_of_expr? hu hx

/-- The rules for an expression of a unit ask for expressions of the unit that it reaches. -/
theorem covered (hu : (u.exprs.map Expr.id).Nodup) (hp : p.names = Resolution.ofUnit u) {e : Expr}
    (he : e ∈ u.exprs) : e.Covered p fun x => x ∈ u.exprs ∧ e.Reaches p.names x where
  part x hx :=
    ⟨nodes_subset_exprs he (Expr.mem_nodes.2 (Or.inl hx)), Expr.Reaches.of_mem_parts hx⟩
  initializer n d x hn hd hx := by
    have h : e.DependsOn p.names x := .initializer hn hd hx
    exact ⟨mem_exprs_of_dependsOn hu he (hp ▸ h), Relation.TransGen.single h⟩
  rows n d lambda index x hn hd hk hx := by
    have h : e.DependsOn p.names x := .rows hn hd hk (Queries.lambdaReceiver?_of_rowReceiver? hx)
    exact ⟨mem_exprs_of_dependsOn hu he (hp ▸ h), Relation.TransGen.single h⟩
  receiver c x hc hx := by
    obtain ⟨id, hid, hx⟩ := Option.bind_eq_some_iff.1 hx
    obtain ⟨callee, hcallee, receiver, hreceiver, rfl⟩ :=
      Resolution.exists_of_callee?_receiver hc hid
    have hx' := (Resolution.expr?_eq_some_iff hu).1 (hp ▸ hx)
    have hec : e.DependsOn p.names callee := .child hcallee
    have hcr : callee.DependsOn p.names receiver := .child hreceiver
    have hmem := mem_exprs_of_dependsOn hu (mem_exprs_of_dependsOn hu he (hp ▸ hec)) (hp ▸ hcr)
    obtain rfl := eq_of_id_eq hu hmem hx'.1 hx'.2.symm
    exact ⟨hmem, (Relation.TransGen.single hec).tail hcr⟩

/-- Where expressions come behind those that they depend on, none reaches itself. -/
theorem not_reaches_of_id_lt (hu : (u.exprs.map Expr.id).Nodup)
    (h : ∀ e ∈ u.exprs, ∀ x, e.DependsOn (Resolution.ofUnit u) x → x.id < e.id) :
    ∀ e ∈ u.exprs, ¬e.Reaches (Resolution.ofUnit u) e := by
  intro e he hee
  have hlt : ∀ x, e.Reaches (Resolution.ofUnit u) x → x ∈ u.exprs ∧ x.id < e.id := by
    intro x hx
    induction hx with
    | single hx => exact ⟨mem_exprs_of_dependsOn hu he hx, h e he _ hx⟩
    | tail _ hxy ih =>
      exact ⟨mem_exprs_of_dependsOn hu ih.1 hxy, Nat.lt_trans (h _ ih.1 _ hxy) ih.2⟩
  exact Nat.lt_irrefl _ (hlt e hee).2

/-- Where the resolution says so, no expression of the unit reaches itself. -/
theorem not_reaches_of_descends (hu : (u.exprs.map Expr.id).Nodup)
    (h : (Resolution.ofUnit u).descends = true) :
    ∀ e ∈ u.exprs, ¬e.Reaches (Resolution.ofUnit u) e := by
  refine not_reaches_of_id_lt hu fun e he x hx => ?_
  have hfind : (Resolution.ofUnit u).exprs[e.id]? = some e :=
    (Resolution.expr?_eq_some_iff hu).2 ⟨he, rfl⟩
  simp only [Resolution.descends, List.all_eq_true, Bool.and_eq_true, decide_eq_true_eq,
    Option.all_eq_true] at h
  obtain ⟨hchildren, hnames⟩ := h (e.id, e) (Std.TreeMap.mem_toList_iff_getElem?_eq_some.2 hfind)
  cases hx with
  | child hx => exact hchildren x hx
  | initializer hn hd hx => exact (hnames _ hd).1 x hx
  | rows hn hd hk hx =>
    have hrows := (hnames _ hd).2
    simp only [hk, Option.all_eq_true, decide_eq_true_eq] at hrows
    exact hrows x hx

/-! ## Ranks -/

open Classical in
/-- How many expressions of the unit an expression depends on. -/
noncomputable def rank (u : SourceUnit) (e : Expr) : Nat :=
  (u.exprs.filter fun x => e.Reaches (Resolution.ofUnit u) x).length

/-- An expression that does not reach itself has a lower rank than those that reach it. -/
theorem rank_lt {e x : Expr} (hx : x ∈ u.exprs) (h : e.Reaches (Resolution.ofUnit u) x)
    (hacyclic : ¬x.Reaches (Resolution.ofUnit u) x) : u.rank x < u.rank e := by
  classical
  have hsub := List.monotone_filter_right u.exprs
    (p := fun y => decide (x.Reaches (Resolution.ofUnit u) y))
    (q := fun y => decide (e.Reaches (Resolution.ofUnit u) y))
    fun y hy => by
      simp only [decide_eq_true_eq] at hy ⊢
      exact h.trans hy
  refine Nat.lt_of_le_of_ne hsub.length_le fun hlen => ?_
  have hmem : x ∈ u.exprs.filter fun y => decide (e.Reaches (Resolution.ofUnit u) y) :=
    List.mem_filter.2 ⟨hx, by simpa using h⟩
  rw [← hsub.eq_of_length hlen, List.mem_filter] at hmem
  exact hacyclic (by simpa using hmem.2)

theorem length_exprs_le (hu : (u.exprs.map Expr.id).Nodup) :
    u.exprs.length ≤ (Resolution.ofUnit u).exprs.size := by
  rw [← Std.TreeMap.length_keys, ← List.length_map (f := Expr.id)]
  refine (List.subperm_of_subset hu fun id hid => ?_).length_le
  obtain ⟨x, hx, rfl⟩ := List.mem_map.1 hid
  rw [Std.TreeMap.mem_keys, Std.TreeMap.mem_iff_isSome_getElem?]
  have h : (Resolution.ofUnit u).exprs[x.id]? = some x :=
    (Resolution.expr?_eq_some_iff hu).2 ⟨hx, rfl⟩
  simp [h]

/-- Ranks stay below the depth that questions have. -/
theorem rank_le_depth (hu : (u.exprs.map Expr.id).Nodup) (hp : p.names = Resolution.ofUnit u)
    (e : Expr) : 2 * u.rank e + 2 ≤ p.depth := by
  have hrank : u.rank e ≤ u.exprs.length := List.length_filter_le ..
  have hsize := length_exprs_le hu
  have hsquare : 2 * (p.names.exprs.size + 2) * 1 ≤
      2 * (p.names.exprs.size + 2) * (p.names.exprs.size + 2) :=
    Nat.mul_le_mul_left _ (by omega)
  rw [← hp] at hsize
  unfold Program.depth
  omega

end SourceUnit

end FrameCheck
