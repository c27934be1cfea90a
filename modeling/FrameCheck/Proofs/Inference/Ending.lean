import FrameCheck.Proofs.Inference.Dependence
import FrameCheck.Proofs.Inference.Growth

/-!
# Questions that end

Where no expression of a unit reaches itself, every question for an expression has an answer,
whatever is remembered or in progress. The proof goes by the rank of expressions, which bounds
how deep their questions lead. Markers may lead back to themselves, for their questions end anyway.

* `SourceUnit.ends` : questions for expressions end, at a depth that the rank bounds.
-/

namespace FrameCheck

/-- A question that has an answer, wherever no marker is open. -/
def Query.Ends (names : Resolution) (α : Type) (x : Unit → Query α) : Prop :=
  ∀ m : Memo, m.Steady names → ∃ a m', x () m = some (a, m') ∧ m'.Steady names

namespace Query.Ends

theorem compositional (names : Resolution) : Compositional (Query.Ends names) where
  answer a m hm := ⟨a, m, rfl, hm⟩
  next hx hf m hm := by
    obtain ⟨a, m', hrun, hm'⟩ := hx m hm
    obtain ⟨b, m'', hrun', hm''⟩ := hf a m' hm'
    exact ⟨b, m'', Query.bind_eq_some.2 ⟨a, m', hrun, hrun'⟩, hm''⟩

theorem markerSchema (p : Program) (name : String) :
    Query.Ends p.names _ fun _ => p.markerSchema name := by
  intro m hm
  obtain ⟨A, A', m', hrun, -, hm'⟩ := hm.markerSchema_run name
  exact ⟨_, m', hrun, hm'⟩

theorem applied (names : Resolution) (e : Expr) (rule : OperationRule)
    (operation : OperationCall) : Query.Ends names _ fun _ => Queries.applied e rule operation := by
  intro m hm
  obtain ⟨b, hrun⟩ := Queries.applied_run e rule operation
  exact ⟨b, _, hrun m, hm.recording _ _⟩

/-- The rule for bindings ends if inference does. -/
theorem bindingRule {p : Program} {q : Queries} {e : Expr}
    (h : Query.Ends p.names _ fun _ => q.newBinding p e) :
    Query.Ends p.names _ fun _ => q.bindingRule p e := by
  intro m hm
  simp only [Queries.bindingRule_run]
  cases m.bindings[e.id]? with
  | some b => exact ⟨b, m, rfl, hm⟩
  | none =>
    simp only
    split
    · exact ⟨_, m, rfl, hm⟩
    · obtain ⟨b, m', hrun, hm'⟩ := h (m.opening e.id) (hm.opening e.id)
      exact ⟨b, m'.closing e.id b, Option.map_eq_some_iff.2 ⟨(b, m'), hrun, rfl⟩,
        hm'.congr rfl rfl rfl⟩

end Query.Ends

namespace SourceUnit

variable {u : SourceUnit} {p : Program} (hu : (u.exprs.map Expr.id).Nodup)
  (hp : p.names = Resolution.ofUnit u)
  (hacyclic : ∀ e ∈ u.exprs, ¬e.Reaches (Resolution.ofUnit u) e)

include hu hp hacyclic

/-- Questions for an expression end at each depth from twice its rank on. -/
theorem ends (e : Expr) (he : e ∈ u.exprs) :
    (∀ d, 2 * u.rank e + 1 ≤ d → Query.Ends p.names _ fun _ => (Queries.ofDepth p d).binding e) ∧
      ∀ d, 2 * u.rank e + 2 ≤ d → Query.Ends p.names _ fun _ => (Queries.ofDepth p d).type e := by
  have ih : ∀ x ∈ u.exprs, u.rank x < u.rank e → _ := fun x hx _ => ends x hx
  have hcovered := covered hu hp he
  have hlt : ∀ {x}, x ∈ u.exprs → e.Reaches p.names x → u.rank x < u.rank e := fun hx hex =>
    rank_lt hx (hp ▸ hex) (hacyclic _ hx)
  have hadmits : ∀ d, 2 * u.rank e ≤ d → Admits (Query.Ends p.names) p
      (fun _ => Queries.ofDepth p d) fun x => x ∈ u.exprs ∧ e.Reaches p.names x := fun d hd =>
    { Query.Ends.compositional p.names with
      binding := fun ⟨hx, hex⟩ =>
        (ih _ hx (hlt hx hex)).1 d (by have := hlt hx hex; omega)
      type := fun ⟨hx, hex⟩ => (ih _ hx (hlt hx hex)).2 d (by have := hlt hx hex; omega)
      schema := Query.Ends.markerSchema p }
  have hbinding : ∀ d, 2 * u.rank e + 1 ≤ d →
      Query.Ends p.names _ fun _ => (Queries.ofDepth p d).binding e := by
    intro d hd
    obtain ⟨d, rfl⟩ : ∃ d', d = d' + 1 := ⟨d - 1, by omega⟩
    exact Query.Ends.bindingRule ((hadmits d (by omega)).newBinding hcovered
      fun _ _ _ _ _ => Query.Ends.applied p.names e)
  refine ⟨hbinding, fun d hd => ?_⟩
  obtain ⟨d, rfl⟩ : ∃ d', d = d' + 1 := ⟨d - 1, by omega⟩
  exact (hadmits d (by omega)).typeRule hcovered (hbinding d (by omega))
termination_by u.rank e

/-- So do the questions of a program. -/
theorem admits_ends : Admits (Query.Ends p.names) p (fun _ : Unit => p.queries) (· ∈ u.exprs) :=
  have hdepth := rank_le_depth hu hp
  { Query.Ends.compositional p.names with
    binding := fun {e} he => (ends hu hp hacyclic e he).1 p.depth (by have := hdepth e; omega)
    type := fun {e} he => (ends hu hp hacyclic e he).2 p.depth (by have := hdepth e; omega)
    schema := Query.Ends.markerSchema p }

end SourceUnit

end FrameCheck
