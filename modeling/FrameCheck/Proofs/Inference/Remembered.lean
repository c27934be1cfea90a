import FrameCheck.Proofs.Inference.Growth

/-!
# Why something is remembered

A memo may be kept such that each remembered binding has a justification. If the justification
lasts while the memo grows and the failure of the expression stays (`Lasting`), then all that
needs to be said for it is said when an expression is remembered (`Memo.Justified.closing`).

* `Memo.Grows` : nothing that is remembered is lost.
* `Memo.Justified` : the invariant, for a justification.
* `Queries.ofDepth_justified` : questions keep it.
-/

namespace FrameCheck

/-- Nothing that is remembered or recorded is lost. -/
structure Memo.Grows (m m' : Memo) : Prop where
  bindings : ∀ {id : ExprId} {b : Binding}, m.bindings[id]? = some b → m'.bindings[id]? = some b
  markers : ∀ {n : String} {s : Schema}, m.markers[n]? = some s → m'.markers[n]? = some s
  callFailures : ∀ {id : ExprId} {f : Failure},
    m.callFailures[id]? = some f → m'.callFailures[id]? = some f
  markerFailures : m.markerFailures <+: m'.markerFailures

theorem Extends.grows {own : ExprId → Prop} {m m' : Memo} (h : Extends own m m') : m.Grows m' :=
  ⟨h.bindings, h.markers, h.callFailures, h.markerFailures⟩

namespace Memo.Grows

variable {m m' m'' : Memo}

theorem trans (h : m.Grows m') (h' : m'.Grows m'') : m.Grows m'' where
  bindings hb := h'.bindings (h.bindings hb)
  markers hs := h'.markers (h.markers hs)
  callFailures hf := h'.callFailures (h.callFailures hf)
  markerFailures := h.markerFailures.trans h'.markerFailures

theorem mem_markers (h : m.Grows m') {n : String} (hn : n ∈ m.markers) : n ∈ m'.markers := by
  rw [Std.TreeMap.mem_iff_isSome_getElem?] at hn ⊢
  obtain ⟨s, hs⟩ := Option.isSome_iff_exists.1 hn
  simp [h.markers hs]

theorem closing (m : Memo) {id : ExprId} (hid : id ∉ m.bindings) (b : Binding) :
    m.Grows (m.closing id b) where
  bindings {j c} hc := by
    have hj : id ≠ j := by
      rintro rfl
      exact hid (Std.TreeMap.mem_iff_isSome_getElem?.2 (by simp [hc]))
    rw [closing_bindings, Std.TreeMap.getElem?_insert, if_neg (by simpa using hj)]
    exact hc
  markers h := h
  callFailures h := h
  markerFailures := List.prefix_refl _

end Memo.Grows

/-- A justification of what is remembered that lasts while nothing is lost and the failure of the
expression stays. -/
def Lasting (J : Memo → ExprId → Binding → Prop) : Prop :=
  ∀ ⦃m m' : Memo⦄ ⦃id : ExprId⦄ ⦃b : Binding⦄, m.Grows m' →
    m'.callFailures[id]? = m.callFailures[id]? → J m id b → J m' id b

/-- Each binding that is remembered is justified, what is in progress is not remembered, and only
what is remembered or in progress has failed. -/
structure Memo.Justified (names : Resolution) (J : Memo → ExprId → Binding → Prop) (m : Memo) :
    Prop where
  steady : m.Steady names
  cached : ∀ {id : ExprId} {b : Binding}, m.bindings[id]? = some b → J m id b
  idle : ∀ {id}, id ∈ m.inProgress → id ∉ m.bindings
  failed : ∀ {id}, id ∈ m.callFailures → id ∈ m.bindings ∨ id ∈ m.inProgress

namespace Memo.Justified

variable {names : Resolution} {J : Memo → ExprId → Binding → Prop} {m : Memo}

theorem empty (names : Resolution) (J : Memo → ExprId → Binding → Prop) :
    Memo.empty.Justified names J where
  steady := Memo.Steady.empty _
  cached h := by simp [Memo.empty] at h
  idle h := by simp [Memo.empty] at h
  failed h := by simp [Memo.empty] at h

/-- What is neither remembered nor in progress has no failure. -/
theorem not_mem_callFailures (h : m.Justified names J) {id : ExprId} (hb : id ∉ m.bindings)
    (hp : id ∉ m.inProgress) : id ∉ m.callFailures := fun hf => (h.failed hf).elim hb hp

variable (hJ : Lasting J)

include hJ

/-- An expression that is not remembered may be opened. -/
theorem opening (h : m.Justified names J) {id : ExprId} (hid : id ∉ m.bindings) :
    (m.opening id).Justified names J where
  steady := h.steady.opening id
  cached {j b} (hb : m.bindings[j]? = some b) := by
    have hg : m.Grows (m.opening id) := ⟨fun h => h, fun h => h, fun h => h, List.prefix_refl _⟩
    exact hJ hg rfl (h.cached hb)
  idle hj := by
    rcases List.mem_cons.1 hj with rfl | hj
    · exact hid
    · exact h.idle hj
  failed hf := (h.failed hf).imp_right (List.mem_cons_of_mem _)

/-- A failure may be recorded for an expression that is in progress. -/
theorem recording (h : m.Justified names J) {id : ExprId} (hid : id ∈ m.inProgress)
    (f : Option Failure) : (m.recording id f).Justified names J where
  steady := h.steady.recording id f
  cached {j b} hb := by
    rw [recording_bindings] at hb
    have hj : id ≠ j := by
      rintro rfl
      exact h.idle hid (Std.TreeMap.mem_iff_isSome_getElem?.2 (by simp [hb]))
    refine hJ (Extends.recording m id f).grows ?_ (h.cached hb)
    rw [recording_callFailures, if_neg hj]
  idle := by
    rw [recording_inProgress, recording_bindings]
    exact h.idle
  failed {j} hj := by
    rw [recording_inProgress, recording_bindings]
    by_cases hidj : id = j
    · exact Or.inr (hidj ▸ hid)
    · rw [Std.TreeMap.mem_iff_isSome_getElem?, recording_callFailures, if_neg hidj] at hj
      exact h.failed (Std.TreeMap.mem_iff_isSome_getElem?.2 hj)

/-- An expression that was being inferred may be remembered with what is justified for it. -/
theorem closing {m₁ : Memo} {id : ExprId} {b : Binding} (h₁ : m₁.Justified names J)
    (hp : m₁.inProgress = id :: m.inProgress) (hidle : id ∉ m.inProgress)
    (hb : J (m₁.closing id b) id b) : (m₁.closing id b).Justified names J := by
  have herase : m₁.inProgress.erase id = m.inProgress := by
    rw [hp]
    exact List.erase_cons_head ..
  have hmem : ∀ {j}, j ∈ m₁.bindings.insert id b ↔ id = j ∨ j ∈ m₁.bindings := by
    simp [Std.TreeMap.mem_insert]
  have hgrows := Grows.closing m₁ (h₁.idle (hp ▸ List.mem_cons_self ..)) b
  refine ⟨h₁.steady.congr rfl rfl rfl, fun {j c} hc => ?_, fun {j} hj => ?_, fun {j} hj => ?_⟩
  · simp only [closing_bindings, Std.TreeMap.getElem?_insert,
      Std.LawfulEqOrd.compare_eq_iff_eq] at hc
    split at hc
    · rename_i hid
      cases hc
      exact hid ▸ hb
    · exact hJ hgrows rfl (h₁.cached hc)
  · rw [closing_inProgress, herase] at hj
    intro hjb
    rcases hmem.1 hjb with rfl | hjb
    · exact hidle hj
    · exact h₁.idle (hp ▸ List.mem_cons_of_mem _ hj) hjb
  · rw [closing_inProgress, closing_bindings, herase, hmem]
    rcases h₁.failed hj with hjb | hj
    · exact Or.inl (Or.inr hjb)
    · rw [hp, List.mem_cons] at hj
      exact hj.imp_left fun h => Or.inl h.symm

/-- Questions for markers leave all justified. -/
theorem grown {m' : Memo} {A A' : String → List String} (h : m.Justified names J)
    (hg : Grown A m A' m') (hsteady : m'.Steady names) : m'.Justified names J where
  steady := hsteady
  cached {id b} hb := by
    have hown : Extends (fun _ => False) m m' := Extends.of_grown hg
    exact hJ hown.grows (by rw [hg.callFailures]) (h.cached (hg.bindings ▸ hb))
  idle := by
    rw [hg.inProgress, hg.bindings]
    exact h.idle
  failed := by
    rw [hg.inProgress, hg.bindings, hg.callFailures]
    exact h.failed

end Memo.Justified

/-! ## What questions leave -/

/-- What is in progress stays so, and may get a failure. -/
theorem Query.Keeping.whileOpen {I : Memo → Prop} {α : Type} {x : Unit → Query α}
    (h : Query.Keeping I (fun _ => False) α x) (id : ExprId) :
    Query.Keeping (fun m => I m ∧ id ∈ m.inProgress) (· = id) α x := by
  rintro m a m' hx ⟨hI, hid⟩
  obtain ⟨hI', he⟩ := h m a m' hx hI
  refine ⟨⟨hI', ?_⟩, he.mono fun _ => False.elim⟩
  rw [he.inProgress]
  exact hid

namespace Queries

variable {p : Program} {q : Queries} {J : Memo → ExprId → Binding → Prop} {A : Expr → Prop}
  (hJ : Lasting J)

include hJ

theorem markerSchema_justified (own : ExprId → Prop) (name : String) :
    Query.Keeping (Memo.Justified p.names J) own _ fun _ => p.markerSchema name := by
  intro m s m' h hm
  obtain ⟨A, A', m₁, hrun, hgrown, hm₁⟩ := hm.steady.markerSchema_run name
  cases h.symm.trans hrun
  exact ⟨hm.grown hJ hgrown hm₁, Extends.of_grown hgrown⟩

theorem applied_justified (e : Expr) (rule : OperationRule) (operation : OperationCall) :
    Query.Keeping (fun m => m.Justified p.names J ∧ e.id ∈ m.inProgress) (· = e.id) _
      fun _ => applied e rule operation := by
  rintro m b m' h ⟨hm, hid⟩
  obtain ⟨b', hrun⟩ := applied_run e rule operation
  cases (hrun m).symm.trans h
  refine ⟨⟨hm.recording hJ hid _, ?_⟩, Extends.recording _ _ _⟩
  rw [Memo.recording_inProgress]
  exact hid

/-- All stays justified if what is inferred of the expression itself is. -/
theorem bindingRule_justified {e : Expr} (hq : q.Extending p)
    (h : Admits (Query.Keeping (Memo.Justified p.names J) fun _ => False) p (fun _ => q) A)
    (he : e.Covered p A)
    (hnew : ∀ (m m' : Memo) b, m.Justified p.names J → e.id ∉ m.bindings → e.id ∉ m.inProgress →
      q.newBinding p e (m.opening e.id) = some (b, m') → J (m'.closing e.id b) e.id b) :
    Query.Keeping (Memo.Justified p.names J) (fun _ => False) _ fun _ => q.bindingRule p e := by
  -- While `e` is inferred it may fail, and the rules ask for other expressions.
  have hopen : Admits (Query.Keeping (fun m => m.Justified p.names J ∧ e.id ∈ m.inProgress)
      (· = e.id)) p (fun _ => q) A :=
    { Query.Keeping.compositional _ _ with
      binding := fun hx => (h.binding hx).whileOpen e.id
      type := fun hx => (h.type hx).whileOpen e.id
      schema := fun name => (h.schema name).whileOpen e.id }
  have hrule := hopen.newBinding he fun _ _ _ _ _ rule operation =>
    applied_justified hJ e rule operation
  intro m b m' hrun hm
  refine ⟨?_, (bindingRule_extends hq e m b m' hrun hm.steady).2⟩
  rcases bindingRule_cases hrun with ⟨-, rfl⟩ | ⟨-, -, rfl⟩ | ⟨hb, hp, m₁, hinferred, rfl⟩
  · exact hm
  · exact hm
  · obtain ⟨⟨hm₁, -⟩, hgrown⟩ := hrule (m.opening e.id) b m₁ hinferred
      ⟨hm.opening hJ hb, List.mem_cons_self ..⟩
    exact hm₁.closing hJ hgrown.inProgress hp (hnew m m₁ b hm hb hp hinferred)

/-- What is shown whenever an expression has been inferred justifies all that is remembered. -/
theorem ofDepth_justified (hA : ∀ e, A e → e.Covered p A)
    (hnew : ∀ e, A e → ∀ depth (m m' : Memo) b, m.Justified p.names J → e.id ∉ m.bindings →
      e.id ∉ m.inProgress → (ofDepth p depth).newBinding p e (m.opening e.id) = some (b, m') →
        J (m'.closing e.id b) e.id b) :
    ∀ depth, Admits (Query.Keeping (Memo.Justified p.names J) fun _ => False) p
      (fun _ : Unit => ofDepth p depth) A
  | 0 =>
    { Query.Keeping.compositional _ _ with
      binding := fun _ _ _ _ h => nomatch h
      type := fun _ _ _ _ h => nomatch h
      schema := markerSchema_justified hJ _ }
  | depth + 1 =>
    have ih := ofDepth_justified hA hnew depth
    { Query.Keeping.compositional _ _ with
      binding := fun {e} he =>
        bindingRule_justified hJ (ofDepth_extending p depth) ih (hA e he) (hnew e he depth)
      type := fun {e} he => ih.typeRule (hA e he) (ih.binding he)
      schema := markerSchema_justified hJ _ }

end Queries

end FrameCheck
