import FrameCheck.Proofs.Inference.Dependence
import FrameCheck.Proofs.Inference.Remembered
import Mathlib.Data.List.Forall2

/-!
# Which calls fail

A call fails if its operation does, applied to what is known of the receiver and the arguments
when the call is inferred. An expression is inferred at most once, so a call has one such moment,
and the failure that a memo holds for it is the one of that moment.

* `Queries.newBinding_callFailures` : inference records why the operation fails, and nothing else.
* `Program.Inferred` : an expression was inferred on the way to a memo.
* `Memo.Judged.callFailures_iff` : a memo holds the failures of what was inferred.
-/

namespace FrameCheck

namespace Queries

variable (p : Program) (q : Queries)

/-- Why a call fails that is inferred from this memo, if its operation fails there. A call of a
function of the unit with a declared type applies no operation. -/
def failure? (e : Expr) (m : Memo) : Option Failure :=
  match p.names.typeOf? e, e.kind with
  | none, .call _ _ args =>
    match q.callOperation p e args m with
    | some (some (rule, operation), _) => rule.failure? e.span operation
    | _ => none
  | _, _ => none

variable {p q} {e : Expr} {m m' : Memo} {b : Binding}

/-- While an expression is in progress, only its own operation can give it a failure. -/
theorem newBinding_callFailures (hq : q.Extending p) (hm : m.Steady p.names)
    (hid : e.id ∈ m.inProgress) (h : q.newBinding p e m = some (b, m')) :
    m'.callFailures[e.id]? = (m.callFailures[e.id]?).or (q.failure? p e m) := by
  by_cases hcall : p.names.typeOf? e = none ∧
      ∃ callee typeArgs args, e.kind = .call callee typeArgs args
  · obtain ⟨htype, callee, typeArgs, args, hk⟩ := hcall
    simp only [newBinding, htype, hk] at h
    obtain ⟨o, m₁, hrun, h⟩ := Query.bind_eq_some.1 h
    have hextends := ((hq fun _ => False).callOperation (e.covered_true p) hk m o m₁ hrun hm).2
    rw [← hextends.unfailed not_false (Or.inl hid)]
    rcases o with _ | ⟨rule, operation⟩
    · cases h
      simp only [failure?, htype, hk, hrun, Option.or_none]
    · obtain ⟨b', happlied⟩ := applied_run e rule operation
      cases (happlied m₁).symm.trans h
      rw [Memo.recording_callFailures, if_pos rfl]
      simp only [failure?, htype, hk, hrun]
  · have hnone : q.failure? p e m = none := by
      unfold failure?
      split
      · rename_i htype hk
        exact absurd ⟨htype, _, _, _, hk⟩ hcall
      · rfl
    have hkeeps := (hq fun _ => False).newBinding (e.covered_true p)
      fun htype _ _ _ hk => absurd ⟨htype, _, _, _, hk⟩ hcall
    rw [hnone, Option.or_none]
    exact (hkeeps m b m' h hm).2.unfailed not_false (Or.inl hid)

end Queries

/-! ## Moments of inference -/

/-- Nothing is known of an expression. -/
structure Memo.Unaware (m : Memo) (id : ExprId) : Prop where
  unbound : id ∉ m.bindings
  idle : id ∉ m.inProgress
  unfailed : id ∉ m.callFailures

/-- On the way to the memo `m` there was a moment when nothing was known of the expression, and
it was inferred, with the binding `b`; `failure` says why its operation failed, if it did. -/
def Program.Inferred (p : Program) (m : Memo) (e : Expr) (b : Binding)
    (failure : Option Failure) : Prop :=
  ∃ (depth : Nat) (m₁ m₂ : Memo), m₁.Steady p.names ∧ m₁.Unaware e.id ∧
    (Queries.ofDepth p depth).newBinding p e (m₁.opening e.id) = some (b, m₂) ∧
    (m₂.closing e.id b).Grows m ∧
    (Queries.ofDepth p depth).failure? p e (m₁.opening e.id) = failure

namespace Program.Inferred

variable {p : Program} {m m' : Memo} {e : Expr} {b : Binding} {failure : Option Failure}

theorem grows (h : p.Inferred m e b failure) (hg : m.Grows m') : p.Inferred m' e b failure := by
  obtain ⟨depth, m₁, m₂, hm₁, hnew, hrun, hgrows, hf⟩ := h
  exact ⟨depth, m₁, m₂, hm₁, hnew, hrun, hgrows.trans hg, hf⟩

theorem bindings (h : p.Inferred m e b failure) : m.bindings[e.id]? = some b := by
  obtain ⟨depth, m₁, m₂, -, -, -, hgrows, -⟩ := h
  exact hgrows.bindings Std.TreeMap.getElem?_insert_self

/-- The operation that failed then is the reason that is recorded. -/
theorem callFailures {f : Failure} (h : p.Inferred m e b (some f)) :
    m.callFailures[e.id]? = some f := by
  obtain ⟨depth, m₁, m₂, hm₁, hnew, hrun, hgrows, hf⟩ := h
  have hfailures := Queries.newBinding_callFailures (Queries.ofDepth_extending p depth)
    (hm₁.opening e.id) (List.mem_cons_self ..) hrun
  refine hgrows.callFailures ?_
  rw [Memo.closing_callFailures, hfailures, hf, Memo.opening_callFailures,
    Std.TreeMap.getElem?_eq_none hnew.unfailed, Option.none_or]

end Program.Inferred

/-- What is remembered was inferred, and its failure is of that moment. -/
def JudgedFor (p : Program) (u : SourceUnit) (m : Memo) (id : ExprId) (b : Binding) : Prop :=
  ∃ e ∈ u.exprs, e.id = id ∧ p.Inferred m e b m.callFailures[id]?

theorem JudgedFor.lasting (p : Program) (u : SourceUnit) : Lasting (JudgedFor p u) := by
  rintro m m' id b hg hf ⟨e, he, hid, h⟩
  rw [JudgedFor, hf]
  exact ⟨e, he, hid, h.grows hg⟩

/-- All that is remembered was inferred once, with the failure of that moment. -/
abbrev Memo.Judged (p : Program) (u : SourceUnit) (m : Memo) : Prop :=
  m.Justified p.names (JudgedFor p u)

/-- Questions for expressions of a unit keep what is remembered as it was inferred. -/
theorem Queries.ofDepth_judged {p : Program} {u : SourceUnit} (hu : (u.exprs.map Expr.id).Nodup)
    (hp : p.names = Resolution.ofUnit u) (depth : Nat) :
    Admits (Query.Keeping (Memo.Judged p u) fun _ => False) p (fun _ : Unit => ofDepth p depth)
      fun e => e ∈ u.exprs := by
  refine ofDepth_justified (JudgedFor.lasting p u) (fun e he => ?_) (fun e he => ?_) depth
  · exact (SourceUnit.covered hu hp he).mono fun x hx => hx.1
  · intro depth m m' b hm hb hidle hrun
    have hunfailed := hm.not_mem_callFailures hb hidle
    have hfailures := newBinding_callFailures (ofDepth_extending p depth)
      (hm.steady.opening e.id) (List.mem_cons_self ..) hrun
    rw [Memo.opening_callFailures, Std.TreeMap.getElem?_eq_none hunfailed, Option.none_or]
      at hfailures
    refine ⟨e, he, rfl, depth, m, m', hm.steady, ⟨hb, hidle, hunfailed⟩, hrun, ?_, hfailures.symm⟩
    exact ⟨fun h => h, fun h => h, fun h => h, List.prefix_refl _⟩

namespace Memo.Judged

variable {p : Program} {u : SourceUnit} {m : Memo}

theorem inferred (h : m.Judged p u) (hu : (u.exprs.map Expr.id).Nodup) {e : Expr}
    (he : e ∈ u.exprs) {b : Binding} (hb : m.bindings[e.id]? = some b) :
    p.Inferred m e b m.callFailures[e.id]? := by
  obtain ⟨x, hx, hid, hinferred⟩ := h.cached hb
  obtain rfl := SourceUnit.eq_of_id_eq hu hx he hid
  exact hinferred

/-- Between questions the recorded failures are those of the moments of inference. -/
theorem callFailures_iff (h : m.Judged p u) (ho : m.inProgress = []) {id : ExprId}
    {f : Failure} : m.callFailures[id]? = some f ↔
      ∃ e ∈ u.exprs, e.id = id ∧ ∃ b, p.Inferred m e b (some f) := by
  constructor
  · intro hf
    have hmem := Std.TreeMap.mem_iff_isSome_getElem?.2 (Option.isSome_of_eq_some hf)
    have hbound := (h.failed hmem).resolve_right (by simp [ho])
    obtain ⟨e, he, hid, hinferred⟩ := h.cached (Std.TreeMap.getElem?_eq_some_getElem hbound)
    exact ⟨e, he, hid, _, hf ▸ hinferred⟩
  · rintro ⟨e, he, rfl, b, hinferred⟩
    exact hinferred.callFailures

end Memo.Judged

/-! ## The recorded failures -/

/-- There is one result for each expression of the unit that is related to some, and there are no
others. -/
def SourceUnit.OneEach {β : Type} (u : SourceUnit) (R : Expr → β → Prop) (results : List β) :
    Prop :=
  ∃ nodes : List Expr, nodes.Nodup ∧ (∀ e, e ∈ nodes ↔ e ∈ u.exprs ∧ ∃ r, R e r) ∧
    List.Forall₂ R nodes results

/-- The operation of the expression failed with `f` when it was inferred. -/
def Program.Fails (p : Program) (m : Memo) (e : Expr) (f : Failure) : Prop :=
  ∃ b, p.Inferred m e b (some f)

theorem Memo.callFailures_values (m : Memo) :
    m.callFailures.values = m.callFailures.toList.map Prod.snd := by
  have hvalues := Std.DTreeMap.Internal.Impl.values_eq_map_snd (t := m.callFailures.inner.inner)
  have hlist := Std.DTreeMap.Internal.Impl.Const.toList_eq_toListModel_map
    (t := m.callFailures.inner.inner)
  show m.callFailures.inner.inner.values = List.map Prod.snd
    (Std.DTreeMap.Internal.Impl.Const.toList m.callFailures.inner.inner)
  rw [hvalues, hlist, List.map_map]
  rfl

/-- Each expression whose operation failed has exactly one of the recorded failures. -/
theorem Memo.Judged.oneEach_fails {p : Program} {u : SourceUnit} {m : Memo} (h : m.Judged p u)
    (hu : (u.exprs.map Expr.id).Nodup) (ho : m.inProgress = []) :
    u.OneEach (p.Fails m) m.callFailures.values := by
  have hrecorded : ∀ r ∈ m.callFailures.toList, ∃ e ∈ u.exprs, e.id = r.1 ∧ p.Fails m e r.2 :=
    fun r hr => (h.callFailures_iff ho).1 (Std.TreeMap.mem_toList_iff_getElem?_eq_some.1 hr)
  -- Some expression is needed for `choose!`, where no record is given.
  have : Nonempty Expr := ⟨⟨0, ⟨0, 0⟩, .this⟩⟩
  choose! call hmem hid hfails using hrecorded
  have hids : (m.callFailures.toList.map call).map Expr.id = m.callFailures.keys := by
    rw [List.map_map, ← Std.TreeMap.map_fst_toList_eq_keys]
    exact List.map_congr_left hid
  refine ⟨m.callFailures.toList.map call, ?_, fun e => ⟨?_, ?_⟩, ?_⟩
  · exact List.Nodup.of_map Expr.id (hids ▸ Std.TreeMap.nodup_keys)
  · intro he
    obtain ⟨r, hr, rfl⟩ := List.mem_map.1 he
    exact ⟨hmem r hr, r.2, hfails r hr⟩
  · rintro ⟨he, f, hf⟩
    have hrecord := (h.callFailures_iff ho).2 ⟨e, he, rfl, hf⟩
    have hr := Std.TreeMap.mem_toList_iff_getElem?_eq_some.2 hrecord
    have heq := SourceUnit.eq_of_id_eq hu (hmem _ hr) he (hid _ hr)
    exact heq ▸ List.mem_map_of_mem hr
  · rw [callFailures_values, List.forall₂_map_left_iff, List.forall₂_map_right_iff,
      List.forall₂_same]
    exact hfails

end FrameCheck
