import FrameCheck.Checker.Basic
import Mathlib.Data.List.Sort

/-!
# Reports

A report has the diagnostics of a list in a fixed order, each once.

* `Diagnostic.mem_report` : what is reported.
* `Diagnostic.pairwise_report` : a report is in strictly ascending order.
* `Diagnostic.report_filter` : diagnostics are left out before the report or after it.
* `Diagnostic.report_map` : a change of diagnostics that keeps their order and tells apart
  those that differ, before the report or after it.
-/

namespace FrameCheck

theorem Code.rank_inj {c c' : Code} (h : c.rank = c'.rank) : c = c' := by
  cases c <;> cases c' <;> first | rfl | exact absurd h (by decide)

namespace Diagnostic

theorem mem_withoutRepeats {d : Diagnostic} : ∀ ds : List Diagnostic,
    d ∈ withoutRepeats ds ↔ d ∈ ds
  | [] => Iff.rfl
  | [_] => Iff.rfl
  | a :: b :: rest => by
    unfold withoutRepeats
    split
    · rename_i hab
      subst hab
      rw [mem_withoutRepeats (a :: rest)]
      simp
    · rw [List.mem_cons, mem_withoutRepeats (b :: rest), ← List.mem_cons]

theorem mem_report {d : Diagnostic} {ds : List Diagnostic} : d ∈ report ds ↔ d ∈ ds := by
  rw [report, mem_withoutRepeats, List.mem_mergeSort]

theorem withoutRepeats_map {f : Diagnostic → Diagnostic} : ∀ {ds : List Diagnostic},
    (∀ a ∈ ds, ∀ b ∈ ds, f a = f b → a = b) →
      withoutRepeats (ds.map f) = (withoutRepeats ds).map f
  | [], _ => rfl
  | [_], _ => rfl
  | a :: b :: rest, h => by
    have hrest : withoutRepeats ((b :: rest).map f) = (withoutRepeats (b :: rest)).map f :=
      withoutRepeats_map fun x hx y hy => h x (List.mem_cons_of_mem a hx) y (List.mem_cons_of_mem a hy)
    simp only [List.map_cons, withoutRepeats] at hrest ⊢
    by_cases hab : a = b
    · rw [if_pos (congrArg f hab), if_pos hab, hrest]
    · have hf : f a ≠ f b := fun hf => hab (h a (by simp) b (by simp) hf)
      rw [if_neg hf, if_neg hab, hrest, List.map_cons]

/-- A change that keeps the order of diagnostics, and tells apart those that differ, may be
made before the report or after it. -/
theorem report_map {f : Diagnostic → Diagnostic} {ds : List Diagnostic}
    (ho : ∀ a ∈ ds, ∀ b ∈ ds, order (f a) (f b) = order a b)
    (hi : ∀ a ∈ ds, ∀ b ∈ ds, f a = f b → a = b) :
    report (ds.map f) = (report ds).map f := by
  have hsort : (ds.map f).mergeSort (fun a b => (order a b).isLE)
      = (ds.mergeSort fun a b => (order a b).isLE).map f :=
    (List.map_mergeSort fun a ha b hb => by rw [ho a ha b hb]).symm
  unfold report
  rw [hsort, withoutRepeats_map fun a ha b hb =>
    hi a (List.mem_mergeSort.1 ha) b (List.mem_mergeSort.1 hb)]

/-! ## The order of reports -/

instance : Std.TransCmp order :=
  inferInstanceAs (Std.TransCmp (compareLex (compareOn fun d : Diagnostic => d.span.start)
    (compareLex (compareOn fun d : Diagnostic => d.span.stop)
      (compareLex (compareOn fun d : Diagnostic => d.code.rank)
        (compareOn fun d : Diagnostic => d.message)))))

/-- Diagnostics of the same span, code and message are the same. -/
def Distinguished (ds : List Diagnostic) : Prop :=
  ∀ a ∈ ds, ∀ b ∈ ds, order a b = .eq → a = b

/-- The diagnostics of one text are told apart by span, code and message. -/
theorem distinguished_of_ofSpan {cs : List Char} {ds : List Diagnostic}
    (h : ∀ d ∈ ds, d = ofSpan cs d.code d.span d.message) : Distinguished ds := by
  intro a ha b hb heq
  unfold order at heq
  simp only [Ordering.then_eq_eq] at heq
  obtain ⟨hstart, hstop, hcode, hmessage⟩ := heq
  have hspan : Span.mk a.span.start a.span.stop = Span.mk b.span.start b.span.stop := by
    rw [Std.LawfulEqOrd.eq_of_compare hstart, Std.LawfulEqOrd.eq_of_compare hstop]
  rw [h a ha, h b hb, show a.span = b.span from hspan, Code.rank_inj (Std.LawfulEqOrd.eq_of_compare hcode),
    Std.LawfulEqOrd.eq_of_compare hmessage]

/-- In a sorted list the same diagnostics stand side by side. -/
theorem pairwise_withoutRepeats : ∀ {ds : List Diagnostic}, Distinguished ds →
    ds.Pairwise (fun a b => (order a b).isLE) →
      (withoutRepeats ds).Pairwise (fun a b => order a b = .lt)
  | [], _, _ => .nil
  | [_], _, _ => List.pairwise_singleton _ _
  | a :: b :: rest, hd, h => by
    have hmore : (withoutRepeats (b :: rest)).Pairwise (fun a b => order a b = .lt) :=
      pairwise_withoutRepeats
        (fun x hx y hy => hd x (List.mem_cons_of_mem a hx) y (List.mem_cons_of_mem a hy))
        (List.pairwise_cons.1 h).2
    rw [withoutRepeats]
    split
    · exact hmore
    next hab =>
    refine List.pairwise_cons.2 ⟨fun x hx => ?_, hmore⟩
    have hx : x ∈ b :: rest := (mem_withoutRepeats _).1 hx
    obtain ⟨ha, hb⟩ := List.pairwise_cons.1 h
    refine (Ordering.isLE_iff_eq_lt_or_eq_eq.1 (ha x hx)).resolve_right fun heq => hab ?_
    -- what equals `a` behind `b` is not less than `b`
    obtain rfl := hd a (by simp) x (List.mem_cons_of_mem a hx) heq
    have hba : (order b a).isLE := by
      rcases List.mem_cons.1 hx with rfl | hx
      · exact Std.ReflCmp.isLE_rfl
      · exact (List.pairwise_cons.1 hb).1 a hx
    exact hd a (by simp) b (by simp) (Std.OrientedCmp.isLE_antisymm (ha b (by simp)) hba)

theorem pairwise_report {ds : List Diagnostic} (h : Distinguished ds) :
    (report ds).Pairwise (fun a b => order a b = .lt) := by
  refine pairwise_withoutRepeats (fun a ha b hb => ?_) (List.pairwise_mergeSort ?_ ?_ ds)
  · exact h a (List.mem_mergeSort.1 ha) b (List.mem_mergeSort.1 hb)
  · exact fun a b c => Std.TransCmp.isLE_trans
  · intro a b
    have hswap : order b a = (order a b).swap := Std.OrientedCmp.eq_swap
    rw [Bool.or_eq_true, hswap]
    cases order a b <;> decide

/-- Lists in strictly ascending order with the same members are the same. -/
theorem eq_of_pairwise_order {ds ds' : List Diagnostic}
    (h : ds.Pairwise (fun a b => order a b = .lt)) (h' : ds'.Pairwise (fun a b => order a b = .lt))
    (hmem : ∀ d, d ∈ ds ↔ d ∈ ds') : ds = ds' := by
  have hne {a b : Diagnostic} (h : order a b = .lt) : a ≠ b := by
    rintro rfl
    exact nomatch h.symm.trans Std.ReflCmp.compare_self
  refine ((List.perm_ext_iff_of_nodup (h.imp hne) (h'.imp hne)).2 hmem).eq_of_pairwise ?_ h h'
  intro a b _ _ hab hba
  exact nomatch hab.symm.trans (Std.OrientedCmp.gt_iff_lt.2 hba)

/-- Diagnostics are left out before the report or after it. -/
theorem report_filter {ds : List Diagnostic} (h : Distinguished ds) (p : Diagnostic → Bool) :
    report (ds.filter p) = (report ds).filter p := by
  refine eq_of_pairwise_order (pairwise_report fun a ha b hb => ?_) ((pairwise_report h).filter p)
    fun d => ?_
  · exact h a (List.mem_filter.1 ha).1 b (List.mem_filter.1 hb).1
  · rw [mem_report, List.mem_filter, List.mem_filter, mem_report]

end Diagnostic

end FrameCheck
