import FrameCheck.Inference.Basic
import Mathlib.Data.List.Basic

/-!
# The type of several values

Values of several types are taken together one after another, and the type of those so far is
widened where the next one differs. What comes out does not depend on the order : it is the type
that all of them have up to nullability, or else the widest, from `Int` on, where all are numeric
(`TypeRef.Spans`).

* `TypeRef.gathered_eq_some_iff` : the types of elements, taken together.
-/

namespace FrameCheck

namespace TypeRef

variable {s t w w' : TypeRef} {ts : List TypeRef}

/-! ## Ranks -/

theorem lt_length_of_numericRank? {i : Nat} (h : t.numericRank? = some i) :
    i < numericNames.length := by
  obtain ⟨hi, -⟩ := List.findIdx?_eq_some_iff_getElem.1 h
  exact hi

/-- The numeric types have the ranks of their names. -/
theorem numericRank?_simple {i : Nat} {n : String} (h : numericNames[i]? = some n) :
    (simple n).numericRank? = some i := by
  have hall : ∀ i : Fin 6, (simple numericNames[i]).numericRank? = some i.val := by decide +kernel
  obtain ⟨hi, rfl⟩ := List.getElem?_eq_some_iff.1 h
  exact hall ⟨i, hi⟩

@[simp] theorem numericRank?_nonNull (t : TypeRef) : t.nonNull.numericRank? = t.numericRank? := rfl

@[simp] theorem nonNull_nonNull (t : TypeRef) : t.nonNull.nonNull = t.nonNull := rfl

@[simp] theorem nonNull_withNullable (t : TypeRef) (nullable : Bool) :
    (t.withNullable nullable).nonNull = t.nonNull := rfl

@[simp] theorem nonNull_simple (n : String) : (simple n).nonNull = simple n := rfl

/-- A type is told by what it is without null and by whether it is nullable. -/
theorem eq_of_nonNull (h : s.nonNull = t.nonNull) (hnull : s.nullable = t.nullable) : s = t := by
  obtain ⟨name, args, nullable⟩ := s
  obtain ⟨name', args', nullable'⟩ := t
  cases h
  cases hnull
  rfl

theorem widenNumeric_eq_some_iff : s.widenNumeric t = some w ↔ ∃ i j n,
    s.numericRank? = some i ∧ t.numericRank? = some j ∧
      numericNames[max (max i j) 2]? = some n ∧ w = simple n := by
  simp only [widenNumeric, Option.bind_eq_bind, Option.bind_eq_some_iff, Option.map_eq_some_iff]
  constructor
  · rintro ⟨i, hi, j, hj, n, hn, rfl⟩
    exact ⟨i, j, n, hi, hj, hn, rfl⟩
  · rintro ⟨i, j, n, hi, hj, hn, rfl⟩
    exact ⟨i, hi, j, hj, n, hn, rfl⟩

/-! ## One type for several -/

/-- All of the types are numeric, and `w` is the widest of them, or `Int` if that is wider. -/
def Widest (ts : List TypeRef) (w : TypeRef) : Prop :=
  ∃ k n, numericNames[k]? = some n ∧ w = simple n ∧ 2 ≤ k ∧
    (∀ t ∈ ts, ∃ i ≤ k, t.numericRank? = some i) ∧ (k = 2 ∨ ∃ t ∈ ts, t.numericRank? = some k)

/-- The types differ at most in nullability. -/
def Alike (ts : List TypeRef) : Prop := ∀ s ∈ ts, ∀ t ∈ ts, s.nonNull = t.nonNull

/-- Values of all these types have the type `w`, but for nullability : they have it each by itself,
or it is the widest of different numeric types. -/
def Spans (ts : List TypeRef) (w : TypeRef) : Prop :=
  (ts ≠ [] ∧ ∀ t ∈ ts, t.nonNull = w) ∨ (¬Alike ts ∧ Widest ts w)

theorem alike_of_forall (h : ∀ t ∈ ts, t.nonNull = w) : Alike ts :=
  fun s hs t ht => (h s hs).trans (h t ht).symm

theorem Widest.unique (h : Widest ts w) (h' : Widest ts w') : w = w' := by
  obtain ⟨k, n, hn, rfl, htwo, hle, hmem⟩ := h
  obtain ⟨k', n', hn', rfl, htwo', hle', hmem'⟩ := h'
  have hkk' : k ≤ k' := by
    rcases hmem with rfl | ⟨t, ht, hk⟩
    · exact htwo'
    · obtain ⟨i, hi, hrank⟩ := hle' t ht
      cases hk.symm.trans hrank
      exact hi
  have hk'k : k' ≤ k := by
    rcases hmem' with rfl | ⟨t, ht, hk'⟩
    · exact htwo
    · obtain ⟨i, hi, hrank⟩ := hle t ht
      cases hk'.symm.trans hrank
      exact hi
  obtain rfl := Nat.le_antisymm hkk' hk'k
  cases hn.symm.trans hn'
  rfl

theorem Spans.unique (h : Spans ts w) (h' : Spans ts w') : w = w' := by
  rcases h with ⟨hne, hall⟩ | ⟨halike, hwidest⟩
  · rcases h' with ⟨-, hall'⟩ | ⟨halike, -⟩
    · obtain ⟨t, ht⟩ := List.exists_mem_of_ne_nil ts hne
      exact (hall t ht).symm.trans (hall' t ht)
    · exact absurd (alike_of_forall hall) halike
  · rcases h' with ⟨-, hall'⟩ | ⟨-, hwidest'⟩
    · exact absurd (alike_of_forall hall') halike
    · exact hwidest.unique hwidest'

/-- The order of the types does not matter. -/
theorem Spans.perm {ts' : List TypeRef} (hp : ts'.Perm ts) (h : Spans ts w) : Spans ts' w := by
  have hnil : ts' = [] ↔ ts = [] := by
    rw [← List.length_eq_zero_iff, hp.length_eq, List.length_eq_zero_iff]
  simp only [Spans, Alike, Widest, hp.mem_iff, hnil, Ne] at h ⊢
  exact h

/-- The type that is spanned is not nullable. -/
theorem Spans.nonNull (h : Spans ts w) : w.nonNull = w := by
  rcases h with ⟨hne, hall⟩ | ⟨-, k, n, -, rfl, -⟩
  · obtain ⟨t, ht⟩ := List.exists_mem_of_ne_nil ts hne
    rw [← hall t ht, nonNull_nonNull]
  · rfl

theorem exists_widest (h : ∀ t ∈ ts, ∃ i, t.numericRank? = some i) : ∃ w, Widest ts w := by
  induction ts with
  | nil => exact ⟨simple "Int", 2, "Int", rfl, rfl, Nat.le_refl 2, by simp, Or.inl rfl⟩
  | cons t ts ih =>
    obtain ⟨_, k, n, hn, -, htwo, hle, hmem⟩ := ih fun s hs => h s (List.mem_cons_of_mem _ hs)
    obtain ⟨j, hj⟩ := h t List.mem_cons_self
    have hlength : max k j < numericNames.length := by
      have := (List.getElem?_eq_some_iff.1 hn).1
      have := lt_length_of_numericRank? hj
      omega
    refine ⟨_, max k j, numericNames[max k j], List.getElem?_eq_getElem hlength, rfl, by omega,
      ?_, ?_⟩
    · rintro s hs
      rcases List.mem_cons.1 hs with rfl | hs
      · exact ⟨j, Nat.le_max_right k j, hj⟩
      · obtain ⟨i, hi, hrank⟩ := hle s hs
        exact ⟨i, by omega, hrank⟩
    · rcases Nat.le_total j k with hjk | hkj
      · rw [Nat.max_eq_left hjk]
        exact hmem.imp_right fun ⟨s, hs, hrank⟩ => ⟨s, List.mem_cons_of_mem _ hs, hrank⟩
      · rw [Nat.max_eq_right hkj]
        exact Or.inr ⟨t, List.mem_cons_self, hj⟩

/-- Values of the type that there is already leave it as it is. -/
theorem Spans.append {rest : List TypeRef} (h : Spans ts w) (hrest : ∀ t ∈ rest, t.nonNull = w) :
    Spans (ts ++ rest) w := by
  rcases h with ⟨hne, hall⟩ | ⟨halike, k, n, hn, rfl, htwo, hle, hmem⟩
  · refine Or.inl ⟨by simp [hne], fun t ht => ?_⟩
    rcases List.mem_append.1 ht with ht | ht
    · exact hall t ht
    · exact hrest t ht
  · refine Or.inr ⟨fun h => halike fun s hs t ht => h s (List.mem_append_left _ hs) t
      (List.mem_append_left _ ht), k, n, hn, rfl, htwo, fun t ht => ?_,
      hmem.imp_right fun ⟨t, ht, hk⟩ => ⟨t, List.mem_append_left _ ht, hk⟩⟩
    rcases List.mem_append.1 ht with ht | ht
    · exact hle t ht
    · exact ⟨k, Nat.le_refl k, by rw [← numericRank?_nonNull, hrest t ht, numericRank?_simple hn]⟩

/-- If there is one type for all, there is one for the first of them. -/
theorem Spans.exists_of_append {as bs : List TypeRef} (h : Spans (as ++ bs) w) (hne : as ≠ []) :
    ∃ w', Spans as w' := by
  by_cases halike : Alike as
  · obtain ⟨a, ha⟩ := List.exists_mem_of_ne_nil as hne
    exact ⟨a.nonNull, Or.inl ⟨hne, fun b hb => halike b hb a ha⟩⟩
  · rcases h with ⟨-, hall⟩ | ⟨-, k, n, -, -, -, hle, -⟩
    · exact absurd (alike_of_forall fun a ha => hall a (List.mem_append_left _ ha)) halike
    · have hnumeric : ∀ a ∈ as, ∃ i, a.numericRank? = some i := fun a ha => by
        obtain ⟨i, -, hi⟩ := hle a (List.mem_append_left _ ha)
        exact ⟨i, hi⟩
      obtain ⟨w', hw'⟩ := exists_widest hnumeric
      exact ⟨w', Or.inr ⟨halike, hw'⟩⟩

/-! ## One type after another -/

/-- As for widening, `w` stands for all of the types : it is as wide as they are. -/
structure Measures (w : TypeRef) (ts : List TypeRef) : Prop where
  numeric : ∀ {k}, w.numericRank? = some k →
    (∀ t ∈ ts, ∃ i ≤ k, t.numericRank? = some i) ∧ (k = 2 ∨ ∃ t ∈ ts, t.numericRank? = some k)
  other : w.numericRank? = none → ∃ t ∈ ts, t.numericRank? = none

theorem Spans.measures (h : Spans ts w) : w.Measures ts := by
  rcases h with ⟨hne, hall⟩ | ⟨-, k, n, hn, rfl, -, hle, hmem⟩
  · have hrank : ∀ t ∈ ts, t.numericRank? = w.numericRank? := fun t ht => by
      rw [← hall t ht, numericRank?_nonNull]
    obtain ⟨t, ht⟩ := List.exists_mem_of_ne_nil ts hne
    exact ⟨fun {k} hk => ⟨fun s hs => ⟨k, Nat.le_refl k, (hrank s hs).trans hk⟩,
      Or.inr ⟨t, ht, (hrank t ht).trans hk⟩⟩, fun hnone => ⟨t, ht, (hrank t ht).trans hnone⟩⟩
  · have hk := numericRank?_simple hn
    refine ⟨fun {i} hi => ?_, fun hnone => nomatch hk.symm.trans hnone⟩
    cases hk.symm.trans hi
    exact ⟨hle, hmem⟩

/-- Widening by one more type gives the widest of all. -/
theorem Measures.widest (h : w.Measures ts) (hw : w.widenNumeric t = some w') :
    Widest (ts ++ [t]) w' := by
  obtain ⟨i, j, n, hi, hj, hn, rfl⟩ := widenNumeric_eq_some_iff.1 hw
  obtain ⟨hle, hmem⟩ := h.numeric hi
  refine ⟨_, n, hn, rfl, Nat.le_max_right _ _, fun s hs => ?_, ?_⟩
  · rcases List.mem_append.1 hs with hs | hs
    · obtain ⟨l, hl, hrank⟩ := hle s hs
      exact ⟨l, by omega, hrank⟩
    · cases List.mem_singleton.1 hs
      exact ⟨j, by omega, hj⟩
  · have hmax : max (max i j) 2 = 2 ∨ j = max (max i j) 2 ∨ (i = max (max i j) 2 ∧ i ≠ 2) := by
      omega
    rcases hmax with hk | hk | ⟨hk, hne⟩
    · exact Or.inl hk
    · exact Or.inr ⟨t, by simp, hj.trans (congrArg some hk)⟩
    · obtain ⟨s, hs, hrank⟩ := hmem.resolve_left hne
      exact Or.inr ⟨s, List.mem_append_left _ hs, hrank.trans (congrArg some hk)⟩

/-- The widest of all is what widening by one more type gives. -/
theorem Measures.widenNumeric (h : w.Measures ts) (hw : Widest (ts ++ [t]) w') :
    w.widenNumeric t = some w' := by
  obtain ⟨k, n, hn, rfl, htwo, hle, hmem⟩ := hw
  obtain ⟨j, hjk, hj⟩ := hle t (by simp)
  obtain ⟨i, hi⟩ : ∃ i, w.numericRank? = some i := by
    cases hw : w.numericRank? with
    | some i => exact ⟨i, rfl⟩
    | none =>
      obtain ⟨s, hs, hnone⟩ := h.other hw
      obtain ⟨l, -, hrank⟩ := hle s (List.mem_append_left _ hs)
      cases hnone.symm.trans hrank
  obtain ⟨hbound, hreached⟩ := h.numeric hi
  have hik : i ≤ k := by
    rcases hreached with rfl | ⟨s, hs, hrank⟩
    · exact htwo
    · obtain ⟨l, hl, hrank'⟩ := hle s (List.mem_append_left _ hs)
      cases hrank.symm.trans hrank'
      exact hl
  have hk : k = 2 ∨ k ≤ i ∨ k = j := by
    rcases hmem with hk | ⟨s, hs, hrank⟩
    · exact Or.inl hk
    · rcases List.mem_append.1 hs with hs | hs
      · obtain ⟨l, hl, hrank'⟩ := hbound s hs
        cases hrank.symm.trans hrank'
        exact Or.inr (Or.inl hl)
      · cases List.mem_singleton.1 hs
        cases hrank.symm.trans hj
        exact Or.inr (Or.inr rfl)
  refine widenNumeric_eq_some_iff.2 ⟨i, j, n, hi, hj, ?_, rfl⟩
  rwa [show max (max i j) 2 = k by omega]

theorem Spans.element_iff (h : Spans ts w) :
    element (some w) t = some w' ↔ Spans (ts ++ [t]) w' := by
  rw [element]
  by_cases ht : w = t.nonNull
  · have hspans : Spans (ts ++ [t]) w := h.append (by simp [ht])
    rw [if_pos ht, Option.some_inj]
    exact ⟨fun heq => heq ▸ hspans, fun hspans' => hspans.unique hspans'⟩
  · have halike : ¬Alike (ts ++ [t]) := fun halike => by
      rcases h with ⟨hne, hall⟩ | ⟨hnot, -⟩
      · obtain ⟨s, hs⟩ := List.exists_mem_of_ne_nil ts hne
        exact ht ((hall s hs).symm.trans (halike s (List.mem_append_left _ hs) t (by simp)))
      · exact hnot fun s hs r hr =>
          halike s (List.mem_append_left _ hs) r (List.mem_append_left _ hr)
    rw [if_neg ht]
    refine ⟨fun hw => Or.inr ⟨halike, h.measures.widest hw⟩, fun hspans => ?_⟩
    rcases hspans with ⟨-, hall⟩ | ⟨-, hw⟩
    · exact absurd (alike_of_forall hall) halike
    · exact h.measures.widenNumeric hw

/-- The type of elements of all these types, of which those before have the type `seen`. -/
def gathered (seen : Option TypeRef) : List TypeRef → Option TypeRef
  | [] => seen
  | t :: rest =>
    match element seen t with
    | none => none
    | some joined => gathered (some joined) rest

theorem Spans.gathered_iff (h : Spans ts w) (rest : List TypeRef) :
    gathered (some w) rest = some w' ↔ Spans (ts ++ rest) w' := by
  induction rest generalizing ts w with
  | nil =>
    rw [gathered, List.append_nil, Option.some_inj]
    exact ⟨fun heq => heq ▸ h, h.unique⟩
  | cons t rest ih =>
    have happend : ts ++ t :: rest = (ts ++ [t]) ++ rest := by simp
    rw [gathered, happend]
    cases hstep : element (some w) t with
    | some joined => exact ih (h.element_iff.1 hstep)
    | none =>
      refine iff_of_false nofun fun hspans => ?_
      obtain ⟨w₁, hw₁⟩ := hspans.exists_of_append (by simp)
      cases hstep.symm.trans (h.element_iff.2 hw₁)

/-- Elements of these types have one type exactly if the types are spanned by it. -/
theorem gathered_eq_some_iff : gathered none ts = some w ↔ Spans ts w := by
  cases ts with
  | nil =>
    refine iff_of_false nofun ?_
    rintro (⟨hne, -⟩ | ⟨halike, -⟩)
    · exact hne rfl
    · exact halike nofun
  | cons t rest =>
    have hspans : Spans [t] t.nonNull := Or.inl ⟨by simp, by simp⟩
    exact hspans.gathered_iff rest

end TypeRef

end FrameCheck
