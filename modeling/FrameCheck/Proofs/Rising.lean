import Mathlib.Data.Nat.Basic

/-!
# Rising numbers

Numbers that are given out in one sequence rise, as do the offsets at which the tokens of a text
start. `Rising lo hi is` says that the numbers `is` rise, from `lo` on and below `hi`.
-/

namespace FrameCheck

/-- The numbers rise, from `lo` on and below `hi`. -/
def Rising (lo hi : Nat) : List Nat → Prop
  | [] => lo ≤ hi
  | i :: is => lo ≤ i ∧ Rising (i + 1) hi is

theorem Rising.le {hi : Nat} : ∀ {is : List Nat} {lo : Nat}, Rising lo hi is → lo ≤ hi
  | [], _, h => h
  | _ :: _, _, h => by
    have := h.2.le
    have := h.1
    omega

theorem Rising.mono {hi hi' : Nat} (hh : hi ≤ hi') :
    ∀ {is : List Nat} {lo : Nat}, Rising lo hi is → Rising lo hi' is
  | [], _, h => Nat.le_trans h hh
  | _ :: _, _, h => ⟨h.1, h.2.mono hh⟩

theorem Rising.append {mid hi : Nat} {js : List Nat} (hj : Rising mid hi js) :
    ∀ {is : List Nat} {lo : Nat}, Rising lo mid is → Rising lo hi (is ++ js)
  | [], lo, h => by
    cases js with
    | nil => exact Nat.le_trans h hj
    | cons j js => exact ⟨Nat.le_trans h hj.1, hj.2⟩
  | _ :: _, _, h => ⟨h.1, hj.append h.2⟩

theorem Rising.bounds {hi : Nat} : ∀ {is : List Nat} {lo : Nat}, Rising lo hi is →
    ∀ i ∈ is, lo ≤ i ∧ i < hi
  | j :: is, lo, h, i, hi => by
    have hj := h.1
    rcases List.mem_cons.1 hi with rfl | hi
    · have := h.2.le
      omega
    · have := h.2.bounds i hi
      omega

theorem Rising.pairwise {hi : Nat} : ∀ {is : List Nat} {lo : Nat}, Rising lo hi is →
    is.Pairwise (· < ·)
  | [], _, _ => List.Pairwise.nil
  | _ :: _, _, h => List.pairwise_cons.2 ⟨fun i hi => (h.2.bounds i hi).1, h.2.pairwise⟩

theorem Rising.weaken {hi lo' : Nat} : ∀ {is : List Nat} {lo : Nat}, Rising lo hi is →
    lo' ≤ lo → Rising lo' hi is
  | [], _, h, hl => Nat.le_trans hl h
  | _ :: _, _, h, hl => ⟨Nat.le_trans hl h.1, h.2⟩

theorem Rising.sublist {hi : Nat} {is js : List Nat} (hs : js.Sublist is) :
    ∀ {lo : Nat}, Rising lo hi is → Rising lo hi js := by
  induction hs with
  | slnil => exact id
  | cons i _ ih =>
    intro lo h
    exact ih (h.2.weaken (Nat.le_succ_of_le h.1))
  | cons_cons i _ ih => exact fun h => ⟨h.1, ih h.2⟩

end FrameCheck
