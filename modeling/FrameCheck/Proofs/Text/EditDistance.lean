import FrameCheck.Text.EditDistance
import Mathlib.Data.List.MinMax
import Mathlib.Order.Bounds.Defs

/-!
# Least numbers of edits

A text becomes another by inserting, deleting and replacing single characters, one after another and
anywhere (`Edits`). The distance of two texts is told from their ends on (`suffixDistance`, for texts
that are read backwards) : the last characters are paired, or one of them is on its own. An edit
anywhere changes it by at most one, so no way is shorter; and following the least of the three
choices is a way of that length. The rows of the computation hold the distances of all fronts of the
one text, with one more character of the other in each row (`nextEditRow_eq`).

* `isLeast_editDistance` : the distance is the least number of edits.
* `editDistance_metric` : so it is a metric on texts, and the suggestion is the first of the nearest.
-/

namespace FrameCheck

/-! ## Edits -/

/-- One character is inserted, deleted or replaced. -/
inductive Edit : List Char → List Char → Prop where
  | insert (front : List Char) (c : Char) (back : List Char) :
    Edit (front ++ back) (front ++ c :: back)
  | delete (front : List Char) (c : Char) (back : List Char) :
    Edit (front ++ c :: back) (front ++ back)
  | replace (front : List Char) (c d : Char) (back : List Char) :
    Edit (front ++ c :: back) (front ++ d :: back)

/-- A text becomes another by this number of edits. -/
inductive Edits : Nat → List Char → List Char → Prop where
  | refl (as : List Char) : Edits 0 as as
  | head {n : Nat} {as bs cs : List Char} : Edit as bs → Edits n bs cs → Edits (n + 1) as cs

namespace Edit

variable {as bs : List Char}

theorem symm (h : Edit as bs) : Edit bs as := by
  cases h with
  | insert front c back => exact .delete front c back
  | delete front c back => exact .insert front c back
  | replace front c d back => exact .replace front d c back

theorem cons (x : Char) (h : Edit as bs) : Edit (x :: as) (x :: bs) := by
  cases h with
  | insert front c back => exact .insert (x :: front) c back
  | delete front c back => exact .delete (x :: front) c back
  | replace front c d back => exact .replace (x :: front) c d back

theorem reverse (h : Edit as bs) : Edit as.reverse bs.reverse := by
  cases h with
  | insert front c back => simpa using Edit.insert back.reverse c front.reverse
  | delete front c back => simpa using Edit.delete back.reverse c front.reverse
  | replace front c d back => simpa using Edit.replace back.reverse c d front.reverse

end Edit

namespace Edits

variable {m n : Nat} {as bs cs : List Char}

theorem single (h : Edit as bs) : Edits 1 as bs := .head h (.refl bs)

theorem trans (h : Edits m as bs) (h' : Edits n bs cs) : Edits (m + n) as cs := by
  induction h with
  | refl => rwa [Nat.zero_add]
  | head hedit _ ih => exact Nat.succ_add _ _ ▸ .head hedit (ih h')

theorem symm (h : Edits n as bs) : Edits n bs as := by
  induction h with
  | refl => exact .refl _
  | head hedit _ ih => exact ih.trans (.single hedit.symm)

theorem cons (x : Char) (h : Edits n as bs) : Edits n (x :: as) (x :: bs) := by
  induction h with
  | refl => exact .refl _
  | head hedit _ ih => exact .head (hedit.cons x) ih

theorem reverse (h : Edits n as bs) : Edits n as.reverse bs.reverse := by
  induction h with
  | refl => exact .refl _
  | head hedit _ ih => exact .head hedit.reverse ih

theorem reverse_iff : Edits n as.reverse bs.reverse ↔ Edits n as bs :=
  ⟨fun h => by simpa using h.reverse, reverse⟩

theorem zero_iff : Edits 0 as bs ↔ as = bs := by
  constructor
  · rintro ⟨⟩
    rfl
  · rintro rfl
    exact .refl as

/-- A text can be built from nothing. -/
theorem build (bs : List Char) : Edits bs.length [] bs := by
  induction bs with
  | nil => exact .refl []
  | cons b bs ih => exact ih.trans (.single (.insert [] b bs))

end Edits

/-! ## Distances told from the ends -/

/-- The distance of two texts that are given from their ends. -/
def suffixDistance : List Char → List Char → Nat
  | [], bs => bs.length
  | a :: as, [] => (a :: as).length
  | a :: as, b :: bs =>
    min (min (suffixDistance as (b :: bs) + 1) (suffixDistance (a :: as) bs + 1))
      (suffixDistance as bs + if a = b then 0 else 1)

section

variable (as bs : List Char)

@[simp] theorem suffixDistance_nil_left : suffixDistance [] bs = bs.length := by
  rw [suffixDistance]

@[simp] theorem suffixDistance_nil_right : suffixDistance as [] = as.length := by
  cases as <;> rw [suffixDistance]

/-- Following the least of the choices is a way from text to text. -/
theorem edits_suffixDistance : Edits (suffixDistance as bs) as bs := by
  fun_induction suffixDistance as bs with
  | case1 bs => exact .build bs
  | case2 a as => exact (Edits.build (a :: as)).symm
  | case3 a as b bs hdelete hinsert hpair =>
    have hpair' : Edits (suffixDistance as bs + if a = b then 0 else 1) (a :: as) (b :: bs) := by
      split
      · next heq => exact heq ▸ hpair.cons a
      · exact (hpair.cons a).trans (.single (.replace [] a b bs))
    have hdelete' : Edits (suffixDistance as (b :: bs) + 1) (a :: as) (b :: bs) :=
      .head (.delete [] a as) hdelete
    have hinsert' : Edits (suffixDistance (a :: as) bs + 1) (a :: as) (b :: bs) :=
      hinsert.trans (.single (.insert [] b bs))
    exact min_rec' (Edits · (a :: as) (b :: bs)) (min_rec' (Edits · _ _) hdelete' hinsert') hpair'

theorem suffixDistance_self : suffixDistance as as = 0 := by
  induction as with
  | nil => exact suffixDistance_nil_left []
  | cons a as ih => simp [suffixDistance, ih]

end

section

variable {as as' bs : List Char}

theorem suffixDistance_cons_left_le (a : Char) (as bs : List Char) :
    suffixDistance (a :: as) bs ≤ suffixDistance as bs + 1 := by
  cases bs with
  | nil => rw [suffixDistance_nil_right, suffixDistance_nil_right, List.length_cons]
  | cons b bs =>
    rw [suffixDistance]
    omega

theorem suffixDistance_le_cons_left (a : Char) (as bs : List Char) :
    suffixDistance as bs ≤ suffixDistance (a :: as) bs + 1 := by
  induction bs with
  | nil =>
    rw [suffixDistance_nil_right, suffixDistance_nil_right, List.length_cons]
    omega
  | cons b bs ih =>
    have hinsert : suffixDistance as (b :: bs) ≤ suffixDistance as bs + 1 := by
      cases as with
      | nil => simp
      | cons a' as =>
        rw [suffixDistance]
        omega
    rw [suffixDistance]
    omega

theorem suffixDistance_replace_le (c d : Char) (as bs : List Char) :
    suffixDistance (d :: as) bs ≤ suffixDistance (c :: as) bs + 1 := by
  induction bs with
  | nil => simp
  | cons b bs ih =>
    rw [suffixDistance, suffixDistance]
    split <;> split <;> omega

/-- Texts that are near each other stay so behind one more character. -/
theorem suffixDistance_cons_le (h : ∀ bs, suffixDistance as' bs ≤ suffixDistance as bs + 1)
    (a : Char) (bs : List Char) :
    suffixDistance (a :: as') bs ≤ suffixDistance (a :: as) bs + 1 := by
  induction bs with
  | nil => simpa using h []
  | cons b bs ih =>
    have hdelete := h (b :: bs)
    have hpair := h bs
    rw [suffixDistance, suffixDistance]
    omega

theorem suffixDistance_append_le (h : ∀ bs, suffixDistance as' bs ≤ suffixDistance as bs + 1)
    (front bs : List Char) :
    suffixDistance (front ++ as') bs ≤ suffixDistance (front ++ as) bs + 1 := by
  induction front generalizing bs with
  | nil => exact h bs
  | cons a front ih => exact suffixDistance_cons_le ih a bs

/-- One edit, wherever, changes the distance to another text by at most one. -/
theorem Edit.suffixDistance_le (h : Edit as as') (bs : List Char) :
    suffixDistance as bs ≤ suffixDistance as' bs + 1 := by
  cases h with
  | insert front c back =>
    exact suffixDistance_append_le (suffixDistance_le_cons_left c back) front bs
  | delete front c back =>
    exact suffixDistance_append_le (suffixDistance_cons_left_le c back) front bs
  | replace front c d back =>
    exact suffixDistance_append_le (suffixDistance_replace_le d c back) front bs

/-- No way from text to text is shorter. -/
theorem Edits.suffixDistance_le {n : Nat} (h : Edits n as bs) : suffixDistance as bs ≤ n := by
  induction h with
  | refl as => exact (suffixDistance_self as).le
  | head hedit _ ih => exact (hedit.suffixDistance_le _).trans (Nat.succ_le_succ ih)

end

theorem isLeast_suffixDistance (as bs : List Char) :
    IsLeast {n | Edits n as bs} (suffixDistance as bs) :=
  ⟨edits_suffixDistance as bs, fun _ h => h.suffixDistance_le⟩

/-! ## Rows -/

/-- The distances of a text from the front `read` and from longer and longer ones, with the
characters that follow. Both are given from their ends. -/
def suffixDistances (as read : List Char) : List Char → List Nat
  | [] => []
  | b :: bs => suffixDistance as (b :: read) :: suffixDistances as (b :: read) bs

/-- A row of distances from all fronts. -/
def distanceRow (as bs : List Char) : List Nat := as.length :: suffixDistances as [] bs

/-- An entry comes from the one before, the one above, and the one before that. -/
theorem editRow_eq (a : Char) (as read bs : List Char) :
    editRow a (suffixDistance (a :: as) read) (suffixDistance as read) bs
      (suffixDistances as read bs) = suffixDistances (a :: as) read bs := by
  induction bs generalizing read with
  | nil => rfl
  | cons b bs ih =>
    have hentry : min (min (suffixDistance as (b :: read) + 1) (suffixDistance (a :: as) read + 1))
        (suffixDistance as read + if a = b then 0 else 1) = suffixDistance (a :: as) (b :: read) := by
      rw [suffixDistance]
    rw [suffixDistances, editRow, hentry, ih, suffixDistances]

theorem nextEditRow_eq (a : Char) (as bs : List Char) :
    nextEditRow bs (distanceRow as bs) a = distanceRow (a :: as) bs := by
  have hrow := editRow_eq a as [] bs
  rw [suffixDistance_nil_right, suffixDistance_nil_right] at hrow
  exact congrArg (List.cons (as.length + 1)) hrow

theorem foldl_nextEditRow (as read bs : List Char) :
    as.foldl (nextEditRow bs) (distanceRow read bs) = distanceRow (as.reverse ++ read) bs := by
  induction as generalizing read with
  | nil => rfl
  | cons a as ih =>
    rw [List.foldl_cons, nextEditRow_eq, ih, List.reverse_cons, List.append_assoc,
      List.singleton_append]

theorem suffixDistances_nil (read bs : List Char) :
    suffixDistances [] read bs = List.range' (read.length + 1) bs.length := by
  induction bs generalizing read with
  | nil => rfl
  | cons b bs ih =>
    rw [suffixDistances, ih, suffixDistance_nil_left, List.length_cons, List.length_cons,
      List.range'_succ]

/-- From nothing to a front it takes as many edits as that has characters. -/
theorem distanceRow_nil (bs : List Char) : distanceRow [] bs = List.range (bs.length + 1) := by
  rw [distanceRow, suffixDistances_nil, List.range_eq_range', List.range'_succ]
  rfl

theorem getLast?_distanceRow (as read bs : List Char) :
    (suffixDistance as read :: suffixDistances as read bs).getLast?
      = some (suffixDistance as (bs.reverse ++ read)) := by
  induction bs generalizing read with
  | nil => rfl
  | cons b bs ih =>
    rw [suffixDistances, List.getLast?_cons_cons, ih, List.reverse_cons, List.append_assoc,
      List.singleton_append]

theorem editDistance_eq (a b : String) :
    editDistance a b = suffixDistance a.toList.reverse b.toList.reverse := by
  have hlast := getLast?_distanceRow a.toList.reverse [] b.toList
  rw [suffixDistance_nil_right, List.append_nil] at hlast
  rw [editDistance, ← distanceRow_nil, foldl_nextEditRow, List.append_nil, distanceRow, hlast,
    Option.getD_some]

theorem isLeast_editDistance (a b : String) :
    IsLeast {n | Edits n a.toList b.toList} (editDistance a b) := by
  rw [editDistance_eq]
  simpa only [Edits.reverse_iff] using isLeast_suffixDistance a.toList.reverse b.toList.reverse

example : editDistance "kitten" "sitting" = 3 := by decide

/-! ## The nearest candidate -/

/-- A candidate within the limit, farther than none behind it and nearer than all before it. -/
def IsClosest (name : String) (candidates : List String) (limit : Nat) (c : String) : Prop :=
  ∃ before behind, candidates = before ++ c :: behind ∧ editDistance name c ≤ limit ∧
    (∀ x ∈ before, editDistance name c < editDistance name x) ∧
    ∀ x ∈ behind, editDistance name c ≤ editDistance name x

/-- The candidates within the limit, with their distances. -/
def withinLimit (name : String) (limit : Nat) (candidates : List String) : List (String × Nat) :=
  (candidates.map fun c => (c, editDistance name c)).filter (·.2 ≤ limit)

section

variable {name : String} {limit : Nat} {candidates : List String}

theorem nearer_eq : nearer = List.argAux fun b c => b.2 < c.2 := by
  funext best next
  cases best <;> rfl

theorem closest?_eq :
    closest? name candidates limit =
      ((withinLimit name limit candidates).argmin Prod.snd).map Prod.fst := by
  rw [closest?, nearer_eq]
  rfl

theorem closest?_eq_none_iff :
    closest? name candidates limit = none ↔ ∀ c ∈ candidates, limit < editDistance name c := by
  rw [closest?_eq, Option.map_eq_none_iff, List.argmin_eq_none, withinLimit, List.filter_eq_nil_iff]
  simp

/-- From the last candidate on : one that is within the limit stands back only for a nearer one. -/
theorem isClosest_of_argmin {c : String × Nat}
    (h : (withinLimit name limit candidates).argmin Prod.snd = some c) :
    c.2 = editDistance name c.1 ∧ IsClosest name candidates limit c.1 := by
  induction candidates generalizing c with
  | nil => cases h
  | cons a candidates ih =>
    rw [withinLimit, List.map_cons] at h
    by_cases ha : editDistance name a ≤ limit
    · rw [List.filter_cons_of_pos (by simpa using ha), List.argmin_cons, ← withinLimit] at h
      have hfirst (hbehind : ∀ x ∈ candidates, editDistance name a ≤ editDistance name x) :
          IsClosest name (a :: candidates) limit a :=
        ⟨[], candidates, rfl, ha, List.forall_mem_nil _, hbehind⟩
      cases hbest : (withinLimit name limit candidates).argmin Prod.snd with
      | none =>
        rw [hbest] at h
        obtain rfl := Option.some.inj h
        have hnone : closest? name candidates limit = none := by rw [closest?_eq, hbest]; rfl
        exact ⟨rfl, hfirst fun x hx => ha.trans (closest?_eq_none_iff.1 hnone x hx).le⟩
      | some best =>
        obtain ⟨hd, before, behind, rfl, hle, hbefore, hbehind⟩ := ih hbest
        rw [hbest] at h
        by_cases hlt : best.2 < editDistance name a
        · obtain rfl : best = c := by simpa [hlt] using h
          refine ⟨hd, a :: before, behind, rfl, hle, List.forall_mem_cons.2 ⟨?_, hbefore⟩, hbehind⟩
          rwa [← hd]
        · obtain rfl : (a, editDistance name a) = c := by simpa [hlt] using h
          have hleast : editDistance name a ≤ editDistance name best.1 := by omega
          refine ⟨rfl, hfirst fun x hx => ?_⟩
          rcases List.mem_append.1 hx with hx | hx
          · exact hleast.trans (hbefore x hx).le
          · rcases List.mem_cons.1 hx with rfl | hx
            · exact hleast
            · exact hleast.trans (hbehind x hx)
    · rw [List.filter_cons_of_neg (by simpa using ha), ← withinLimit] at h
      obtain ⟨hc, before, behind, rfl, hle, hbefore, hbehind⟩ := ih h
      refine ⟨hc, a :: before, behind, rfl, hle, List.forall_mem_cons.2 ⟨?_, hbefore⟩, hbehind⟩
      omega

theorem IsClosest.unique {c d : String} (hc : IsClosest name candidates limit c)
    (hd : IsClosest name candidates limit d) : c = d := by
  obtain ⟨before, behind, rfl, -, hbefore, hbehind⟩ := hc
  obtain ⟨before', behind', heq, -, hbefore', hbehind'⟩ := hd
  rcases List.append_eq_append_iff.1 heq with ⟨between, rfl, h⟩ | ⟨between, rfl, h⟩ <;>
    rcases List.cons_eq_append_iff.1 h with ⟨rfl, h'⟩ | ⟨between', rfl, h'⟩
  · exact (List.cons.inj h').1.symm
  · have hlt := hbefore' c (by simp)
    have hle := hbehind d (by simp [h'])
    omega
  · exact (List.cons.inj h').1
  · have hlt := hbefore d (by simp)
    have hle := hbehind' c (by simp [h'])
    omega

theorem closest?_eq_some_iff {c : String} :
    closest? name candidates limit = some c ↔ IsClosest name candidates limit c := by
  have hsound {d : String} (h : closest? name candidates limit = some d) :
      IsClosest name candidates limit d := by
    rw [closest?_eq] at h
    obtain ⟨best, hbest, rfl⟩ := Option.map_eq_some_iff.1 h
    exact (isClosest_of_argmin hbest).2
  refine ⟨hsound, fun hc => ?_⟩
  cases hd : closest? name candidates limit with
  | none =>
    obtain ⟨before, behind, rfl, hle, -, -⟩ := hc
    have hlt := closest?_eq_none_iff.1 hd c (by simp)
    omega
  | some d => exact congrArg some ((hsound hd).unique hc)

end

/-- The distance is the least number of edits that lead from the one text to the other, and so it is
the same in both directions, zero for equal texts only, and no longer than a way through a third text.
Of candidates the first of those that are nearest is found, and none if there is none within the
limit. -/
theorem editDistance_metric :
    (∀ a b, IsLeast {n | Edits n a.toList b.toList} (editDistance a b)) ∧
    (∀ a b, editDistance a b = editDistance b a) ∧
    (∀ a b, editDistance a b = 0 ↔ a = b) ∧
    (∀ a b c, editDistance a c ≤ editDistance a b + editDistance b c) ∧
    ∀ name candidates limit,
      (closest? name candidates limit = none ↔ ∀ c ∈ candidates, limit < editDistance name c) ∧
      ∀ c, closest? name candidates limit = some c ↔ IsClosest name candidates limit c := by
  refine ⟨isLeast_editDistance, fun a b => ?_, fun a b => ?_, fun a b c => ?_,
    fun _ _ _ => ⟨closest?_eq_none_iff, fun _ => closest?_eq_some_iff⟩⟩
  · have hsymm (a b : String) : editDistance b a ≤ editDistance a b :=
      (isLeast_editDistance b a).2 (isLeast_editDistance a b).1.symm
    exact Nat.le_antisymm (hsymm b a) (hsymm a b)
  · rw [← String.toList_inj, ← Edits.zero_iff]
    constructor
    · intro h
      exact h ▸ (isLeast_editDistance a b).1
    · intro h
      exact Nat.le_zero.1 ((isLeast_editDistance a b).2 h)
  · exact (isLeast_editDistance a c).2
      ((isLeast_editDistance a b).1.trans (isLeast_editDistance b c).1)

end FrameCheck
