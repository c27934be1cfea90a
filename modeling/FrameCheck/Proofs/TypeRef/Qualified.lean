import FrameCheck.TypeRef
import Mathlib.Data.List.Basic
import Mathlib.Data.List.TakeWhile

/-!
# Qualified names

A name with dots in it is qualified, and its last segment is the name without its qualification. Two
types are the same up to qualification if they are the same when all names in them are cut down to
their last segments (`TypeRef.unqualified`). A name can be qualified further, which makes it longer
and leaves it the same up to qualification (`TypeRef.within`).

* `lastSegment_within` : what stands before a dot does not count.
* `TypeRef.unqualified` : a type by the last segments of its names.
-/

namespace FrameCheck

/-! ## Dots in names -/

section

variable {a : List Char}

theorem takeWhile_of_undotted (h : '.' ∉ a) : a.takeWhile (· != '.') = a :=
  List.takeWhile_eq_self_iff.2 fun c hc => by
    simpa using fun heq : c = '.' => h (heq ▸ hc)

theorem dropWhile_of_undotted (h : '.' ∉ a) : a.dropWhile (· != '.') = [] :=
  List.dropWhile_eq_nil_iff.2 fun c hc => by
    simpa using fun heq : c = '.' => h (heq ▸ hc)

theorem takeWhile_dotted (a b : List Char) :
    (a ++ '.' :: b).takeWhile (· != '.') = a.takeWhile (· != '.') := by
  induction a with
  | nil => rfl
  | cons c a ih => rw [List.cons_append, List.takeWhile_cons, List.takeWhile_cons, ih]

theorem dropWhile_dotted (a b : List Char) :
    (a ++ '.' :: b).dropWhile (· != '.') = a.dropWhile (· != '.') ++ '.' :: b := by
  induction a with
  | nil => rfl
  | cons c a ih =>
    rw [List.cons_append, List.dropWhile_cons, List.dropWhile_cons, ih]
    split <;> rfl

end

theorem toList_dotted (a b : String) : (a ++ "." ++ b).toList = a.toList ++ '.' :: b.toList := by
  simp [show ".".toList = ['.'] from rfl]

namespace TypeRef

/-- What stands before a dot does not count. -/
theorem lastSegment_within (a b : String) : lastSegment (a ++ "." ++ b) = lastSegment b := by
  rw [lastSegment, toList_dotted, List.reverse_append, List.reverse_cons, List.append_assoc,
    List.singleton_append, takeWhile_dotted, lastSegment]

theorem lastSegment_of_undotted {b : String} (h : '.' ∉ b.toList) : lastSegment b = b := by
  have hrev : '.' ∉ b.toList.reverse := by simpa using h
  rw [lastSegment, takeWhile_of_undotted hrev, List.reverse_reverse, String.ofList_toList]

theorem undotted_lastSegment (name : String) : '.' ∉ (lastSegment name).toList := by
  rw [lastSegment, String.toList_ofList, List.mem_reverse]
  intro h
  simpa using List.mem_takeWhile_imp h

theorem lastSegment_dotted (a : String) {b : String} (h : '.' ∉ b.toList) :
    lastSegment (a ++ "." ++ b) = b :=
  (lastSegment_within a b).trans (lastSegment_of_undotted h)

end TypeRef

/-- A name without a dot, or one with a last segment. -/
theorem undotted_or_dotted (n : String) :
    '.' ∉ n.toList ∨ ∃ a b, n = a ++ "." ++ b ∧ '.' ∉ b.toList := by
  by_cases h : '.' ∈ n.toList
  · refine Or.inr ?_
    obtain ⟨a, b, hab, hb⟩ := List.eq_append_cons_of_mem (List.mem_reverse.2 h)
    refine ⟨String.ofList b.reverse, String.ofList a.reverse, ?_, by simpa using hb⟩
    refine String.toList_inj.1 ?_
    rw [toList_dotted, String.toList_ofList, String.toList_ofList, ← List.reverse_reverse n.toList,
      hab]
    simp
  · exact Or.inl h

/-! ## Types by their last segments -/

namespace TypeRef

mutual

/-- The type with all names in it cut down to their last segments. -/
def unqualified : TypeRef → TypeRef
  | ⟨name, args, nullable⟩ => ⟨lastSegment name, unqualifiedAll args, nullable⟩

def unqualifiedAll : List TypeRef → List TypeRef
  | [] => []
  | t :: ts => t.unqualified :: unqualifiedAll ts

end

theorem unqualifiedAll_eq_map (ts : List TypeRef) : unqualifiedAll ts = ts.map unqualified := by
  induction ts with
  | nil => rfl
  | cons t ts ih => rw [unqualifiedAll, ih, List.map_cons]

variable (t : TypeRef)

theorem unqualified_eq : t.unqualified = ⟨t.simpleName, t.args.map unqualified, t.nullable⟩ := by
  obtain ⟨name, args, nullable⟩ := t
  rw [unqualified, unqualifiedAll_eq_map]
  rfl

@[simp] theorem nullable_unqualified : t.unqualified.nullable = t.nullable := by
  rw [unqualified_eq]

@[simp] theorem simpleName_unqualified : t.unqualified.simpleName = t.simpleName := by
  rw [unqualified_eq]
  exact lastSegment_of_undotted (undotted_lastSegment t.name)

theorem simpleName_eq_of_unqualified {t u : TypeRef} (h : t.unqualified = u.unqualified) :
    t.simpleName = u.simpleName := by
  rw [← simpleName_unqualified, h, simpleName_unqualified]

theorem nullable_eq_of_unqualified {t u : TypeRef} (h : t.unqualified = u.unqualified) :
    t.nullable = u.nullable := by
  rw [← nullable_unqualified, h, nullable_unqualified]

theorem nonNull_unqualified : t.nonNull.unqualified = t.unqualified.nonNull := by
  rw [unqualified_eq, unqualified_eq t]
  rfl

theorem arg?_unqualified (i : Nat) : t.unqualified.arg? i = (t.arg? i).map unqualified := by
  rw [unqualified_eq]
  exact List.getElem?_map

mutual

theorem unqualified_unqualified : ∀ t : TypeRef, t.unqualified.unqualified = t.unqualified
  | ⟨name, args, nullable⟩ => by
    rw [unqualified, unqualified, unqualifiedAll_unqualifiedAll args,
      lastSegment_of_undotted (undotted_lastSegment name)]

theorem unqualifiedAll_unqualifiedAll : ∀ ts : List TypeRef,
    unqualifiedAll (unqualifiedAll ts) = unqualifiedAll ts
  | [] => rfl
  | t :: ts => by
    rw [unqualifiedAll, unqualifiedAll, unqualified_unqualified t, unqualifiedAll_unqualifiedAll ts]

end

/-- The type with its name qualified further. -/
def within (q : String) (t : TypeRef) : TypeRef := { t with name := q ++ "." ++ t.name }

theorem unqualified_within (q : String) : (t.within q).unqualified = t.unqualified := by
  rw [unqualified_eq, unqualified_eq t, simpleName, within, lastSegment_within]
  rfl

theorem within_ne (q : String) : t.within q ≠ t := by
  intro h
  have hlength := congrArg (fun u : TypeRef => u.name.toList.length) h
  simp only [within, toList_dotted, List.length_append, List.length_cons] at hlength
  omega

end TypeRef

end FrameCheck
