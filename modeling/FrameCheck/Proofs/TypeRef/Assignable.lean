import FrameCheck.TypeRef
import Mathlib.Data.List.Forall2

/-!
# Which types stand for which

Of two types that are known, the first is assignable to the second by the second one's name : a
type named `Any`, `Number` or `Comparable` takes others by their names alone (`TypeRef.CountsAs`),
and any other takes types of its own name whose arguments are assignable one by one, where both
have arguments (`TypeRef.isAssignableTo_iff`).

A type that leaves its arguments out fits all of its name, and a star fits everywhere. Where neither
occurs (`TypeRef.Known`), what is assignable to something assignable is assignable itself.

A type is not always assignable to itself : `Number` does not count as a number, and `Comparable`
not as comparable. So no type is in which one of the two is named where the comparison gets to it
(`TypeRef.NamesSupertype`).

* `TypeRef.isAssignableTo_trans` : three types that are known.
* `TypeRef.isAssignableTo_self_iff` : a type and itself.
-/

namespace FrameCheck

namespace TypeRef

/-! ## The arguments of a type -/

theorem sizeOf_lt_of_mem_args {t a : TypeRef} (h : a ∈ t.args) : sizeOf a < sizeOf t := by
  obtain ⟨name, args, nullable⟩ := t
  have := List.sizeOf_lt_of_mem (show a ∈ args from h)
  simp only [TypeRef.mk.sizeOf_spec]
  omega

/-- What holds of a type whenever it holds of its arguments holds of every one. -/
theorem argsInduction {P : TypeRef → Prop} (step : ∀ t : TypeRef, (∀ a ∈ t.args, P a) → P t)
    (t : TypeRef) : P t :=
  step t fun a _ => argsInduction step a
termination_by sizeOf t
decreasing_by exact sizeOf_lt_of_mem_args ‹_›

/-- The types are assignable one by one. -/
def Fit (as es : List TypeRef) : Prop := List.Forall₂ (fun a e => a.isAssignableTo e = true) as es

theorem areAssignableTo_iff : ∀ {as es : List TypeRef}, areAssignableTo as es = true ↔ Fit as es
  | [], [] => iff_of_true rfl .nil
  | [], _ :: _ => iff_of_false nofun nofun
  | _ :: _, [] => iff_of_false nofun nofun
  | a :: as, e :: es => by
    rw [areAssignableTo, Bool.and_eq_true, areAssignableTo_iff, Fit, Fit, List.forall₂_cons]

/-! ## The rule -/

/-- The names of the types that take others by their names. -/
def supertypeNames : List String := ["Any", "Number", "Comparable"]

/-- What is named `n` counts as a type named `super`, whatever the arguments of the two. -/
def CountsAs (n super : String) : Prop :=
  super = "Any" ∨ (super = "Number" ∧ n ∈ numericNames) ∨
    (super = "Comparable" ∧ (n ∈ numericNames ∨ n ∈ ["String", "Char"]))

theorem isNumeric_iff {t : TypeRef} : t.isNumeric = true ↔ t.simpleName ∈ numericNames := by
  rw [isNumeric, numericRank?, List.findIdx?_isSome, List.any_eq_true]
  simp

/-- A type that is known is assignable to another that takes null if it does itself, by the name
of the other. -/
theorem isAssignableTo_iff {t e : TypeRef} (ht : t.name ≠ "*") (he : e.name ≠ "*") :
    t.isAssignableTo e = true ↔ (t.nullable = true → e.nullable = true) ∧
      ((e.simpleName ∈ supertypeNames ∧ CountsAs t.simpleName e.simpleName) ∨
        (e.simpleName ∉ supertypeNames ∧ e.simpleName = t.simpleName ∧
          (e.args = [] ∨ t.args = [] ∨ Fit t.args e.args))) := by
  have hnumeric := isNumeric_iff (t := t)
  obtain ⟨name, args, nullable⟩ := t
  have hstar : (name == "*" || e.isStar) = false := by simpa [isStar] using And.intro ht he
  have hname : lastSegment name = simpleName ⟨name, args, nullable⟩ := rfl
  rw [isAssignableTo, hstar, if_neg Bool.false_ne_true]
  by_cases hnull : nullable = true → e.nullable = true
  · have hno : (nullable && !e.nullable) = false := by
      cases nullable
      · rfl
      · simp [hnull rfl]
    rw [hno, if_neg Bool.false_ne_true, and_iff_right hnull]
    by_cases hany : e.simpleName = "Any"
    · simp [hany, supertypeNames, CountsAs]
    by_cases hnumber : e.simpleName = "Number"
    · simp [hnumber, hnumeric, supertypeNames, CountsAs]
    by_cases hcomparable : e.simpleName = "Comparable"
    · simp [hcomparable, hnumeric, hname, supertypeNames, CountsAs]
    · simp [hany, hnumber, hcomparable, hname, areAssignableTo_iff, or_assoc, supertypeNames]
  · have hyes : (nullable && !e.nullable) = true := by simpa using hnull
    rw [hyes, if_pos rfl]
    exact iff_of_false Bool.false_ne_true fun h => hnull h.1

/-! ## Three types -/

/-- Neither the type nor anything inside of it is a star, and each name has as many arguments as
it always has. -/
inductive Known (arity : String → Nat) : TypeRef → Prop where
  | mk {t : TypeRef} (name : t.name ≠ "*") (length : t.args.length = arity t.simpleName)
      (args : ∀ a ∈ t.args, Known arity a) : Known arity t

theorem Fit.trans {as bs cs : List TypeRef} (hab : Fit as bs) (hbc : Fit bs cs)
    (h : ∀ a ∈ as, ∀ b ∈ bs, ∀ c ∈ cs, a.isAssignableTo b = true → b.isAssignableTo c = true →
      a.isAssignableTo c = true) : Fit as cs := by
  induction hab generalizing cs with
  | nil => exact hbc
  | cons hhead _ ih =>
    obtain - | ⟨hhead', htail'⟩ := hbc
    refine .cons (h _ (by simp) _ (by simp) _ (by simp) hhead hhead') (ih htail' ?_)
    exact fun a ha b hb c hc =>
      h a (List.mem_cons_of_mem _ ha) b (List.mem_cons_of_mem _ hb) c (List.mem_cons_of_mem _ hc)

/-- What counts as a supertype that is no `Any` is named otherwise than the supertypes. -/
theorem notMem_supertypeNames {n super : String} (h : CountsAs n super) (hany : super ≠ "Any") :
    n ∉ supertypeNames := by
  have hplain : ∀ k ∈ numericNames ++ ["String", "Char"], k ∉ supertypeNames := by decide
  refine hplain n (List.mem_append.2 ?_)
  rcases h with h | ⟨-, h⟩ | ⟨-, h⟩
  · exact absurd h hany
  · exact Or.inl h
  · exact h

/-- Among types that are known, with a number of arguments for each name, what is assignable to
something assignable is assignable itself. -/
theorem isAssignableTo_trans (arity : String → Nat) {a b c : TypeRef} (ha : a.Known arity)
    (hb : b.Known arity) (hc : c.Known arity) (hab : a.isAssignableTo b = true)
    (hbc : b.isAssignableTo c = true) : a.isAssignableTo c = true := by
  induction a using argsInduction generalizing b c with
  | step a ih =>
    obtain ⟨hna, hla, haa⟩ := ha
    obtain ⟨hnb, hlb, hab'⟩ := hb
    obtain ⟨hnc, hlc, hac⟩ := hc
    obtain ⟨hnull, hab⟩ := (isAssignableTo_iff hna hnb).1 hab
    obtain ⟨hnull', hbc⟩ := (isAssignableTo_iff hnb hnc).1 hbc
    refine (isAssignableTo_iff hna hnc).2 ⟨fun h => hnull' (hnull h), ?_⟩
    rcases hbc with ⟨hsuper, hcounts⟩ | ⟨hplain, hname, hfit'⟩
    · by_cases hany : c.simpleName = "Any"
      · exact Or.inl ⟨hsuper, Or.inl hany⟩
      -- What is between is no supertype itself, so the first has its name.
      · rcases hab with ⟨hsuper', -⟩ | ⟨-, hname, -⟩
        · exact absurd hsuper' (notMem_supertypeNames hcounts hany)
        · exact Or.inl ⟨hsuper, hname ▸ hcounts⟩
    · rcases hab with ⟨hsuper', -⟩ | ⟨-, hname', hfit⟩
      · exact absurd (hname ▸ hsuper') hplain
      · refine Or.inr ⟨hplain, hname.trans hname', ?_⟩
        -- One name, so all three have arguments or none has.
        have hlength : a.args.length = b.args.length := by rw [hla, hlb, hname']
        have hlength' : b.args.length = c.args.length := by rw [hlb, hlc, hname]
        rcases hfit with hnil | hnil | hfit
        · exact Or.inr (Or.inl (List.length_eq_zero_iff.1 (by rw [hlength, hnil, List.length_nil])))
        · exact Or.inr (Or.inl hnil)
        · rcases hfit' with hnil | hnil | hfit'
          · exact Or.inl hnil
          · exact Or.inl (List.length_eq_zero_iff.1 (by rw [← hlength', hnil, List.length_nil]))
          · exact Or.inr (Or.inr (hfit.trans hfit' fun x hx y hy z hz =>
              ih x hx (haa x hx) (hab' y hy) (hac z hz)))

/-- Maps have two arguments, lists and `Comparable` have one, and all else has none. -/
def usualArity (n : String) : Nat :=
  if n = "Map" then 2 else if n = "List" ∨ n = "Comparable" then 1 else 0

/-- Names with lists of numbers, through what is comparable with numbers or nulls, to anything. -/
theorem isAssignableTo_trans_maps :
    let string := simple "String"
    let int := simple "Int"
    let number := (simple "Number").withNullable true
    let any := (simple "Any").withNullable true
    let a : TypeRef := ⟨"kotlin.Map", [string, ⟨"List", [int], false⟩], false⟩
    let b : TypeRef := ⟨"Map", [⟨"Comparable", [string], false⟩, ⟨"List", [number], true⟩], false⟩
    let c : TypeRef := ⟨"Map", [any, any], true⟩
    a.Known usualArity ∧ b.Known usualArity ∧ c.Known usualArity ∧ a.isAssignableTo b = true ∧
      b.isAssignableTo c = true ∧ a.isAssignableTo c = true := by
  intro string int number any a b c
  have hleaves : ∀ t ∈ [string, int, number, any], t.name ≠ "*" ∧ t.args = [] ∧
      usualArity t.simpleName = 0 := by decide +kernel
  have hleaf : ∀ t ∈ [string, int, number, any], t.Known usualArity := fun t ht => by
    obtain ⟨hname, hargs, hlength⟩ := hleaves t ht
    exact .mk hname (by simp [hargs, hlength]) (by simp [hargs])
  simp only [List.forall_mem_cons, List.not_mem_nil, false_implies, implies_true, and_true] at hleaf
  obtain ⟨hstring, hint, hnumber, hany⟩ := hleaf
  have ha : a.Known usualArity := .mk (by decide) (by decide +kernel) (by
    simpa [a] using ⟨hstring, .mk (by decide) (by decide +kernel) (by simpa using hint)⟩)
  have hb : b.Known usualArity := .mk (by decide) (by decide +kernel) (by
    simpa [b] using ⟨.mk (by decide) (by decide +kernel) (by simpa using hstring),
      .mk (by decide) (by decide +kernel) (by simpa using hnumber)⟩)
  have hc : c.Known usualArity := .mk (by decide) (by decide +kernel) (by simpa [c] using hany)
  have hab : a.isAssignableTo b = true := by decide +kernel
  have hbc : b.isAssignableTo c = true := by decide +kernel
  exact ⟨ha, hb, hc, hab, hbc, isAssignableTo_trans usualArity ha hb hc hab hbc⟩

/-! ## A type and itself -/

/-- `Number` or `Comparable` is named where a comparison of the type with another of its name gets
to it : it may be an argument, but not of a star or of `Any`. -/
inductive NamesSupertype : TypeRef → Prop where
  | self {t : TypeRef} (h : t.simpleName = "Number" ∨ t.simpleName = "Comparable") :
      NamesSupertype t
  | arg {t a : TypeRef} (star : t.name ≠ "*") (any : t.simpleName ≠ "Any") (mem : a ∈ t.args)
      (h : NamesSupertype a) : NamesSupertype t

theorem fit_self_iff {as : List TypeRef} : Fit as as ↔ ∀ a ∈ as, a.isAssignableTo a = true :=
  List.forall₂_same

theorem isAssignableTo_star {t : TypeRef} (h : t.name = "*") (e : TypeRef) :
    t.isAssignableTo e = true := by
  obtain ⟨name, args, nullable⟩ := t
  obtain rfl := show name = "*" from h
  simp [isAssignableTo]

/-- A type is assignable to itself exactly if it names neither `Number` nor `Comparable`. -/
theorem isAssignableTo_self_iff (t : TypeRef) :
    t.isAssignableTo t = true ↔ ¬t.NamesSupertype := by
  induction t using argsInduction with
  | step t ih =>
    by_cases hstar : t.name = "*"
    · refine iff_of_true (isAssignableTo_star hstar t) ?_
      have hname : t.simpleName = "*" := by
        rw [simpleName, hstar]
        decide +kernel
      rintro (h | ⟨hne, -, -, -⟩)
      · simp [hname] at h
      · exact hne hstar
    rw [isAssignableTo_iff hstar hstar, fit_self_iff]
    by_cases hany : t.simpleName = "Any"
    · refine iff_of_true ⟨id, Or.inl ⟨by simp [hany, supertypeNames], Or.inl hany⟩⟩ ?_
      rintro (h | ⟨-, hne, -, -⟩)
      · simp [hany] at h
      · exact hne hany
    by_cases hsuper : t.simpleName = "Number" ∨ t.simpleName = "Comparable"
    · refine iff_of_false ?_ (not_not.2 (.self hsuper))
      rintro ⟨-, ⟨-, hcounts⟩ | ⟨hplain, -⟩⟩
      · exact notMem_supertypeNames hcounts hany (by
          rcases hsuper with h | h <;> simp [h, supertypeNames])
      · exact hplain (by rcases hsuper with h | h <;> simp [h, supertypeNames])
    · have hplain : t.simpleName ∉ supertypeNames := by
        simpa [supertypeNames, hany] using hsuper
      constructor
      · rintro ⟨-, ⟨hmem, -⟩ | ⟨-, -, hargs⟩⟩ (h | ⟨-, -, ha, h⟩)
        · exact hplain hmem
        · exact hplain hmem
        · exact hsuper h
        · rcases hargs with hnil | hnil | hargs
          · simp [hnil] at ha
          · simp [hnil] at ha
          · exact (ih _ ha).1 (hargs _ ha) h
      · intro h
        refine ⟨id, Or.inr ⟨hplain, rfl, Or.inr (Or.inr fun a ha => (ih a ha).2 fun h' => ?_)⟩⟩
        exact h (.arg hstar hany ha h')

end TypeRef

end FrameCheck
