import FrameCheck.Proofs.Inference.Typed
import FrameCheck.Proofs.TypeRef.Widening

/-!
# The element type of a collection that is written out

The arguments of a call such as `listOf(a, null, b)` are looked at one after another, up to the
first that has no type or none together with those before. What comes out is told by all of them
together (`Queries.ElementOf`), so the order of the arguments makes no difference.

That an argument has the same type wherever it stands is not a matter of this loop. On a unit where
nothing leads back it is so (`Queries.elementType_perm`).

* `Queries.collected_elementFrom?` : the loop over the arguments, in closed form.
* `Queries.elementType_of_arguments` : the element type, in any order of the arguments.
-/

namespace FrameCheck

/-- The call collects these arguments, with no type argument. -/
def Expr.Collects (e : Expr) (args : List Argument) : Prop :=
  ∃ id span f, e.kind = .call ⟨id, span, .name f⟩ [] args ∧ f ∈ collectionFunctions

namespace Queries

variable {q : Queries} {m : Memo} {args args' : List (Argument × Option TypeRef)} {t : TypeRef}

/-! ## Arguments with their types -/

/-- The arguments that are not `null`, with their types. -/
def values (args : List (Argument × Option TypeRef)) : List (Expr × Option TypeRef) :=
  (args.filter fun a => !a.1.value.isNullLiteral).map fun a => (a.1.value, a.2)

/-- The types of the arguments that are not `null` and have one. -/
def valueTypes (args : List (Argument × Option TypeRef)) : List TypeRef :=
  (values args).filterMap Prod.snd

theorem values_cons_null {a : Argument} (h : a.value.isNullLiteral = true) (t : Option TypeRef) :
    values ((a, t) :: args) = values args := by
  rw [values, List.filter_cons_of_neg (by simp [h]), values]

theorem values_cons {a : Argument} (h : a.value.isNullLiteral = false) (t : Option TypeRef) :
    values ((a, t) :: args) = (a.value, t) :: values args := by
  rw [values, List.filter_cons_of_pos (by simp [h]), List.map_cons, values]

theorem values_perm (hp : args'.Perm args) : (values args').Perm (values args) :=
  (hp.filter _).map _

theorem valueTypes_perm (hp : args'.Perm args) : (valueTypes args').Perm (valueTypes args) :=
  (values_perm hp).filterMap _

/-- The element type of arguments : all that are not `null` have a type, these types have `t`
together, but for nullability, and it is nullable if there is a null or a nullable one of them. -/
structure ElementOf (args : List (Argument × Option TypeRef)) (t : TypeRef) : Prop where
  typed : ∀ v ∈ values args, v.2.isSome = true
  spans : TypeRef.Spans (valueTypes args) t.nonNull
  nullable : t.nullable = true ↔
    (∃ a ∈ args, a.1.value.isNullLiteral = true) ∨ ∃ s ∈ valueTypes args, s.nullable = true

theorem ElementOf.perm (hp : args'.Perm args) (h : ElementOf args t) : ElementOf args' t where
  typed v hv := h.typed v ((values_perm hp).mem_iff.1 hv)
  spans := h.spans.perm (valueTypes_perm hp)
  nullable := by simpa only [hp.mem_iff, (valueTypes_perm hp).mem_iff] using h.nullable

/-! ## The loop over the arguments -/

/-- Whether an element may be null. -/
def hasNull (args : List (Argument × Option TypeRef)) : Bool :=
  args.any (fun a => a.1.value.isNullLiteral) || (valueTypes args).any TypeRef.nullable

/-- The element type of arguments, of which those before have the type `seen`. -/
def elementFrom? (seen : Option TypeRef) (nullable : Bool)
    (args : List (Argument × Option TypeRef)) : Option TypeRef :=
  if (values args).all fun v => v.2.isSome then
    (TypeRef.gathered seen (valueTypes args)).map (·.withNullable (nullable || hasNull args))
  else none

section Cons

variable {seen : Option TypeRef} {nullable : Bool} {a : Argument}

theorem elementFrom?_null (h : a.value.isNullLiteral = true) (t : Option TypeRef) :
    elementFrom? seen nullable ((a, t) :: args) = elementFrom? seen true args := by
  have hnull : hasNull ((a, t) :: args) = true := by simp [hasNull, h]
  rw [elementFrom?, elementFrom?, valueTypes, valueTypes, values_cons_null h, hnull, Bool.or_true,
    Bool.true_or]

theorem elementFrom?_untyped (h : a.value.isNullLiteral = false) :
    elementFrom? seen nullable ((a, none) :: args) = none := by
  simp [elementFrom?, values_cons h]

theorem elementFrom?_typed (h : a.value.isNullLiteral = false) (t : TypeRef) :
    elementFrom? seen nullable ((a, some t) :: args) = match TypeRef.element seen t with
      | none => none
      | some joined => elementFrom? (some joined) (nullable || t.nullable) args := by
  have htypes : valueTypes ((a, some t) :: args) = t :: valueTypes args := by
    simp [valueTypes, values_cons h]
  have hnull : (nullable || hasNull ((a, some t) :: args)) =
      (nullable || t.nullable || hasNull args) := by
    rw [hasNull, hasNull, htypes, List.any_cons, List.any_cons, h]
    grind
  rw [elementFrom?, values_cons h, List.all_cons, htypes, hnull, TypeRef.gathered]
  cases TypeRef.element seen t with
  | none => exact ite_self none
  | some joined => rfl

end Cons

/-- What the loop gives is told by all arguments together, though it stops at the first that ends
it. -/
theorem elementsType_run {seen : Option TypeRef} {nullable : Bool} (h : q.Typed m (values args)) :
    ∃ m', q.elementsType seen nullable (args.map Prod.fst) m =
      some (elementFrom? seen nullable args, m') := by
  induction args generalizing seen nullable m with
  | nil => exact ⟨m, by cases seen <;> simp [elementsType, elementFrom?, values, valueTypes,
      hasNull, TypeRef.gathered, Query.pure_run]⟩
  | cons arg args ih =>
    obtain ⟨a, t⟩ := arg
    cases hnull : a.value.isNullLiteral with
    | true =>
      rw [values_cons_null hnull] at h
      simp only [List.map_cons, elementsType, hnull, if_true, elementFrom?_null hnull]
      exact ih h
    | false =>
      rw [values_cons hnull] at h
      obtain ⟨m₁, ha, h⟩ := h
      simp only [List.map_cons, elementsType, hnull, Bool.false_eq_true, if_false]
      rw [Query.bind_run, ha, Option.bind_some]
      cases t with
      | none => exact ⟨m₁, by rw [elementFrom?_untyped hnull]; rfl⟩
      | some t =>
        rw [elementFrom?_typed hnull]
        cases hstep : TypeRef.element seen t with
        | none => exact ⟨m₁, by simp only [hstep]; rfl⟩
        | some joined =>
          simp only [hstep]
          exact ih h

/-- It is the element type of the arguments. -/
theorem elementFrom?_eq_some_iff : elementFrom? none false args = some t ↔ ElementOf args t := by
  have hnull : hasNull args = true ↔
      (∃ a ∈ args, a.1.value.isNullLiteral = true) ∨ ∃ s ∈ valueTypes args, s.nullable = true := by
    rw [hasNull, Bool.or_eq_true, List.any_eq_true, List.any_eq_true]
  rw [elementFrom?, Bool.false_or]
  constructor
  · intro h
    split at h
    · next htyped =>
      obtain ⟨w, hw, rfl⟩ := Option.map_eq_some_iff.1 h
      have hspans := TypeRef.gathered_eq_some_iff.1 hw
      exact ⟨fun v hv => List.all_eq_true.1 htyped v hv, hspans.nonNull.symm ▸ hspans, hnull⟩
    · cases h
  · rintro ⟨htyped, hspans, hnullable⟩
    rw [if_pos (List.all_eq_true.2 htyped), TypeRef.gathered_eq_some_iff.2 hspans, Option.map_some]
    refine congrArg some (TypeRef.eq_of_nonNull rfl ?_)
    exact Bool.eq_iff_iff.2 (hnull.trans hnullable.symm)

/-- Whatever call it is that collects these arguments, its elements have the type `r`, if the
arguments that are not `null`, asked one after another, have their types. -/
def Collected (q : Queries) (args : List (Argument × Option TypeRef)) (r : Option TypeRef) : Prop :=
  ∀ (e : Expr) (m : Memo), e.Collects (args.map Prod.fst) → q.Typed m (values args) →
    ∃ m', q.elementType e m = some (r, m')

theorem collected_elementFrom? (q : Queries) (args : List (Argument × Option TypeRef)) :
    q.Collected args (elementFrom? none false args) := by
  rintro e m ⟨id, span, f, hk, hf⟩ h
  simp only [elementType, hk, hf, if_true]
  exact elementsType_run h

/-- The order of the arguments does not matter. -/
theorem elementFrom?_perm (hp : args'.Perm args) :
    elementFrom? none false args' = elementFrom? none false args := by
  refine Option.ext fun t => ?_
  rw [elementFrom?_eq_some_iff, elementFrom?_eq_some_iff]
  exact ⟨.perm hp.symm, .perm hp⟩

/-! ## The element type -/

/-- Where nothing leads back, a collection has the same element type in every order of its
arguments, behind every history. -/
theorem elementType_perm {p : Program} {u : SourceUnit} (h : Acyclic p u) {e e' : Expr}
    {as as' : List Argument} (has : ∀ a ∈ as, a.value ∈ u.exprs) (hp : as'.Perm as)
    (he : e.Collects as) (he' : e'.Collects as') {m m' : Memo} (hm : m.Fresh p u)
    (ho : m.inProgress = []) (hm' : m'.Fresh p u) (ho' : m'.inProgress = []) :
    ∃ r m₁ m₁', p.queries.elementType e m = some (r, m₁) ∧
      p.queries.elementType e' m' = some (r, m₁') := by
  let typed := fun a : Argument => (a, p.freshType a.value)
  have hfst : ∀ as : List Argument, (as.map typed).map Prod.fst = as := fun as => by
    simp [typed, Function.comp_def]
  have hvalues : ∀ as : List Argument, values (as.map typed) = ((as.filter fun a =>
      !a.value.isNullLiteral).map Argument.value).map fun x => (x, p.freshType x) := fun as => by
    simp [values, typed, List.filter_map, Function.comp_def]
  have htyped : ∀ {as : List Argument} {m : Memo}, (∀ a ∈ as, a.value ∈ u.exprs) → m.Fresh p u →
      m.inProgress = [] → p.queries.Typed m (values (as.map typed)) := fun {as m} has hm ho => by
    rw [hvalues]
    refine h.typed (fun x hx => ?_) hm ho
    obtain ⟨a, ha, rfl⟩ := List.mem_map.1 hx
    exact has a (List.mem_of_mem_filter ha)
  have has' : ∀ a ∈ as', a.value ∈ u.exprs := fun a ha => has a (hp.mem_iff.1 ha)
  obtain ⟨m₁, hrun⟩ := p.queries.collected_elementFrom? (as.map typed) e m
    ((hfst as).symm ▸ he) (htyped has hm ho)
  obtain ⟨m₁', hrun'⟩ := p.queries.collected_elementFrom? (as'.map typed) e' m'
    ((hfst as').symm ▸ he') (htyped has' hm' ho')
  rw [elementFrom?_perm (hp.map typed)] at hrun'
  exact ⟨_, m₁, m₁', hrun, hrun'⟩

/-- Whatever the types of the arguments are, there is one element type for all calls that collect
them, in any order, or none. There is one exactly if all that are not `null` have a type and there
is one of these, and the types are the same but for nullability or all numeric. Then the element
type is the common one, or else the widest, from `Int` on ; and it is nullable exactly if an
argument is `null` or has a nullable type. -/
theorem elementType_of_arguments (q : Queries) (args : List (Argument × Option TypeRef)) :
    ∃ r, (∀ t, r = some t ↔ ElementOf args t) ∧
      ∀ args', args'.Perm args → q.Collected args' r := by
  refine ⟨elementFrom? none false args, fun t => elementFrom?_eq_some_iff, fun args' hp => ?_⟩
  rw [← elementFrom?_perm hp]
  exact q.collected_elementFrom? args'

/-- A collection of a byte, a null, and a short number that may be null. -/
def bytesText : String := "fun f(b: Byte, s: Short?) = listOf(b, null, s)\n"

/-- Whether the expression is a collection of two values around a `null`, with these types in both
orders of the arguments. -/
def aroundNullTest (q : Queries) (t t' : TypeRef) (e : Expr) : Bool :=
  match e.kind with
  | .call ⟨_, _, .name f⟩ [] [a, b, c] =>
    decide (f ∈ collectionFunctions) && !a.value.isNullLiteral && b.value.isNullLiteral &&
      !c.value.isNullLiteral && q.typedTest (values [(a, some t), (b, none), (c, some t')]) &&
        q.typedTest (values [(c, some t'), (b, none), (a, some t)])
  | _ => false

/-- The elements are `Int?` there, and also in the other order. -/
theorem elementType_of_arguments_bytesText :
    ∃ u, SourceUnit.ofText bytesText = .ok u ∧
      let q := (Program.ofUnit u).queries
      let elements := (TypeRef.simple "Int").withNullable true
      ∃ e ∈ u.exprs, ∃ args, e.Collects args ∧
        (∃ m, q.elementType e Memo.empty = some (some elements, m)) ∧
        ∃ e', e'.Collects args.reverse ∧
          ∃ m, q.elementType e' Memo.empty = some (some elements, m) := by
  let byte := TypeRef.simple "Byte"
  let short := (TypeRef.simple "Short").withNullable true
  let elements := (TypeRef.simple "Int").withNullable true
  obtain ⟨u, hu, h⟩ : ∃ u, SourceUnit.ofText bytesText = .ok u ∧
      (u.exprs.any ((Program.ofUnit u).queries.aroundNullTest byte short)) = true := by
    refine SourceUnit.exists_ofText rfl ?_
    decide +kernel
  obtain ⟨e, he, h⟩ := List.any_eq_true.1 h
  unfold aroundNullTest at h
  split at h
  · next id span f a b c hk =>
    simp only [Bool.and_eq_true, Bool.not_eq_true', decide_eq_true_eq] at h
    obtain ⟨⟨⟨⟨⟨hf, ha⟩, hb⟩, hc⟩, htyped⟩, htyped'⟩ := h
    let args := [(a, some byte), (b, none), (c, some short)]
    have hvalues : values args = [(a.value, some byte), (c.value, some short)] := by
      rw [values_cons ha, values_cons_null hb, values_cons hc]
      rfl
    have htypes : valueTypes args = [byte, short] := by rw [valueTypes, hvalues]; rfl
    have hwidest : TypeRef.Widest [byte, short] (.simple "Int") := by
      refine ⟨2, "Int", rfl, rfl, Nat.le_refl 2, ?_, Or.inl rfl⟩
      simpa using ⟨⟨0, by decide, by decide +kernel⟩, ⟨1, by decide, by decide +kernel⟩⟩
    have halike : ¬TypeRef.Alike [byte, short] := fun h =>
      absurd (h byte (by simp) short (by simp)) (by decide +kernel)
    obtain ⟨r, hr, hall⟩ := elementType_of_arguments (Program.ofUnit u).queries args
    obtain rfl : r = some elements := (hr elements).2
      { typed := by simp [hvalues]
        spans := htypes ▸ Or.inr ⟨halike, hwidest⟩
        nullable := iff_of_true rfl (Or.inl ⟨(b, none), by simp [args], hb⟩) }
    refine ⟨u, hu, e, he, [a, b, c], ⟨id, span, f, hk, hf⟩, ?_, ⟨e.id, e.span,
      .call ⟨id, span, .name f⟩ [] [c, b, a]⟩, ⟨id, span, f, rfl, hf⟩, ?_⟩
    · exact hall args (.refl _) e Memo.empty ⟨id, span, f, hk, hf⟩ (typed_of_typedTest htyped)
    · exact hall args.reverse args.reverse_perm _ Memo.empty ⟨id, span, f, rfl, hf⟩
        (typed_of_typedTest htyped')
  · cases h

end Queries

end FrameCheck
