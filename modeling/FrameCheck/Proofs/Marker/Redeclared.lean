import FrameCheck.Proofs.Marker.Overriding
import FrameCheck.Proofs.Operation.Requalified

/-!
# Columns and frames under other qualifications

Types are the same up to qualification if they are the same by the last segments of their names
(`TypeRef.unqualified`). Such types stand for nested rows of the same kind, and of the same marker
(`MarkerQuery.nested_of_unqualified`); but the column of a property holds the type as it is written,
or the marker of its rows as it is written there (`Resolution.columnType`). So a marker that declares
an inherited column once more, with the same type up to qualification, has a conflict if the two
columns hold types that are written otherwise.

* `Program.conflicts_up_to_qualification` : the frames that stack whatever the qualification, and
  the columns that are declared once more without a conflict.
-/

namespace FrameCheck

/-! ## Nested rows -/

namespace MarkerQuery

variable {type origin : TypeRef}

/-- Types that are the same up to qualification hold nested rows of the same kind, of markers that
are the same up to qualification. -/
theorem nested_of_unqualified (h : type.unqualified = origin.unqualified) :
    (nested type).1 = (nested origin).1 ∧
      (nested type).2.map TypeRef.unqualified = (nested origin).2.map TypeRef.unqualified := by
  have hname : type.simpleName = origin.simpleName := TypeRef.simpleName_eq_of_unqualified h
  have harg : (type.arg? 0).map TypeRef.unqualified = (origin.arg? 0).map TypeRef.unqualified := by
    rw [← TypeRef.arg?_unqualified, h, TypeRef.arg?_unqualified]
  have hnonNull : type.nonNull.unqualified = origin.nonNull.unqualified := by
    rw [TypeRef.nonNull_unqualified, h, TypeRef.nonNull_unqualified]
  unfold nested
  rw [hname]
  split
  · exact ⟨rfl, harg⟩
  · split
    · exact ⟨rfl, harg⟩
    · split
      · exact ⟨rfl, rfl⟩
      · exact ⟨rfl, congrArg some hnonNull⟩

theorem type_nestedColumn (x : String) (marker : TypeRef) (kind : ColumnKind)
    (children : Option Schema) : (nestedColumn x marker kind children).type = marker.nonNull := by
  cases kind <;> cases children <;> rfl

theorem nestedColumn_congr {marker marker' : TypeRef} (h : marker.nonNull = marker'.nonNull)
    (x : String) (kind : ColumnKind) (children : Option Schema) :
    nestedColumn x marker kind children = nestedColumn x marker' kind children := by
  cases kind <;> cases children <;> simp only [nestedColumn, Column.ofGroup, Column.ofFrames, h]

/-- Where a star stands for rows that are not known, it is not the type itself. -/
theorem star_ne {m : TypeRef} {kind : ColumnKind} {other : Option TypeRef} {test : Bool}
    (hstar : (m.isStar && kind == .frame && test) = true) (h : nested type = (kind, other)) :
    type.nonNull ≠ m.nonNull := by
  simp only [Bool.and_eq_true, beq_iff_eq, TypeRef.isStar] at hstar
  obtain ⟨⟨hm, rfl⟩, -⟩ := hstar
  intro heq
  have htype : type.name = "*" := (congrArg (fun t => t.name) heq).trans hm
  have hname : type.simpleName = "*" := by
    rw [TypeRef.simpleName, htype]
    rfl
  simp [nested, hname] at h

end MarkerQuery

/-! ## Types of columns -/

namespace Resolution

variable (names : Resolution)

/-- What the column of a property of this type holds as its type : the marker of its rows, or the
type itself, as it is written. -/
def columnType (type : TypeRef) : TypeRef := (ClassPart.columnOf names "" type none).type

/-- Marker `a` inherits from marker `b`, which does not lead back to it. -/
def InheritsDown (a b : String) : Prop := names.Inherits a b ∧ ¬names.Leads b a

variable {names} {x : String} {type origin : TypeRef}

theorem type_columnOf (children : Option Schema) :
    (ClassPart.columnOf names x type children).type = names.columnType type := by
  unfold columnType ClassPart.columnOf
  split
  · rfl
  · split
    · exact (MarkerQuery.type_nestedColumn ..).trans (MarkerQuery.type_nestedColumn ..).symm
    · split <;> rfl

theorem over?_of_unqualified (h : type.unqualified = origin.unqualified) :
    names.over? type = names.over? origin := by
  have hmarker := (MarkerQuery.nested_of_unqualified h).2
  unfold over?
  cases hm : (MarkerQuery.nested type).2 <;> cases hm' : (MarkerQuery.nested origin).2
  case none.none => rfl
  case some.some m m' =>
    rw [hm, hm', Option.map_some, Option.map_some, Option.some.injEq] at hmarker
    rw [Option.bind_some, Option.bind_some, TypeRef.simpleName_eq_of_unqualified hmarker]
  all_goals simp [hm, hm'] at hmarker

/-- The columns of two types that are the same up to qualification are the same if they hold the
same type. -/
theorem columnOf_congr (h : type.unqualified = origin.unqualified)
    (ht : names.columnType type = names.columnType origin) (children : Option Schema) :
    ClassPart.columnOf names x type children = ClassPart.columnOf names x origin children := by
  obtain ⟨hkind, hmarker⟩ := MarkerQuery.nested_of_unqualified h
  have hname := TypeRef.simpleName_eq_of_unqualified h
  have hnull := TypeRef.nullable_eq_of_unqualified h
  have hvalues : type.nonNull = origin.nonNull →
      Column.ofValues x type = Column.ofValues x origin := fun hnonNull => by
    rw [Column.ofValues, Column.ofValues, hnonNull, hnull]
  unfold columnType ClassPart.columnOf at ht
  unfold ClassPart.columnOf
  rcases hn : MarkerQuery.nested type with ⟨kind, marker⟩
  rcases hn' : MarkerQuery.nested origin with ⟨kind', marker'⟩
  rw [hn, hn'] at hkind hmarker ht
  obtain rfl : kind = kind' := hkind
  cases marker <;> cases marker'
  case none.none => exact hvalues ht
  case some.some m m' =>
    simp only [Option.map_some, Option.some.injEq] at hmarker
    simp only [TypeRef.simpleName_eq_of_unqualified hmarker, hname, hnull] at ht ⊢
    by_cases hknown : (names.marker? m'.simpleName).isSome
    · simp only [hknown, if_true] at ht ⊢
      rw [MarkerQuery.nestedColumn_congr]
      exact (MarkerQuery.type_nestedColumn ..).symm.trans
        (ht.trans (MarkerQuery.type_nestedColumn ..))
    · simp only [hknown, Bool.false_eq_true, if_false] at ht ⊢
      cases hc : m.isStar && kind == .frame && origin.simpleName != "List" <;>
        cases hc' : m'.isStar && kind == .frame && origin.simpleName != "List" <;>
        simp only [hc, hc', Bool.false_eq_true, if_true, if_false] at ht ⊢
      case false.false => exact hvalues ht
      case true.true => exact congrArg (fun t => (Column.mk x (.frame none) t origin.nullable)) ht
      case true.false => exact absurd ht (MarkerQuery.star_ne hc hn').symm
      case false.true => exact absurd ht (MarkerQuery.star_ne hc' hn)
  all_goals simp at hmarker

/-- Columns that hold other types differ, whatever is known of the markers of their rows. -/
theorem columnAt_ne (ht : names.columnType type ≠ names.columnType origin)
    (opened opened' : List String) (table : Std.TreeMap String Schema) :
    names.columnAt opened table x type ≠ names.columnAt opened' table x origin := by
  intro h
  refine ht ?_
  rw [← type_columnOf (x := x), ← type_columnOf (x := x)]
  exact congrArg Column.type h

end Resolution

/-- A supertype that does not lead back is not open when the marker is built. -/
theorem Builds.inheritsPast_of_inheritsDown {names : Resolution} {A : String → List String}
    {m : Memo} (h : Builds names A [] m) {n s : String} (hn : n ∈ m.markers)
    (hns : Relation.TransGen names.InheritsDown n s) :
    Relation.TransGen (names.InheritsPast A) n s := by
  induction hns using Relation.TransGen.head_induction_on with
  | single hab => exact .single ⟨hab.1, fun hA => hab.2 (h.leads hn hA)⟩
  | head hab _ ih =>
    have hA := fun hA => hab.2 (h.leads hn hA)
    exact .head ⟨hab.1, hA⟩ (ih (h.closed hn hab.1.asks hA))

/-! ## Columns that are declared once more -/

namespace Program

section

variable {u : SourceUnit} {n s x : String} {origin type : TypeRef}
  (hr : (ofUnit u).names.Redeclares n s x origin type)

include hr

theorem not_conflicts_of_columnType_eq (hq : type.unqualified = origin.unqualified)
    (ht : (ofUnit u).names.columnType type = (ofUnit u).names.columnType origin)
    (hj : ∀ j ∈ (ofUnit u).names.over? origin, j = n ∨ ¬(ofUnit u).names.Leads j s) {m : Memo}
    (hm : (ofUnit u).Reached m) : ¬m.Conflicts n x := by
  obtain ⟨A, h⟩ := hm.steady.builds
  exact h.not_conflicts hr (fun _ _ => Resolution.name_of_marker?)
    (Resolution.over?_of_unqualified hq) (Resolution.columnOf_congr hq ht) hj

variable (ht : (ofUnit u).names.columnType type ≠ (ofUnit u).names.columnType origin)

include ht

/-- The marker that inherits is asked for, and opens the supertype. -/
theorem exists_conflicts_of_columnType_ne (hi : (ofUnit u).names.Inherits n s) (hns : n ≠ s) :
    ∃ m, (ofUnit u).Reached m ∧ m.Conflicts n x := by
  obtain ⟨A, m, hm, h, hA, hall⟩ := exists_reached_by_marker hi.asks.isSome_left
  have hsA : s ∉ A n := by simpa [hA] using Ne.symm hns
  exact ⟨m, hm, h.conflicts_of_ne hr (fun _ _ => Resolution.name_of_marker?)
    (hall n Relation.ReflTransGen.refl).1 (.single ⟨hi, hsA⟩) (Resolution.columnAt_ne ht _ _ _)⟩

theorem conflicts_of_columnType_ne
    (hns : Relation.TransGen (ofUnit u).names.InheritsDown n s) {m : Memo}
    (hm : (ofUnit u).Reached m) (hn : n ∈ m.markers) : m.Conflicts n x := by
  obtain ⟨A, h⟩ := hm.steady.builds
  exact h.conflicts_of_ne hr (fun _ _ => Resolution.name_of_marker?) hn
    (h.inheritsPast_of_inheritsDown hn hns) (Resolution.columnAt_ne ht _ _ _)

end

/-- Two frames stack whatever the qualification of their types exactly if they share no name, or are
not compatible even without qualification. A column that is declared once more with the same type
up to qualification is never a conflict if the two columns hold types that are written alike, and
the marker of the nested rows is the marker itself or does not lead to the supertype. If they hold
types that are written otherwise, it is one behind some questions if the marker lists the supertype,
and behind all that build the marker if it inherits through markers that do not lead back. -/
theorem conflicts_up_to_qualification {rule : OperationRule} (hkind : rule.kind = .concat)
    (u : SourceUnit) :
    (∀ (l r : Binding) (a b : Schema) (typeArgs : List Binding),
      l.schema? = some a → r.schema? = some b → a.names.Nodup → b.names.Nodup →
      ((∀ l' r' a' b', l'.schema? = some a' → r'.schema? = some b' →
        a'.unqualified = a.unqualified → b'.unqualified = b.unqualified →
          ((∃ d, rule.apply (OperationCall.stacking l r typeArgs) = .ok d) ↔
            ∃ d, rule.apply (OperationCall.stacking l' r' typeArgs) = .ok d)) ↔
        (∀ n ∈ a.names, n ∉ b.names) ∨
          ¬OperationCall.Stackable a.unqualified b.unqualified)) ∧
    ∀ (n s x : String) (origin type : TypeRef),
      (ofUnit u).names.Redeclares n s x origin type → type.unqualified = origin.unqualified →
      ((ofUnit u).names.columnType type = (ofUnit u).names.columnType origin →
        (∀ j ∈ (ofUnit u).names.over? origin, j = n ∨ ¬(ofUnit u).names.Leads j s) →
        ∀ m, (ofUnit u).Reached m → ¬m.Conflicts n x) ∧
      ((ofUnit u).names.columnType type ≠ (ofUnit u).names.columnType origin →
        ((ofUnit u).names.Inherits n s → n ≠ s → ∃ m, (ofUnit u).Reached m ∧ m.Conflicts n x) ∧
        (Relation.TransGen (ofUnit u).names.InheritsDown n s →
          ∀ m, (ofUnit u).Reached m → n ∈ m.markers → m.Conflicts n x)) := by
  constructor
  · intro l r a b typeArgs hl hr ha hb
    exact OperationRule.stacks_requalified_iff hkind hl hr ha hb
  · intro n s x origin type hr hq
    constructor
    · exact fun ht hj _ hm => not_conflicts_of_columnType_eq hr hq ht hj hm
    · exact fun ht => ⟨exists_conflicts_of_columnType_ne hr ht,
        fun hns _ hm hn => conflicts_of_columnType_ne hr ht hns hm hn⟩

/-- A marker that declares the column of its supertype once more, with the package of its type. -/
def packageText : String :=
  "@DataSchema\ninterface A \x7b\n    val x: Int\n    val y: Int\n\x7d\n" ++
  "@DataSchema\ninterface B : A \x7b\n    override val x: kotlin.Int\n" ++
  "    override val y: Int\n\x7d\n"

/-- What is declared in `packageText`. -/
theorem redeclares_packageText : ∃ u, SourceUnit.ofText packageText = .ok u ∧
    (ofUnit u).names.Inherits "B" "A" ∧
    (ofUnit u).names.Redeclares "B" "A" "x" (.simple "Int") (.simple "kotlin.Int") ∧
    (ofUnit u).names.Redeclares "B" "A" "y" (.simple "Int") (.simple "Int") ∧
    (ofUnit u).names.over? (.simple "Int") = none ∧
    (ofUnit u).names.columnType (.simple "kotlin.Int")
      ≠ (ofUnit u).names.columnType (.simple "Int") ∧
    ∃ r m, (ofUnit u).markerSchema "B" Memo.empty = some (r, m) ∧ m.Conflicts "B" "x" := by
  obtain ⟨u, hu, h⟩ : ∃ u, SourceUnit.ofText packageText = .ok u ∧
      ((ofUnit u).names.redeclaresTest "B" "A" "x" (.simple "Int") (.simple "kotlin.Int") &&
      (ofUnit u).names.redeclaresTest "B" "A" "y" (.simple "Int") (.simple "Int") &&
      decide ((ofUnit u).names.over? (.simple "Int") = none ∧
        (ofUnit u).names.columnType (.simple "kotlin.Int")
          ≠ (ofUnit u).names.columnType (.simple "Int")) &&
      ((ofUnit u).markerSchema "B" Memo.empty).any fun r => r.2.markerFailures.any fun f =>
        decide (f.subject = "B" ∧ f.error = .duplicateColumn "x")) = true := by
    refine SourceUnit.exists_ofText (Token.eq_ofList_append (Token.eq_ofList_append
      rfl rfl) rfl) ?_
    decide +kernel
  simp only [Bool.and_eq_true, Option.any_eq_true, List.any_eq_true, decide_eq_true_eq] at h
  obtain ⟨⟨⟨hx, hy⟩, hover, hne⟩, ⟨r, m⟩, hrun, f, hf, hconflict⟩ := h
  exact ⟨u, hu, (Resolution.inherits_only_of_test hx).1, .of_test hx, .of_test hy, hover, hne, r, m,
    hrun, f, hf, hconflict⟩

/-- Rows with one value of this type. -/
def valuesOf (type : String) : Schema := ⟨[.ofValues "x" (.simple type)]⟩

/-- Whether frames of numbers stack does depend on the package, and so does the conflict for the one
column of `packageText`, but not that for the other. -/
theorem conflicts_up_to_qualification_packageText :
    let rule : OperationRule := ⟨.dataFrame, "concat", .exact 1, .concat, .dataFrame⟩
    let numbers : Binding := .known .dataFrame (valuesOf "Int") none
    rule.kind = .concat ∧ (valuesOf "Int").names.Nodup ∧
    (¬∀ l' r' a' b', l'.schema? = some a' → r'.schema? = some b' →
      a'.unqualified = (valuesOf "Int").unqualified →
      b'.unqualified = (valuesOf "Int").unqualified →
        ((∃ d, rule.apply (OperationCall.stacking numbers numbers []) = .ok d) ↔
          ∃ d, rule.apply (OperationCall.stacking l' r' []) = .ok d)) ∧
    ∃ u, SourceUnit.ofText packageText = .ok u ∧
      (ofUnit u).names.Redeclares "B" "A" "x" (.simple "Int") (.simple "kotlin.Int") ∧
      (ofUnit u).names.Redeclares "B" "A" "y" (.simple "Int") (.simple "Int") ∧
      (∀ m, (ofUnit u).Reached m → ¬m.Conflicts "B" "y") ∧
      ∃ m, (ofUnit u).Reached m ∧ m.Conflicts "B" "x" := by
  intro rule numbers
  have hnodup : (valuesOf "Int").names.Nodup := by decide
  obtain ⟨u, hu, hi, hx, hy, hover, hne, -⟩ := redeclares_packageText
  obtain ⟨hframes, hmarkers⟩ := @conflicts_up_to_qualification rule rfl u
  refine ⟨rfl, hnodup, fun hall => ?_, u, hu, hx, hy, ?_, ?_⟩
  · rcases (hframes numbers numbers _ _ [] rfl rfl hnodup hnodup).1 hall with hdisjoint | hdiffer
    · exact hdisjoint "x" (by decide) (by decide)
    · refine hdiffer fun n c hc d hd => ?_
      obtain rfl := Option.some.inj (hc.symm.trans hd)
      exact ⟨rfl, rfl⟩
  · refine (hmarkers _ _ _ _ _ hy rfl).1 rfl fun j hj => ?_
    rw [hover] at hj
    cases hj
  · exact ((hmarkers _ _ _ _ _ hx (by decide +kernel)).2 hne).1 hi (by decide)

/-- Frames that are the same up to qualification stack in the one spelling and not in the other, and
the question for the marker that inherits records a conflict for a column that it declares once
more with the same type up to qualification. -/
theorem qualification_packageText :
    let rule : OperationRule := ⟨.dataFrame, "concat", .exact 1, .concat, .dataFrame⟩
    let values (type : String) : Binding := .known .dataFrame (valuesOf type) none
    (valuesOf "kotlin.Int").unqualified = (valuesOf "Int").unqualified ∧
    (∃ d, rule.apply (OperationCall.stacking (values "Int") (values "Int") []) = .ok d) ∧
    (¬∃ d, rule.apply (OperationCall.stacking (values "kotlin.Int") (values "Int") []) = .ok d) ∧
    ∃ u, SourceUnit.ofText packageText = .ok u ∧
      (ofUnit u).names.Redeclares "B" "A" "x" (.simple "Int") (.simple "kotlin.Int") ∧
      (TypeRef.simple "kotlin.Int").unqualified = (TypeRef.simple "Int").unqualified ∧
      ∃ m, (ofUnit u).Reached m ∧ m.Conflicts "B" "x" := by
  intro rule values
  obtain ⟨u, hu, -, hx, -, -, -, r, m, hrun, hconflict⟩ := redeclares_packageText
  refine ⟨by decide +kernel, ⟨_, rfl⟩, ?_, u, hu, hx, by decide +kernel, m,
    (Reached.empty _).markerSchema hrun, hconflict⟩
  have hfails : (rule.apply (OperationCall.stacking (values "kotlin.Int") (values "Int") [])).isOk
      = false := by decide +kernel
  rintro ⟨d, hd⟩
  rw [hd] at hfails
  cases hfails

end Program

end FrameCheck
