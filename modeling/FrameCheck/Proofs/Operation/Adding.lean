import FrameCheck.Proofs.Operation.Joining

/-!
# Adding columns at once and one by one

A block of columns is added column by column, each to what the columns before it gave
(`OperationRule.foldlM_apply_addingOne`), and so is a column that is added by a call of its own. So a
block and a chain of calls give one schema, or stop at the same column: the first whose name the
frame has or a column before it in the block (`OperationCall.AddFault`).

* `OperationRule.apply_add` : a block of columns against a chain of calls.
-/

namespace FrameCheck

namespace OperationCall

/-- The call that adds a block of columns. -/
def addingAll (r : Binding) (added : List (String × Option TypeRef)) (typeArgs : List Binding) :
    OperationCall := ⟨r, [.columns added], typeArgs⟩

/-- The call that adds one column. -/
def addingOne (r : Binding) (column : String × Option TypeRef) (typeArgs : List Binding) :
    OperationCall := ⟨r, [.text column.1, .value column.2], typeArgs⟩

/-- The column that is added under a name; a type that is not known is the star type. -/
def newColumn (column : String × Option TypeRef) : Column :=
  .ofValues column.1 (column.2.getD .star)

/-- The frame with the new columns behind its own. -/
def extended (s : Schema) (added : List (String × Option TypeRef)) : Schema :=
  ⟨s.columns ++ added.map newColumn⟩

/-- The first column of the block whose name the frame has, or a column before it. -/
def AddFault (s : Schema) (added : List (String × Option TypeRef)) (name : String) : Prop :=
  ∃ before type after, added = before ++ (name, type) :: after ∧
    (name ∈ s.names ∨ name ∈ before.map Prod.fst) ∧
    (before.map Prod.fst).Nodup ∧ ∀ n ∈ before.map Prod.fst, n ∉ s.names

section

variable {s t : Schema} {added : List (String × Option TypeRef)}
  {column : String × Option TypeRef} {name : String}

theorem withColumn_eq_append {c : Column} (h : c.name ∉ s.names) :
    s.withColumn c = ⟨s.columns ++ [c]⟩ := by
  obtain ⟨columns⟩ := s
  refine congrArg Schema.mk ?_
  induction columns with
  | nil => rfl
  | cons d columns ih =>
    obtain ⟨hd, hcolumns⟩ := not_or.1 (mt List.mem_cons.2 h)
    rw [Schema.putColumn, if_neg (by simpa using Ne.symm hd), ih hcolumns, List.cons_append]

theorem addColumn_of_mem (h : column.1 ∈ s.names) :
    addColumn s column.1 column.2 = .error (.schema (.duplicateColumn column.1)) :=
  if_pos (Schema.contains_iff.2 h)

theorem addColumn_of_notMem (h : column.1 ∉ s.names) :
    addColumn s column.1 column.2 = .ok (extended s [column]) := by
  have hput : s.withColumn (newColumn column) = extended s [column] := withColumn_eq_append h
  rw [addColumn, if_neg (mt Schema.contains_iff.1 h), ← hput]
  rfl

theorem names_extended : (extended s added).names = s.names ++ added.map Prod.fst := by
  rw [extended, Schema.names, List.map_append, List.map_map]
  rfl

theorem extended_cons : extended s (column :: added) = extended (extended s [column]) added := by
  simp [extended]

theorem addFault_cons_of_mem (h : column.1 ∈ s.names) :
    AddFault s (column :: added) name ↔ name = column.1 := by
  constructor
  · rintro ⟨before, type, after, hadded, -, -, hnew⟩
    cases before with
    | nil =>
      obtain ⟨rfl, -⟩ := List.cons.inj hadded
      rfl
    | cons first before =>
      obtain ⟨rfl, -⟩ := List.cons.inj hadded
      exact absurd h (hnew _ List.mem_cons_self)
  · rintro rfl
    exact ⟨[], column.2, added, rfl, Or.inl h, List.nodup_nil, by simp⟩

theorem addFault_cons_of_notMem (h : column.1 ∉ s.names) :
    AddFault s (column :: added) name ↔ AddFault (extended s [column]) added name := by
  have hnames : (extended s [column]).names = s.names ++ [column.1] := names_extended
  constructor
  · rintro ⟨before, type, after, hadded, hname, hnodup, hnew⟩
    cases before with
    | nil =>
      obtain ⟨rfl, -⟩ := List.cons.inj hadded
      exact absurd (hname.resolve_right List.not_mem_nil) h
    | cons first before =>
      obtain ⟨rfl, rfl⟩ := List.cons.inj hadded
      obtain ⟨hfirst, hnodup⟩ := List.nodup_cons.1 hnodup
      refine ⟨before, type, after, rfl, ?_, hnodup, fun n hn hmem => ?_⟩
      · rw [hnames]
        simpa [or_assoc] using hname
      · rcases List.mem_append.1 (hnames ▸ hmem) with hmem | hmem
        · exact hnew n (List.mem_cons_of_mem _ hn) hmem
        · exact hfirst (List.mem_singleton.1 hmem ▸ hn)
  · rintro ⟨before, type, after, rfl, hname, hnodup, hnew⟩
    rw [hnames] at hname hnew
    refine ⟨column :: before, type, after, rfl, by simpa [or_assoc] using hname,
      List.nodup_cons.2 ⟨fun hmem => hnew _ hmem (by simp), hnodup⟩, fun n hn => ?_⟩
    rcases List.mem_cons.1 hn with rfl | hn
    · exact h
    · exact fun hmem => hnew n hn (List.mem_append_left _ hmem)

/-- The first fault of a block is what is reported. -/
theorem addColumns_eq_error_iff {e : TransformError} : addColumns s added = .error e ↔
    ∃ name, AddFault s added name ∧ e = .schema (.duplicateColumn name) := by
  induction added generalizing s with
  | nil =>
    refine iff_of_false nofun ?_
    rintro ⟨name, ⟨before, type, after, hadded, -⟩, -⟩
    exact List.append_ne_nil_of_right_ne_nil before (List.cons_ne_nil _ _) hadded.symm
  | cons column added ih =>
    by_cases h : column.1 ∈ s.names
    · simp only [addFault_cons_of_mem h, exists_eq_left]
      rw [addColumns, addColumn_of_mem h]
      exact ⟨fun h => (Except.error.inj h).symm, fun h => h ▸ rfl⟩
    · simp only [addFault_cons_of_notMem h, ← ih]
      rw [addColumns, addColumn_of_notMem h]
      rfl

theorem eq_extended_of_addColumns (h : addColumns s added = .ok t) : t = extended s added := by
  induction added generalizing s with
  | nil =>
    cases h
    cases t
    simp [extended]
  | cons column added ih =>
    obtain ⟨next, hnext, h⟩ := bind_eq_ok.1 h
    by_cases hc : column.1 ∈ s.names
    · rw [addColumn_of_mem hc] at hnext
      cases hnext
    · rw [addColumn_of_notMem hc] at hnext
      cases hnext
      rw [ih h, ← extended_cons]

end

end OperationCall

namespace OperationRule

open OperationCall

variable {rule : OperationRule} (hkind : rule.kind = .add) {r : Binding} {s : Schema}
  {added : List (String × Option TypeRef)} {typeArgs : List Binding}

include hkind

theorem apply_eq_add (call : OperationCall) :
    rule.apply call = call.add.map fun s => .known rule.output s none := by
  simp only [apply, hkind]

theorem apply_addingAll (hr : r.schema? = some s) : rule.apply (addingAll r added typeArgs) =
    (addColumns s added).map fun s => .known rule.output s none := by
  have hadd : (addingAll r added typeArgs).add = addColumns s added := by
    show (known r.schema? >>= fun input => addColumns input added) = _
    rw [hr]
    rfl
  rw [apply_eq_add hkind, hadd]

theorem apply_addingOne (hr : r.schema? = some s) (column : String × Option TypeRef) :
    rule.apply (addingOne r column typeArgs) =
      (addColumn s column.1 column.2).map fun s => .known rule.output s none := by
  have hadd : (addingOne r column typeArgs).add = addColumn s column.1 column.2 := by
    show (known r.schema? >>= fun input => addColumn input column.1 column.2) = _
    rw [hr]
    rfl
  rw [apply_eq_add hkind, hadd]

/-- A chain of calls, each on what the one before gave. -/
theorem foldlM_apply_addingOne (hr : r.schema? = some s) :
    (added.foldlM (fun b column => rule.apply (addingOne b column typeArgs)) r).map Binding.schema?
      = (addColumns s added).map some := by
  induction added generalizing r s with
  | nil => exact congrArg Except.ok hr
  | cons column added ih =>
    rw [List.foldlM_cons, apply_addingOne hkind hr, addColumns]
    cases addColumn s column.1 column.2 with
    | error e => rfl
    | ok next => exact ih (r := .known rule.output next none) rfl

omit hkind

/-- A block of columns and a chain of calls that add them one by one give the same schema, or the
same error. It is an error exactly if a column has a name that the frame has or a column before it,
and then the first of these is reported; otherwise the new columns stand behind those of the frame. -/
theorem apply_add (hkind : rule.kind = .add) (hr : r.schema? = some s)
    (added : List (String × Option TypeRef)) (typeArgs : List Binding) :
    (rule.apply (addingAll r added typeArgs)).map Binding.schema? =
      (added.foldlM (fun b column => rule.apply (addingOne b column typeArgs)) r).map
        Binding.schema? ∧
    (∀ e, rule.apply (addingAll r added typeArgs) = .error e ↔
      ∃ name, AddFault s added name ∧ e = .schema (.duplicateColumn name)) ∧
    ∀ b, rule.apply (addingAll r added typeArgs) = .ok b →
      b = .known rule.output (extended s added) none := by
  rw [foldlM_apply_addingOne hkind hr, apply_addingAll hkind hr]
  refine ⟨?_, fun e => ?_, fun b h => ?_⟩
  · cases addColumns s added <;> rfl
  · rw [← addColumns_eq_error_iff]
    cases addColumns s added <;> simp [Except.map]
  · cases hs : addColumns s added with
    | error e =>
      rw [hs] at h
      cases h
    | ok t =>
      rw [hs] at h
      cases h
      rw [eq_extended_of_addColumns hs]

/-- Two persons, and columns for their age in two units, which collide with each other and with
the column that is there. -/
theorem apply_add_ages :
    let rule : OperationRule := ⟨.dataFrame, "add", .range 1 2, .add, .dataFrame⟩
    let people : Binding := .known .dataFrame ⟨[.ofValues "name" (.simple "String")]⟩ (some "Person")
    let added : List (String × Option TypeRef) :=
      [("years", some (.simple "Int")), ("days", none), ("years", none), ("name", none)]
    rule.kind = .add ∧ people.schema? = some ⟨[.ofValues "name" (.simple "String")]⟩ ∧
      rule.apply (addingAll people added []) = .error (.schema (.duplicateColumn "years")) ∧
      (rule.apply (addingAll people (added.take 2) [])).map Binding.schema? =
        ((added.take 2).foldlM (fun b column => rule.apply (addingOne b column [])) people).map
          Binding.schema? := by
  intro rule people added
  obtain ⟨-, herror, -⟩ := @apply_add rule people _ rfl rfl added []
  refine ⟨rfl, rfl, (herror _).2 ⟨"years", ⟨[("years", some (.simple "Int")), ("days", none)], none,
    [("name", none)], rfl, Or.inr (by decide), by decide, by decide⟩, rfl⟩, ?_⟩
  exact (@apply_add rule people _ rfl rfl (added.take 2) []).1

end OperationRule

end FrameCheck
