import FrameCheck.Checker.Basic
import FrameCheck.Proofs.Inference.Rules
import FrameCheck.Proofs.TypeRef.Assignable

/-!
# Columns of the type that is expected

Where a column is read, the type of the access is compared with the one that the context expects. If
the two are the same, then the column is found fault with exactly if the type is not assignable to
itself, and that is where it names `Number` or `Comparable` (`TypeRef.NamesSupertype`).

* `Program.mismatch_of_own_type` : a column that is read where its own type is expected.
-/

namespace FrameCheck

namespace Program

variable (p : Program) {options : CheckerOptions} {access receiver : Expr} {name : String}
  {indexed : Bool} {m m₁ m₂ : Memo} {column : Column} {t : TypeRef}

/-- The name is that of a column of the receiver, which is known, and reads this column and no
member. The receiver is inferred on the way. -/
def ReadsColumn (receiver : Expr) (name : String) (indexed : Bool) (column : Column)
    (m m₁ : Memo) : Prop :=
  ∃ shape schema origin, p.bindingOf receiver m = some (.known shape schema origin, m₁) ∧
    ((!indexed && p.readsMember shape name) || shape == .groupBy) = false ∧
    schema.lookup? name = some column

variable {p}

/-- Of a column that is read only the type is looked at. -/
theorem columnFindings_of_readsColumn (h : p.ReadsColumn receiver name indexed column m m₁) :
    p.columnFindings options access receiver name indexed m = p.typeFindings access column m₁ := by
  obtain ⟨shape, schema, origin, hb, hread, hcolumn⟩ := h
  rw [columnFindings, Query.bind_run, hb, Option.bind_some]
  simp only [hread, hcolumn]
  rfl

/-- Of a type that is expected itself, only whether it is assignable to itself. -/
theorem typeFindings_of_own_type (ht : p.names.expected? access = some t)
    (hown : p.typeOf access m₁ = some (some t, m₂)) :
    p.typeFindings access column m₁ = some (if t.isAssignableTo t then [] else
      [⟨.columnTypeMismatch, access.span,
        s!"Column '{column.name}' has type {column.displayType}, "
          ++ s!"which is not compatible with the expected type {t.display}"⟩], m₂) := by
  simp only [typeFindings, ht]
  rw [Query.bind_run, hown, Option.bind_some]
  simp only
  split <;> rfl

/-- A type is assignable to itself exactly if it names neither `Number` nor `Comparable`. And where
a column is read whose own type is expected, a mismatch of types is found exactly if it names one of
the two. -/
theorem mismatch_of_own_type (t : TypeRef) :
    (t.isAssignableTo t = true ↔ ¬t.NamesSupertype) ∧
    ∀ {p : Program} {options : CheckerOptions} {access receiver : Expr} {name : String}
      {indexed : Bool} {column : Column} {m m₁ m₂ : Memo},
      p.ReadsColumn receiver name indexed column m m₁ → p.names.expected? access = some t →
      p.typeOf access m₁ = some (some t, m₂) →
      ∃ found, p.columnFindings options access receiver name indexed m = some (found, m₂) ∧
        ((∃ f ∈ found, f.code = .columnTypeMismatch) ↔ t.NamesSupertype) := by
  have hself := t.isAssignableTo_self_iff
  refine ⟨hself, ?_⟩
  intro p options access receiver name indexed column m m₁ m₂ hread ht hown
  refine ⟨_, (columnFindings_of_readsColumn hread).trans (typeFindings_of_own_type ht hown), ?_⟩
  by_cases hfits : t.isAssignableTo t = true
  · simpa [hfits] using hself.1 hfits
  · simpa [hfits] using not_not.1 fun h => hfits (hself.2 h)

/-- Two columns, each read where its own type is expected. -/
def ownTypesText : String :=
  "@DataSchema\ninterface A \x7b\n    val m: Map<String, Int?>\n    val n: List<Number>\n\x7d\n" ++
  "fun f(row: DataRow<A>) \x7b\n    val x: Map<String, Int?> = row.m\n" ++
  "    val y: List<Number> = row.n\n\x7d\n"

/-- Whether the column is read at the place where the type is expected, which is its own. -/
def readsOwn (p : Program) (name : String) (t : TypeRef) : Visit → Bool
  | .column access receiver n indexed => n == name && p.names.expected? access == some t &&
    match p.bindingOf receiver Memo.empty with
    | some (.known shape schema _, m₁) =>
      !((!indexed && p.readsMember shape name) || shape == .groupBy) &&
        (schema.lookup? name).isSome && (p.typeOf access m₁).any fun r => r.1 == some t
    | _ => false
  | _ => false

theorem exists_of_readsOwn {vs : List Visit} (h : vs.any (p.readsOwn name t) = true) :
    ∃ access receiver indexed column m₁ m₂, .column access receiver name indexed ∈ vs ∧
      p.ReadsColumn receiver name indexed column Memo.empty m₁ ∧
      p.names.expected? access = some t ∧ p.typeOf access m₁ = some (some t, m₂) := by
  obtain ⟨v, hv, h⟩ := List.any_eq_true.1 h
  unfold readsOwn at h
  split at h
  · next access receiver n indexed =>
    simp only [Bool.and_eq_true, beq_iff_eq] at h
    obtain ⟨⟨rfl, hexpected⟩, h⟩ := h
    split at h
    · next shape schema origin m₁ hb =>
      simp only [Bool.and_eq_true, Bool.not_eq_true', Option.isSome_iff_exists, Option.any_eq_true,
        beq_iff_eq] at h
      obtain ⟨⟨hread, column, hcolumn⟩, ⟨r, m₂⟩, hown, rfl⟩ := h
      exact ⟨access, receiver, indexed, column, m₁, m₂, hv, ⟨shape, schema, origin, hb, hread,
        hcolumn⟩, hexpected, hown⟩
    · cases h
  · cases h

/-- The map is no mismatch there, and the list of numbers is one. -/
theorem mismatch_of_own_type_ownTypesText : ∃ u, SourceUnit.ofText ownTypesText = .ok u ∧
    (∃ access receiver indexed m₁ column m₂ found,
      (ofUnit u).ReadsColumn receiver "m" indexed column Memo.empty m₁ ∧
      (ofUnit u).columnFindings {} access receiver "m" indexed Memo.empty = some (found, m₂) ∧
      ∀ f ∈ found, f.code ≠ .columnTypeMismatch) ∧
    ∃ access receiver indexed m₁ column m₂ found,
      (ofUnit u).ReadsColumn receiver "n" indexed column Memo.empty m₁ ∧
      (ofUnit u).columnFindings {} access receiver "n" indexed Memo.empty = some (found, m₂) ∧
      ∃ f ∈ found, f.code = .columnTypeMismatch := by
  let map : TypeRef := ⟨"Map", [.simple "String", (TypeRef.simple "Int").withNullable true], false⟩
  let list : TypeRef := ⟨"List", [.simple "Number"], false⟩
  obtain ⟨u, hu, h⟩ : ∃ u, SourceUnit.ofText ownTypesText = .ok u ∧
      (u.visits.any ((ofUnit u).readsOwn "m" map) &&
        u.visits.any ((ofUnit u).readsOwn "n" list)) = true := by
    refine SourceUnit.exists_ofText (Token.eq_ofList_append (Token.eq_ofList_append rfl rfl) rfl) ?_
    decide +kernel
  rw [Bool.and_eq_true] at h
  obtain ⟨access, receiver, indexed, column, m₁, m₂, -, hread, ht, hown⟩ := exists_of_readsOwn h.1
  obtain ⟨access', receiver', indexed', column', m₁', m₂', -, hread', ht', hown'⟩ :=
    exists_of_readsOwn h.2
  obtain ⟨hmap, hreport⟩ := mismatch_of_own_type map
  obtain ⟨-, hreport'⟩ := mismatch_of_own_type list
  obtain ⟨found, hfound, hiff⟩ := hreport hread ht hown
  obtain ⟨found', hfound', hiff'⟩ := hreport' hread' ht' hown'
  have hnumber : (TypeRef.simple "Number").NamesSupertype := .self (Or.inl (by decide +kernel))
  have hlist : list.NamesSupertype :=
    .arg (by decide) (by decide +kernel) (List.mem_singleton.2 rfl) hnumber
  have hnone : ∀ f ∈ found, f.code ≠ .columnTypeMismatch := fun f hf hcode =>
    hmap.1 (by decide +kernel) (hiff.1 ⟨f, hf, hcode⟩)
  exact ⟨u, hu, ⟨access, receiver, indexed, m₁, column, m₂, found, hread, hfound, hnone⟩,
    access', receiver', indexed', m₁', column', m₂', found', hread', hfound', hiff'.2 hlist⟩

/-- A column of type `Number`, read where that is expected. -/
def numberText : String :=
  "@DataSchema\ninterface A \x7b\n    val n: Number\n\x7d\n" ++
  "fun f(row: DataRow<A>) \x7b\n    val x: Number = row.n\n\x7d\n"

/-- `Number` is not assignable to itself, and the column there is found fault with. -/
theorem not_assignable_numberText :
    (TypeRef.simple "Number").isAssignableTo (.simple "Number") = false ∧
    ∃ u, SourceUnit.ofText numberText = .ok u ∧
    (∃ access receiver indexed column m₁ m₂, .column access receiver "n" indexed ∈ u.visits ∧
      (ofUnit u).ReadsColumn receiver "n" indexed column Memo.empty m₁ ∧
      (ofUnit u).names.expected? access = some (.simple "Number") ∧
      (ofUnit u).typeOf access m₁ = some (some (.simple "Number"), m₂)) ∧
    ∃ found m, (ofUnit u).findings {} u.visits Memo.empty = some (found, m) ∧
      ∃ f ∈ found, f.code = .columnTypeMismatch := by
  refine ⟨by decide +kernel, ?_⟩
  obtain ⟨u, hu, h⟩ : ∃ u, SourceUnit.ofText numberText = .ok u ∧
      (u.visits.any ((ofUnit u).readsOwn "n" (.simple "Number")) &&
        ((ofUnit u).findings {} u.visits Memo.empty).any fun r =>
          r.1.any fun f => f.code == .columnTypeMismatch) = true := by
    refine SourceUnit.exists_ofText (Token.eq_ofList_append rfl rfl) ?_
    decide +kernel
  rw [Bool.and_eq_true, Option.any_eq_true] at h
  obtain ⟨hread, ⟨found, m⟩, hfound, h⟩ := h
  obtain ⟨f, hf, hcode⟩ := List.any_eq_true.1 h
  exact ⟨u, hu, exists_of_readsOwn hread, found, m, hfound, f, hf, beq_iff_eq.1 hcode⟩

end Program

end FrameCheck
