import FrameCheck.Proofs.Inference.Growth
import FrameCheck.Parse.Unit

/-!
# Which columns a marker has

A marker has the columns that it declares and those of its supertypes, as far as these were
not being built just then (`Builds.mem_names_iff`). A supertype is, where it leads back to the
marker and was asked for first. So whatever was asked before, a marker has all columns of the
supertypes that do not lead back to it; and a supertype that does, and that alone gives the
marker one of the columns it declares, is built without it when the marker is asked for, and
the marker without that column when the supertype is asked for first.

* `Program.names_markerSchema` : the names of the columns of a marker, behind any questions.
-/

namespace FrameCheck

/-! ## Declared and inherited columns -/

namespace Resolution

variable (names : Resolution)

/-- Marker `n` has a stored property of a written type, with the column name `x`. -/
def Declares (n x : String) : Prop :=
  ∃ c p, names.marker? n = some c ∧ p ∈ c.properties ∧ p.isStored = true ∧ p.type.isSome = true ∧
    p.columnName = x

/-- Marker `b` is listed as a supertype of marker `a`. -/
def Inherits (a b : String) : Prop :=
  ∃ c t, names.marker? a = some c ∧ t ∈ c.supertypes ∧ t.simpleName = b ∧
    (names.marker? b).isSome

/-- Marker `n` or one that it inherits from, maybe through others, declares the column `x`. -/
def Carries (n x : String) : Prop :=
  ∃ b, Relation.ReflTransGen names.Inherits n b ∧ names.Declares b x

/-- Marker `n` can have the column `x` from the supertype `b` and from nowhere else. -/
def Sole (n b x : String) : Prop :=
  names.Inherits n b ∧ ¬names.Declares n x ∧ ∀ t, names.Inherits n t → names.Carries t x → t = b

variable {names}

theorem Inherits.asks {a b : String} (h : names.Inherits a b) : names.Asks a b := by
  obtain ⟨c, t, hc, ht, rfl, hb⟩ := h
  exact ⟨c, hc, ⟨.supertype t, List.mem_append_left _ (List.mem_map_of_mem ht), rfl⟩, hb⟩

theorem Declares.isSome {n x : String} (h : names.Declares n x) : (names.marker? n).isSome := by
  obtain ⟨c, p, hc, -⟩ := h
  simp [hc]

end Resolution

/-! ## Names of built markers -/

theorem Schema.mem_names_placed {s : Schema} {es : List Entry} {x : String} :
    x ∈ (s.placed es).names ↔ x ∈ s.names ∨ ∃ e ∈ es, e.column.name = x := by
  rw [mem_names, mem_names, lookup?_placed, Option.isSome_or, Bool.or_eq_true, Option.isSome_map,
    List.find?_isSome]
  simp

namespace ClassPart

variable {names : Resolution} {known : String → Option Schema} {c : ClassDecl}

theorem mem_entriesIn_supertype {t : TypeRef} {e : Entry} :
    e ∈ (supertype t).entriesIn names known c ↔
      ∃ s, known t.simpleName = some s ∧ ∃ d ∈ s.columns, e = ⟨c.nameSpan, d⟩ := by
  simp only [entriesIn, asked?, entries, Option.bind_some]
  cases known t.simpleName with
  | none => simp
  | some s => simp [eq_comm]

theorem mem_entriesIn_property {p : PropertyDecl} {e : Entry} :
    e ∈ (property p).entriesIn names known c ↔ ∃ type, p.isStored = true ∧ p.type = some type ∧
      e = ⟨p.nameSpan, columnOf names p.columnName type
        (((property p).asked? names).bind known)⟩ := by
  simp only [entriesIn, entries]
  cases p.isStored <;> cases p.type <;> simp

end ClassPart

namespace ClassDecl

variable {names : Resolution} {known : String → Option Schema} {c : ClassDecl}

theorem mem_entriesIn {e : Entry} : e ∈ c.entriesIn names known ↔
    (∃ t ∈ c.supertypes, e ∈ (ClassPart.supertype t).entriesIn names known c) ∨
      ∃ p ∈ c.properties, e ∈ (ClassPart.property p).entriesIn names known c := by
  simp only [entriesIn, parts, List.flatMap_append, List.mem_append, List.flatMap_map,
    List.mem_flatMap]

/-- The names of a class : what its supertypes are known to have, and what it declares. -/
theorem mem_names_schemaIn {x : String} : x ∈ (c.schemaIn names known).names ↔
    (∃ t ∈ c.supertypes, ∃ s, known t.simpleName = some s ∧ x ∈ s.names) ∨
      ∃ p ∈ c.properties, p.isStored = true ∧ p.type.isSome = true ∧ p.columnName = x := by
  rw [schemaIn, Schema.mem_names_placed]
  simp only [Schema.names, Schema.empty, List.map_nil, List.not_mem_nil, false_or, mem_entriesIn,
    ClassPart.mem_entriesIn_supertype, ClassPart.mem_entriesIn_property]
  constructor
  · rintro ⟨e, ⟨t, ht, s, hs, d, hd, rfl⟩ | ⟨p, hp, type, hst, hty, rfl⟩, hx⟩
    · exact Or.inl ⟨t, ht, s, hs, List.mem_map.2 ⟨d, hd, hx⟩⟩
    · refine Or.inr ⟨p, hp, hst, by simp [hty], ?_⟩
      rwa [ClassPart.columnOf_name] at hx
  · rintro (⟨t, ht, s, hs, hx⟩ | ⟨p, hp, hst, hty, hx⟩)
    · obtain ⟨d, hd, hx⟩ := List.mem_map.1 hx
      exact ⟨_, Or.inl ⟨t, ht, s, hs, d, hd, rfl⟩, hx⟩
    · obtain ⟨type, hty⟩ := Option.isSome_iff_exists.1 hty
      exact ⟨_, Or.inr ⟨p, hp, type, hst, hty, rfl⟩, (ClassPart.columnOf_name ..).trans hx⟩

end ClassDecl

namespace Builds

variable {names : Resolution} {A : String → List String} {pending : List Failure} {m : Memo}

/-- A marker has what it declares, and what its supertypes have that are no ancestors of it. -/
theorem mem_names_iff (h : Builds names A pending m) {n : String} {s : Schema}
    (hn : m.markers[n]? = some s) {x : String} :
    x ∈ s.names ↔ names.Declares n x ∨
      ∃ b t, names.Inherits n b ∧ b ∉ A n ∧ m.markers[b]? = some t ∧ x ∈ t.names := by
  obtain ⟨c, hc, rfl⟩ := h.declared hn
  rw [ClassDecl.mem_names_schemaIn, or_comm]
  refine or_congr ?_ ?_
  · constructor
    · rintro ⟨p, hp, hst, hty, hx⟩
      exact ⟨c, p, hc, hp, hst, hty, hx⟩
    · rintro ⟨d, p, hd, hp, hst, hty, hx⟩
      obtain rfl := Option.some.inj (hc.symm.trans hd)
      exact ⟨p, hp, hst, hty, hx⟩
  · constructor
    · rintro ⟨t, ht, s, hs, hx⟩
      unfold pastOpen at hs
      split at hs
      · simp at hs
      · rename_i hA
        have hm : t.simpleName ∈ m.markers := Std.TreeMap.mem_iff_isSome_getElem?.2 (by simp [hs])
        exact ⟨_, s, ⟨c, t, hc, ht, rfl, h.isSome_of_mem hm⟩, hA, hs, hx⟩
    · rintro ⟨b, s, ⟨d, t, hd, ht, rfl, -⟩, hA, hs, hx⟩
      obtain rfl := Option.some.inj (hc.symm.trans hd)
      exact ⟨t, ht, s, by rw [pastOpen, if_neg hA, hs], hx⟩

/-- A marker has no other columns than those that it or what it inherits from declares. -/
theorem carries (h : Builds names A pending m) {n : String} {s : Schema}
    (hn : m.markers[n]? = some s) {x : String} (hx : x ∈ s.names) : names.Carries n x := by
  refine h.induction (P := fun n => ∀ s, m.markers[n]? = some s → x ∈ s.names →
    names.Carries n x) ?_ n (Std.TreeMap.mem_iff_isSome_getElem?.2 (by simp [hn])) s hn hx
  intro k _ ih s hs hx
  rcases (h.mem_names_iff hs).1 hx with hd | ⟨b, t, hi, hA, ht, hxt⟩
  · exact ⟨k, Relation.ReflTransGen.refl, hd⟩
  · obtain ⟨d, hbd, hd⟩ := ih b hi.asks hA t ht hxt
    exact ⟨d, Relation.ReflTransGen.head hi hbd, hd⟩

/-- What a marker can have from one supertype only is missing while that is an ancestor. -/
theorem not_mem_names (h : Builds names A pending m) {n b x : String} {s : Schema}
    (hn : m.markers[n]? = some s) (hs : names.Sole n b x) (hb : b ∈ A n) : x ∉ s.names := by
  intro hx
  rcases (h.mem_names_iff hn).1 hx with hd | ⟨b', t, hi, hA, ht, hxt⟩
  · exact hs.2.1 hd
  · rw [hs.2.2 b' hi (h.carries ht hxt)] at hA
    exact hA hb

/-- With no marker open, what is remembered is closed under asking. -/
theorem mem_of_leads (h : Builds names A pending m) (ho : m.openMarkers = []) {a b : String}
    (hl : names.Leads a b) (ha : a ∈ m.markers) : b ∈ m.markers := by
  induction hl with
  | refl => exact ha
  | tail _ hbc hb =>
    rename_i b c _
    by_cases hA : c ∈ A b
    · exact (h.known hb hA).resolve_right (by simp [ho])
    · exact h.closed hb hbc hA

end Builds

/-! ## Answers behind any questions -/

namespace Program

variable {p : Program}

/-- What is remembered of a marker is the answer, and nothing changes. -/
theorem markerSchema_of_mem {m : Memo} {n : String} {s : Schema} (h : m.markers[n]? = some s) :
    p.markerSchema n m = some (some s, m) := by
  refine Query.bind_eq_some.2 ⟨m, m, rfl, ?_⟩
  rw [h]
  rfl

/-- A marker that is asked for is remembered, with its answer. -/
theorem markerSchema_reached {m : Memo} (hm : p.Reached m) {n : String}
    (hn : (p.names.marker? n).isSome) : ∃ A A' s m', Builds p.names A [] m ∧ p.Reached m' ∧
      p.markerSchema n m = some (some s, m') ∧ m'.markers[n]? = some s ∧
      m'.openMarkers = [] ∧ MarkerAnswer p.names [] A m n A' m' := by
  obtain ⟨A, hA⟩ := hm.steady.builds
  have ho := hm.steady.openMarkers
  obtain ⟨A', m', hrun, hans⟩ := p.markerSchema_run hA ho n
  have ho' := hans.grown.openMarkers.trans ho
  have hmem := hans.mem ho' hn
  have hs := Std.TreeMap.getElem?_eq_some_getElem hmem
  exact ⟨A, A', _, m', hA, hm.markerSchema hrun, hs ▸ hrun, hs, ho', hans⟩

/-- The memo that the question for one marker leaves : the marker has no other ancestor, and is
one of all that it leads to. -/
theorem exists_reached_by_marker {n : String} (hn : (p.names.marker? n).isSome) :
    ∃ A m, p.Reached m ∧ Builds p.names A [] m ∧ A n = [n] ∧
      ∀ k, p.names.Leads n k → k ∈ m.markers ∧ n ∈ A k := by
  obtain ⟨_, A, s, m, -, hm, -, hs, ho, hans⟩ := markerSchema_reached (Reached.empty p) hn
  have hnm : n ∈ m.markers := Std.TreeMap.mem_iff_isSome_getElem?.2 (by simp [hs])
  refine ⟨A, m, hm, hans.builds, hans.own (by simp [Memo.empty]) hnm, fun k hk => ?_⟩
  have hkm := hans.builds.mem_of_leads ho hk hnm
  exact ⟨hkm, hans.under (by simp [Memo.empty]) hkm⟩

/-- Behind any questions, a marker has the columns that it declares and no others than these and
those of its supertypes. It has all columns of the supertypes that do not lead back to it. A
supertype that leads back, and that alone can give the marker a column that it declares, is
built before the marker where it is asked for first, and then the marker lacks that column. -/
theorem names_markerSchema (p : Program) (n : String) (hn : (p.names.marker? n).isSome) :
    (∀ m, p.Reached m → ∃ s m', p.markerSchema n m = some (some s, m') ∧
      (∀ x, p.names.Declares n x → x ∈ s.names) ∧
      (∀ x ∈ s.names, p.names.Declares n x ∨ ∃ b t, p.names.Inherits n b ∧
        p.markerSchema b m' = some (some t, m') ∧ x ∈ t.names) ∧
      (∀ b, p.names.Inherits n b → ¬p.names.Leads b n →
        ∃ t, p.markerSchema b m' = some (some t, m') ∧ t.names ⊆ s.names)) ∧
    (∀ b x, p.names.Sole n b x → p.names.Declares b x → p.names.Leads b n →
      ∃ m s t, p.Reached m ∧ p.markerSchema n m = some (some s, m) ∧
        p.markerSchema b m = some (some t, m) ∧ x ∈ t.names ∧ x ∉ s.names) := by
  constructor
  · intro m hm
    obtain ⟨A, A', s, m', -, -, hrun, hs, -, hans⟩ := markerSchema_reached hm hn
    have hb := hans.builds
    refine ⟨s, m', hrun, fun x hx => (hb.mem_names_iff hs).2 (Or.inl hx), fun x hx => ?_, ?_⟩
    · refine ((hb.mem_names_iff hs).1 hx).imp_right ?_
      rintro ⟨b, t, hi, -, ht, hxt⟩
      exact ⟨b, t, hi, markerSchema_of_mem ht, hxt⟩
    · intro b hi hl
      have hnm : n ∈ m'.markers := Std.TreeMap.mem_iff_isSome_getElem?.2 (by simp [hs])
      have hbA : b ∉ A' n := fun hbA => hl (hb.leads hnm hbA)
      have ht := Std.TreeMap.getElem?_eq_some_getElem (hb.closed hnm hi.asks hbA)
      exact ⟨_, markerSchema_of_mem ht, fun x hx =>
        (hb.mem_names_iff hs).2 (Or.inr ⟨b, _, hi, hbA, ht, hx⟩)⟩
  · intro b x hsole hx hl
    obtain ⟨A, m, hm, hb, -, hall⟩ := exists_reached_by_marker hx.isSome
    obtain ⟨hnm, hnA⟩ := hall n hl
    have hs := Std.TreeMap.getElem?_eq_some_getElem hnm
    have ht := Std.TreeMap.getElem?_eq_some_getElem (hall b Relation.ReflTransGen.refl).1
    exact ⟨m, _, _, hm, markerSchema_of_mem hs, markerSchema_of_mem ht,
      (hb.mem_names_iff ht).2 (Or.inl hx), hb.not_mem_names hs hsole hnA⟩

/-- A marker with a property over another marker that inherits from it. -/
def returningText : String :=
  "@DataSchema\ninterface S \x7b\n    val c: C\n\x7d\n" ++
  "@DataSchema\ninterface C : S \x7b\n    val x: Int\n\x7d\n"

/-- The column that the inheriting marker declares is there behind any questions. -/
theorem names_markerSchema_returningText : ∃ u, SourceUnit.ofText returningText = .ok u ∧
    ((ofUnit u).names.marker? "C").isSome ∧ (ofUnit u).names.Declares "C" "x" ∧
    ∀ m, (ofUnit u).Reached m →
      ∃ s m', (ofUnit u).markerSchema "C" m = some (some s, m') ∧ "x" ∈ s.names := by
  obtain ⟨u, hu, h⟩ : ∃ u, SourceUnit.ofText returningText = .ok u ∧
      (((ofUnit u).names.marker? "C").any fun c => c.properties.any fun p =>
        p.isStored && p.type.isSome && p.columnName == "x") = true := by
    refine SourceUnit.exists_ofText (Token.eq_ofList_append rfl rfl) ?_
    decide +kernel
  rw [Option.any_eq_true] at h
  obtain ⟨c, hc, h⟩ := h
  simp only [List.any_eq_true, Bool.and_eq_true, beq_iff_eq] at h
  obtain ⟨p, hp, ⟨hst, hty⟩, hx⟩ := h
  have hn : ((ofUnit u).names.marker? "C").isSome := by simp [hc]
  have hd : (ofUnit u).names.Declares "C" "x" := ⟨c, p, hc, hp, hst, hty, hx⟩
  refine ⟨u, hu, hn, hd, fun m hm => ?_⟩
  obtain ⟨s, m', hs, hown, -, -⟩ := (names_markerSchema (ofUnit u) "C" hn).1 m hm
  exact ⟨s, m', hs, hown "x" hd⟩

/-- No marker inherits from itself there, and yet the inheriting marker lacks a column of its
supertype where the supertype is asked for first. -/
theorem incomplete_returningText : ∃ u, SourceUnit.ofText returningText = .ok u ∧
    (∀ n, ¬Relation.TransGen (ofUnit u).names.Inherits n n) ∧
    (ofUnit u).names.Inherits "C" "S" ∧
    ∃ m s t, (ofUnit u).Reached m ∧ (ofUnit u).markerSchema "C" m = some (some s, m) ∧
      (ofUnit u).markerSchema "S" m = some (some t, m) ∧ "c" ∈ t.names ∧ "c" ∉ s.names := by
  obtain ⟨u, hu, h⟩ : ∃ u, SourceUnit.ofText returningText = .ok u ∧
      ((ofUnit u).names.markers.toList.all (fun r => r.2.supertypes.all fun t =>
        r.1 == "C" && t.simpleName == "S") &&
      (((ofUnit u).names.marker? "C").any fun c => c.supertypes.any (·.simpleName == "S")) &&
      ((ofUnit u).names.marker? "S").isSome &&
      ((ofUnit u).markerSchema "S" Memo.empty).any fun r =>
        (r.2.markers["S"]?).any (fun t => decide ("c" ∈ t.names)) &&
          (r.2.markers["C"]?).any fun s => decide ("c" ∉ s.names)) = true := by
    refine SourceUnit.exists_ofText (Token.eq_ofList_append rfl rfl) ?_
    decide +kernel
  simp only [Bool.and_eq_true, Option.any_eq_true, List.any_eq_true, List.all_eq_true,
    beq_iff_eq, decide_eq_true_eq] at h
  obtain ⟨⟨⟨hall, c, hc, t, ht, hts⟩, hS⟩, ⟨r, m⟩, hr, ⟨t', hm, hct⟩, s, hs, hcs⟩ := h
  have hinherits : ∀ a b, (ofUnit u).names.Inherits a b → a = "C" ∧ b = "S" := by
    rintro a b ⟨d, t, hd, ht, rfl, -⟩
    exact hall (a, d) (Std.TreeMap.mem_toList_iff_getElem?_eq_some.2 hd) t ht
  refine ⟨u, hu, fun n hn => ?_, ⟨c, t, hc, ht, hts, hS⟩,
    m, s, t', (Reached.empty _).markerSchema hr, markerSchema_of_mem hs,
    markerSchema_of_mem hm, hct, hcs⟩
  have hC : n = "C" := by
    obtain ⟨b, hb, -⟩ := Relation.TransGen.head'_iff.1 hn
    exact (hinherits n b hb).1
  have hS : n = "S" := by
    obtain ⟨b, -, hb⟩ := Relation.TransGen.tail'_iff.1 hn
    exact (hinherits b n hb).2
  simp [hC] at hS

end Program

end FrameCheck
