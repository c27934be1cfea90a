import FrameCheck.Proofs.Marker.Histories
import FrameCheck.Proofs.Resolution.Known
import FrameCheck.Proofs.Schema.Inferred

/-!
# Columns that are declared once more

A column of a marker comes from the property that was first to declare it, and looks as that property
says where it is declared (`Builds.exists_origin`). If a marker declares the column once more
(`Resolution.Redeclares`), there is a conflict where the two columns differ
(`Builds.not_conflicts`, `Builds.conflicts_of_ne`). With the same type (`Resolution.Overrides`) they
differ at most in what is nested in them: the one may have been built while the marker of the nested
rows was open, and the other not. So there is no conflict where the marker of the nested rows does not
lead to the supertype, and there is one, behind some questions, where it leads to the supertype but
not to the marker that inherits.

* `Program.conflicts_of_overrides` : whether an override with the same type is a conflict.
-/

namespace FrameCheck

/-! ## Properties and their types -/

/-- The first stored property of a written type with this column name. -/
def ClassDecl.first? (c : ClassDecl) (x : String) : Option PropertyDecl :=
  c.properties.find? fun p => p.isStored && p.type.isSome && p.columnName == x

namespace Resolution

variable (names : Resolution)

/-- The marker of the rows that values of a property type hold. -/
def over? (type : TypeRef) : Option String :=
  (MarkerQuery.nested type).2.bind fun marker =>
    if (names.marker? marker.simpleName).isSome then some marker.simpleName else none

/-- Marker `n` has a stored property of this written type, with the column name `x`. -/
def DeclaresAs (n x : String) (type : TypeRef) : Prop :=
  ∃ c p, names.marker? n = some c ∧ p ∈ c.properties ∧ p.isStored = true ∧ p.type = some type ∧
    p.columnName = x

/-- The first property of marker `n` with the column name `x` has this written type. -/
def Originates (n x : String) (type : TypeRef) : Prop :=
  ∃ c p, names.marker? n = some c ∧ c.first? x = some p ∧ p.type = some type

/-- Marker `n` inherits the column `x` from marker `s` alone, and declares it once more with the type
that it has there. -/
structure Overrides (n s x : String) (type : TypeRef) : Prop where
  inherits : Relation.TransGen names.Inherits n s
  origin : names.Originates s x type
  declares : names.DeclaresAs n x type
  same : ∀ t, names.DeclaresAs n x t → t = type
  sole : ∀ b, Relation.TransGen names.Inherits n b → names.Declares b x → b = s

/-- Marker `n` inherits the column `x` from marker `s` alone, which declares it with the type
`origin`, and declares it once more with the type `type`. -/
structure Redeclares (n s x : String) (origin type : TypeRef) : Prop where
  inherits : Relation.TransGen names.Inherits n s
  origin : names.Originates s x origin
  declares : names.DeclaresAs n x type
  same : ∀ t, names.DeclaresAs n x t → t = type
  sole : ∀ b, Relation.TransGen names.Inherits n b → names.Declares b x → b = s

/-- The column of a property, where the markers in the list were open and the table holds the
others. -/
def columnAt (opened : List String) (table : Std.TreeMap String Schema) (x : String)
    (type : TypeRef) : Column :=
  ClassPart.columnOf names x type ((names.over? type).bind (pastOpen opened table))

/-- Marker `a` was built from what marker `b` was then, for `b` was not open. -/
def AsksPast (ancestors : String → List String) (a b : String) : Prop :=
  names.Asks a b ∧ b ∉ ancestors a

/-- Marker `a` was built with the columns of its supertype `b`. -/
def InheritsPast (ancestors : String → List String) (a b : String) : Prop :=
  names.Inherits a b ∧ b ∉ ancestors a

variable {names} {n s x : String} {origin type : TypeRef}

theorem Overrides.redeclares (h : names.Overrides n s x type) : names.Redeclares n s x type type where
  inherits := h.inherits
  origin := h.origin
  declares := h.declares
  same := h.same
  sole := h.sole

theorem asked?_eq_over? {p : PropertyDecl} (hst : p.isStored = true) (ht : p.type = some type) :
    (ClassPart.property p).asked? names = names.over? type := by
  rw [ClassPart.asked?, hst, ht, over?, Option.bind_some]
  cases (MarkerQuery.nested type).2 <;> rfl

theorem Originates.declaresAs (h : names.Originates n x type) : names.DeclaresAs n x type := by
  obtain ⟨c, p, hc, hp, ht⟩ := h
  have hfound := List.find?_some hp
  simp only [Bool.and_eq_true, beq_iff_eq] at hfound
  exact ⟨c, p, hc, List.mem_of_find?_eq_some hp, hfound.1.1, ht, hfound.2⟩

theorem Originates.unique {t : TypeRef} (h : names.Originates n x type)
    (h' : names.Originates n x t) : t = type := by
  obtain ⟨c, p, hc, hp, ht⟩ := h
  obtain ⟨d, q, hd, hq, ht'⟩ := h'
  obtain rfl := Option.some.inj (hc.symm.trans hd)
  obtain rfl := Option.some.inj (hp.symm.trans hq)
  exact Option.some.inj (ht'.symm.trans ht)

theorem DeclaresAs.declares (h : names.DeclaresAs n x type) : names.Declares n x := by
  obtain ⟨c, p, hc, hp, hst, ht, hx⟩ := h
  exact ⟨c, p, hc, hp, hst, Option.isSome_of_eq_some ht, hx⟩

/-- A marker asks for the marker of the rows that one of its columns holds. -/
theorem DeclaresAs.asks {j : String} (h : names.DeclaresAs n x type)
    (hj : names.over? type = some j) : names.Asks n j := by
  obtain ⟨c, p, hc, hp, hst, ht, -⟩ := h
  have hasked := (asked?_eq_over? hst ht).trans hj
  obtain ⟨-, -, -, -, -, -, hjs, -⟩ := ClassPart.asked?_property.1 hasked
  exact ⟨c, hc, ⟨.property p, List.mem_append_right _ (List.mem_map_of_mem hp), hasked⟩, hjs⟩

/-- The column of a property tells what was known of the marker of its rows. -/
theorem DeclaresAs.columnAt_ne {j : String} {opened opened' : List String}
    {table : Std.TreeMap String Schema} (h : names.DeclaresAs n x type)
    (hj : names.over? type = some j) (hne : pastOpen opened table j ≠ pastOpen opened' table j) :
    names.columnAt opened table x type ≠ names.columnAt opened' table x type := by
  obtain ⟨c, p, -, -, hst, ht, -⟩ := h
  have hasked := (asked?_eq_over? hst ht).trans hj
  rw [columnAt, columnAt, hj, Option.bind_some, Option.bind_some]
  exact (ClassPart.columnOf_injective x hasked ht).ne hne

theorem leads_of_inherits (h : Relation.TransGen names.Inherits n s) : names.Leads n s :=
  Relation.ReflTransGen.mono (fun _ _ => Inherits.asks) _ _ h.to_reflTransGen

theorem inherits_of_inheritsPast {A : String → List String} {n s : String}
    (h : Relation.TransGen (names.InheritsPast A) n s) : Relation.TransGen names.Inherits n s :=
  Relation.TransGen.mono (fun _ _ => And.left) _ _ h

instance decidableInherits : Decidable (names.Inherits n s) :=
  decidable_of_iff (((names.marker? n).any fun c => c.supertypes.any fun t =>
    t.simpleName == s && (names.marker? s).isSome) = true)
    (by simp [Inherits, Option.any_eq_true])

instance decidableDeclaresAs : Decidable (names.DeclaresAs n x type) :=
  decidable_of_iff (((names.marker? n).any fun c => c.properties.any fun p =>
    p.isStored && p.type == some type && p.columnName == x) = true)
    (by simp [DeclaresAs, Option.any_eq_true, and_assoc])

instance decidableOriginates : Decidable (names.Originates n x type) :=
  decidable_of_iff (((names.marker? n).any fun c => (c.first? x).any (·.type == some type)) = true)
    (by simp [Originates, Option.any_eq_true])

/-- A test for `Redeclares` where one marker inherits from one other. -/
def redeclaresTest (names : Resolution) (n s x : String) (origin type : TypeRef) : Bool :=
  (names.markers.toList.all fun r => r.2.supertypes.all fun t => r.1 == n && t.simpleName == s) &&
  ((names.marker? n).all fun c => c.properties.all fun p =>
    p.columnName != x || p.type == some type) &&
  decide (names.Inherits n s ∧ names.Originates s x origin ∧ names.DeclaresAs n x type)

theorem inherits_only_of_test (h : names.redeclaresTest n s x origin type = true) :
    names.Inherits n s ∧ ∀ a b, names.Inherits a b → a = n ∧ b = s := by
  simp only [redeclaresTest, Bool.and_eq_true, List.all_eq_true, beq_iff_eq,
    decide_eq_true_eq] at h
  obtain ⟨⟨hall, -⟩, hi, -⟩ := h
  refine ⟨hi, ?_⟩
  rintro a b ⟨d, t, hd, ht, rfl, -⟩
  exact hall (a, d) (Std.TreeMap.mem_toList_iff_getElem?_eq_some.2 hd) t ht

theorem Redeclares.of_test (h : names.redeclaresTest n s x origin type = true) :
    names.Redeclares n s x origin type := by
  obtain ⟨hi, honly⟩ := inherits_only_of_test h
  simp only [redeclaresTest, Bool.and_eq_true, Bool.or_eq_true, Option.all_eq_true,
    List.all_eq_true, beq_iff_eq, bne_iff_ne, decide_eq_true_eq] at h
  obtain ⟨⟨-, hsame⟩, -, horigin, hdeclares⟩ := h
  refine ⟨Relation.TransGen.single hi, horigin, hdeclares, ?_, fun b hb _ => ?_⟩
  · rintro t ⟨c, p, hc, hp, -, ht, hx⟩
    exact Option.some.inj (ht.symm.trans ((hsame c hc p hp).resolve_left fun hne => hne hx))
  · obtain ⟨c, -, hcb⟩ := Relation.TransGen.tail'_iff.1 hb
    exact (honly c b hcb).2

theorem Redeclares.overrides (h : names.Redeclares n s x type type) :
    names.Overrides n s x type where
  inherits := h.inherits
  origin := h.origin
  declares := h.declares
  same := h.same
  sole := h.sole

end Resolution

/-! ## Where columns come from -/

namespace ClassDecl

variable {names : Resolution} {known : String → Option Schema} {c : ClassDecl} {x : String}

/-- Of the entries of the properties the first with a name is that of the first property with it. -/
theorem find?_properties : ((c.properties.map ClassPart.property).flatMap
      (ClassPart.entriesIn names known c)).find? (·.column.name == x) =
    (c.first? x).bind fun p => p.type.map fun type =>
      ⟨p.nameSpan, ClassPart.columnOf names x type ((names.over? type).bind known)⟩ := by
  rw [first?]
  induction c.properties with
  | nil => rfl
  | cons p ps ih =>
    rw [List.map_cons, List.flatMap_cons, List.find?_append, ih, List.find?_cons]
    cases hst : p.isStored with
    | false => simp [ClassPart.entriesIn, ClassPart.entries, hst]
    | true =>
      cases ht : p.type with
      | none => simp [ClassPart.entriesIn, ClassPart.entries, ht]
      | some type =>
        have hentries : (ClassPart.property p).entriesIn names known c =
            [⟨p.nameSpan, ClassPart.columnOf names p.columnName type
              ((names.over? type).bind known)⟩] := by
          rw [← Resolution.asked?_eq_over? hst ht]
          simp [ClassPart.entriesIn, ClassPart.entries, hst, ht]
        rw [hentries]
        by_cases hx : p.columnName = x
        · subst hx
          simp [ClassPart.columnOf_name, ht]
        · simp [ClassPart.columnOf_name, beq_false_of_ne hx]

end ClassDecl

namespace Builds

variable {names : Resolution} {A : String → List String} {pending : List Failure} {m : Memo}

/-- What a marker was built from was not built from the marker. -/
theorem not_transGen_asksPast (h : Builds names A pending m) {n : String} (hn : n ∈ m.markers) :
    ¬Relation.TransGen (names.AsksPast A) n n := by
  refine h.induction (P := fun k => ¬Relation.TransGen (names.AsksPast A) k k) ?_ n hn
  intro k _ ih hk
  obtain ⟨b, hkb, hbk⟩ := Relation.TransGen.head'_iff.1 hk
  exact ih b hkb.1 hkb.2 (Relation.TransGen.tail' hbk hkb)

variable {k x : String} {c : ClassDecl} (h : Builds names A pending m)

include h

/-- The entries of a supertype are the columns that it is remembered with. -/
theorem exists_supertype {t : TypeRef} {e : Entry} (hc : names.marker? k = some c)
    (ht : t ∈ c.supertypes)
    (he : e ∈ (ClassPart.supertype t).entriesIn names (pastOpen (A k) m.markers) c) :
    ∃ b s, names.InheritsPast A k b ∧ m.markers[b]? = some s ∧
      s.lookup? e.column.name = some e.column := by
  obtain ⟨s, hs, d, hd, rfl⟩ := ClassPart.mem_entriesIn_supertype.1 he
  unfold pastOpen at hs
  split at hs
  · cases hs
  · rename_i hA
    have hm : t.simpleName ∈ m.markers :=
      Std.TreeMap.mem_iff_isSome_getElem?.2 (Option.isSome_of_eq_some hs)
    exact ⟨_, s, ⟨⟨c, t, hc, ht, rfl, h.isSome_of_mem hm⟩, hA⟩, hs,
      Schema.lookup?_of_mem (h.wellNamed hs).names_nodup hd⟩

/-- A column looks as the first property that declares it says where it is declared. -/
theorem exists_origin {s : Schema} {d : Column} (hs : m.markers[k]? = some s)
    (hd : s.lookup? x = some d) : ∃ b type, Relation.ReflTransGen (names.InheritsPast A) k b ∧
      names.Originates b x type ∧ d = names.columnAt (A b) m.markers x type := by
  have hk : k ∈ m.markers := Std.TreeMap.mem_iff_isSome_getElem?.2 (Option.isSome_of_eq_some hs)
  refine h.induction (P := fun k => ∀ s, m.markers[k]? = some s → s.lookup? x = some d →
    ∃ b type, Relation.ReflTransGen (names.InheritsPast A) k b ∧ names.Originates b x type ∧
      d = names.columnAt (A b) m.markers x type) ?_ k hk s hs hd
  intro k _ ih s hs hd
  obtain ⟨c, hc, rfl⟩ := h.declared hs
  rw [ClassDecl.schemaIn, Schema.lookup?_placed, Schema.empty_lookup?, Option.none_or,
    ClassDecl.entriesIn, ClassDecl.parts, List.flatMap_append, List.find?_append,
    Option.map_eq_some_iff] at hd
  obtain ⟨e, he, rfl⟩ := hd
  rcases Option.or_eq_some_iff.1 he with he | ⟨-, he⟩
  case inl =>
    have hx : e.column.name = x := by simpa using List.find?_some he
    have hmem := List.mem_of_find?_eq_some he
    simp only [List.flatMap_map, List.mem_flatMap] at hmem
    obtain ⟨t, ht, hmem⟩ := hmem
    obtain ⟨b, sb, hkb, hsb, hlookup⟩ := h.exists_supertype hc ht hmem
    obtain ⟨b', type, hbb', horigin, hcolumn⟩ :=
      ih b hkb.1.asks hkb.2 sb hsb (hx ▸ hlookup)
    exact ⟨b', type, Relation.ReflTransGen.head hkb hbb', horigin, hcolumn⟩
  case inr =>
    rw [ClassDecl.find?_properties, Option.bind_eq_some_iff] at he
    obtain ⟨p, hp, he⟩ := he
    obtain ⟨type, ht, rfl⟩ := Option.map_eq_some_iff.1 he
    exact ⟨k, type, Relation.ReflTransGen.refl, ⟨c, p, hc, hp, ht⟩, rfl⟩

/-- An entry of a class is that of a property of the class, or comes from the marker that was first
to declare the column. -/
theorem exists_origin_of_entry {e : Entry} (hc : names.marker? k = some c)
    (he : e ∈ c.entriesIn names (pastOpen (A k) m.markers)) (hx : e.column.name = x) :
    (∃ type, names.DeclaresAs k x type ∧ e.column = names.columnAt (A k) m.markers x type) ∨
      ∃ b type, Relation.TransGen (names.InheritsPast A) k b ∧ names.Originates b x type ∧
        e.column = names.columnAt (A b) m.markers x type := by
  rcases ClassDecl.mem_entriesIn.1 he with ⟨t, ht, he⟩ | ⟨p, hp, he⟩
  · obtain ⟨b, s, hkb, hs, hlookup⟩ := h.exists_supertype hc ht he
    obtain ⟨b', type, hbb', horigin, hcolumn⟩ := h.exists_origin hs (hx ▸ hlookup)
    exact Or.inr ⟨b', type, Relation.TransGen.head' hkb hbb', horigin, hcolumn⟩
  · obtain ⟨type, hst, ht, rfl⟩ := ClassPart.mem_entriesIn_property.1 he
    have hx := (ClassPart.columnOf_name ..).symm.trans hx
    refine Or.inl ⟨type, ⟨c, p, hc, hp, hst, ht, hx⟩, ?_⟩
    rw [Resolution.asked?_eq_over? hst ht, hx, Resolution.columnAt]

end Builds

/-! ## Conflicts -/

namespace Schema

theorem mem_clash?_iff {marker x : String} {s : Schema} {e : Entry} :
    (∃ f ∈ (s.clash? marker e).toList, f.error = .duplicateColumn x) ↔
      e.column.name = x ∧ ∃ known, s.lookup? x = some known ∧ known ≠ e.column := by
  unfold clash?
  by_cases hx : e.column.name = x
  · subst hx
    cases s.lookup? e.column.name with
    | none => simp
    | some known => by_cases hk : known = e.column <;> simp [hk]
  · simp only [hx, false_and, iff_false]
    rintro ⟨f, hf, herror⟩
    split at hf
    · cases hf
    · split at hf
      · rw [List.mem_singleton.1 hf] at herror
        exact hx (by simpa using herror)
      · cases hf

/-- A name is reported exactly if a column that is added under it is not the one that stands. -/
theorem exists_mem_clashes_iff {marker x : String} : ∀ {es : List Entry} {s : Schema},
    (∃ f ∈ s.clashes marker es, f.error = .duplicateColumn x) ↔
      ∃ e ∈ es, e.column.name = x ∧
        ∃ known, (s.placed es).lookup? x = some known ∧ known ≠ e.column
  | [], s => by simp [clashes]
  | e :: es, s => by
    simp only [clashes, placed, List.mem_append, or_and_right, exists_or, List.mem_cons,
      exists_eq_left, @exists_mem_clashes_iff marker x es, mem_clash?_iff]
    refine or_congr_left (and_congr_right fun hx => ?_)
    rw [lookup?_placed, lookup?_put, if_pos hx]
    cases s.lookup? x <;> simp

/-- A name is reported exactly if two of the columns that are added under it differ. -/
theorem exists_clash_iff {marker x : String} {es : List Entry} :
    (∃ f ∈ empty.clashes marker es, f.error = .duplicateColumn x) ↔
      ∃ e ∈ es, ∃ e' ∈ es, e.column.name = x ∧ e'.column.name = x ∧ e.column ≠ e'.column := by
  simp only [exists_mem_clashes_iff, lookup?_placed, empty_lookup?, Option.none_or,
    Option.map_eq_some_iff]
  constructor
  · rintro ⟨e, he, hx, _, ⟨first, hfirst, rfl⟩, hne⟩
    have hname : first.column.name = x := by simpa using List.find?_some hfirst
    exact ⟨first, List.mem_of_find?_eq_some hfirst, e, he, hname, hx, hne⟩
  · rintro ⟨e, he, e', he', hx, hx', hne⟩
    obtain ⟨first, hfirst⟩ := Option.isSome_iff_exists.1
      (List.find?_isSome (p := (·.column.name == x)).2 ⟨e, he, by simpa using hx⟩)
    by_cases hf : first.column = e.column
    · exact ⟨e', he', hx', _, ⟨first, hfirst, rfl⟩, hf ▸ hne⟩
    · exact ⟨e, he, hx, _, ⟨first, hfirst, rfl⟩, hf⟩

theorem subject_of_mem_clashes {marker : String} {f : Failure} : ∀ {es : List Entry} {s : Schema},
    f ∈ s.clashes marker es → f.subject = marker
  | [], _, h => nomatch h
  | e :: es, s, h => by
    rcases List.mem_append.1 h with h | h
    · unfold clash? at h
      split at h
      · cases h
      · split at h
        · rw [List.mem_singleton.1 h]
        · cases h
    · exact subject_of_mem_clashes h

end Schema

/-- A failure is recorded for marker `n` that says that the column `x` is declared twice. -/
def Memo.Conflicts (m : Memo) (n x : String) : Prop :=
  ∃ f ∈ m.markerFailures, f.subject = n ∧ f.error = .duplicateColumn x

namespace Builds

variable {names : Resolution} {A : String → List String} {m : Memo} {n s x : String}
  {type : TypeRef} (h : Builds names A [] m)

include h

/-- A marker that was built has a conflict exactly if two of its entries for the column differ. -/
theorem conflicts_iff (hnames : ∀ k c, names.marker? k = some c → c.name = k) :
    m.Conflicts n x ↔ n ∈ m.markers ∧ ∃ c, names.marker? n = some c ∧
      ∃ e ∈ c.entriesIn names (pastOpen (A n) m.markers),
        ∃ e' ∈ c.entriesIn names (pastOpen (A n) m.markers),
          e.column.name = x ∧ e'.column.name = x ∧ e.column ≠ e'.column := by
  obtain ⟨ks, -, hks, -, hp⟩ := h.built
  simp only [Memo.Conflicts, hp.mem_iff, List.append_nil, List.mem_flatMap, hks]
  constructor
  · rintro ⟨f, ⟨k, hk, hf⟩, hsubject, herror⟩
    unfold Resolution.conflicts at hf
    split at hf
    · rename_i c hc
      have hkn : k = n := by
        rw [← hsubject, Schema.subject_of_mem_clashes hf, hnames k c hc]
      subst hkn
      exact ⟨hk, c, hc, Schema.exists_clash_iff.1 ⟨f, hf, herror⟩⟩
    · cases hf
  · rintro ⟨hn, c, hc, hclash⟩
    obtain ⟨f, hf, herror⟩ := (@Schema.exists_clash_iff c.name _ _).2 hclash
    have hsubject := (Schema.subject_of_mem_clashes hf).trans (hnames n c hc)
    exact ⟨f, ⟨n, hn, by rwa [Resolution.conflicts, hc]⟩, hsubject, herror⟩

variable {origin : TypeRef} (hr : names.Redeclares n s x origin type)

include hr

/-- Each entry for the column is the inherited one or that of the marker itself. -/
theorem column_of_redeclares {c : ClassDecl} {e : Entry} (hc : names.marker? n = some c)
    (he : e ∈ c.entriesIn names (pastOpen (A n) m.markers)) (hx : e.column.name = x) :
    e.column = names.columnAt (A n) m.markers x type ∨
      Relation.TransGen (names.InheritsPast A) n s ∧
        e.column = names.columnAt (A s) m.markers x origin := by
  rcases h.exists_origin_of_entry hc he hx with ⟨t, ht, hcolumn⟩ | ⟨b, t, hnb, ht, hcolumn⟩
  · exact Or.inl (hr.same t ht ▸ hcolumn)
  · have hbs := hr.sole b (Resolution.inherits_of_inheritsPast hnb) ht.declaresAs.declares
    subst hbs
    exact Or.inr ⟨hnb, hr.origin.unique ht ▸ hcolumn⟩

omit hr in
theorem mem_of_inheritsPast (hn : n ∈ m.markers)
    (hns : Relation.TransGen (names.InheritsPast A) n s) : s ∈ m.markers := by
  induction hns with
  | single hns => exact h.closed hn hns.1.asks hns.2
  | tail _ hbs hb => exact h.closed hb hbs.1.asks hbs.2

/-- If the marker of the nested rows is the one that inherits, or does not lead to the supertype,
it is known to the supertype as it is to the marker that inherits. -/
theorem pastOpen_eq (hn : n ∈ m.markers) {j : String} (hover : names.over? origin = some j)
    (hj : j = n ∨ ¬names.Leads j s) (hns : Relation.TransGen (names.InheritsPast A) n s) :
    pastOpen (A n) m.markers j = pastOpen (A s) m.markers j := by
  rcases hj with rfl | hl
  · -- Otherwise the supertype was built from the marker, and this from the supertype.
    have hA : j ∈ A s := by
      by_contra hA
      have hback : names.AsksPast A s j := ⟨hr.origin.declaresAs.asks hover, hA⟩
      refine h.not_transGen_asksPast hn (Relation.TransGen.tail ?_ hback)
      exact Relation.TransGen.mono (fun _ _ hab => ⟨hab.1.asks, hab.2⟩) _ _ hns
    simp [pastOpen, h.self hn, hA]
  · have hA : j ∉ A s := fun hA => hl (h.leads (h.mem_of_inheritsPast hn hns) hA)
    have hA' : j ∉ A n := fun hA' =>
      hl ((h.leads hn hA').trans (Resolution.leads_of_inherits hr.inherits))
    simp [pastOpen, hA, hA']

theorem columnAt_eq (hn : n ∈ m.markers) (hover : names.over? type = names.over? origin)
    (hcolumn : ∀ children, ClassPart.columnOf names x type children =
      ClassPart.columnOf names x origin children)
    (hj : ∀ j ∈ names.over? origin, j = n ∨ ¬names.Leads j s)
    (hns : Relation.TransGen (names.InheritsPast A) n s) :
    names.columnAt (A n) m.markers x type = names.columnAt (A s) m.markers x origin := by
  unfold Resolution.columnAt
  rw [hover, hcolumn]
  cases horigin : names.over? origin with
  | none => rfl
  | some j =>
    rw [Option.bind_some, Option.bind_some, h.pastOpen_eq hr hn horigin (hj j horigin) hns]

/-- There is no conflict where the two columns are the same and see the same of the marker of the
nested rows. -/
theorem not_conflicts (hnames : ∀ k c, names.marker? k = some c → c.name = k)
    (hover : names.over? type = names.over? origin)
    (hcolumn : ∀ children, ClassPart.columnOf names x type children =
      ClassPart.columnOf names x origin children)
    (hj : ∀ j ∈ names.over? origin, j = n ∨ ¬names.Leads j s) : ¬m.Conflicts n x := by
  intro hconflicts
  obtain ⟨hn, c, hc, e, he, e', he', hx, hx', hne⟩ := (h.conflicts_iff hnames).1 hconflicts
  have hown : ∀ e ∈ c.entriesIn names (pastOpen (A n) m.markers), e.column.name = x →
      e.column = names.columnAt (A n) m.markers x type := by
    intro e he hx
    rcases h.column_of_redeclares hr hc he hx with heq | ⟨hns, heq⟩
    · exact heq
    · exact heq.trans (h.columnAt_eq hr hn hover hcolumn hj hns).symm
  exact hne ((hown e he hx).trans (hown e' he' hx').symm)

omit hr in
/-- What was built from a marker has the columns that this declares. -/
theorem mem_names_of_inheritsPast {b : String} (hx : names.Declares s x)
    (hbs : Relation.ReflTransGen (names.InheritsPast A) b s) :
    ∀ {schema}, m.markers[b]? = some schema → x ∈ schema.names := by
  induction hbs using Relation.ReflTransGen.head_induction_on with
  | refl => exact fun hs => (h.mem_names_iff hs).2 (Or.inl hx)
  | head hab _ ih =>
    intro schema hs
    have ha := Std.TreeMap.mem_iff_isSome_getElem?.2 (Option.isSome_of_eq_some hs)
    have hb := Std.TreeMap.getElem?_eq_some_getElem (h.closed ha hab.1.asks hab.2)
    exact (h.mem_names_iff hs).2 (Or.inr ⟨_, _, hab.1, hab.2, hb, ih hb⟩)

/-- A supertype that was built before gives its column, as it looks there. -/
theorem exists_inherited_entry {c : ClassDecl} (hc : names.marker? n = some c)
    (hn : n ∈ m.markers) (hns : Relation.TransGen (names.InheritsPast A) n s) :
    ∃ e ∈ c.entriesIn names (pastOpen (A n) m.markers), e.column.name = x ∧
      e.column = names.columnAt (A s) m.markers x origin := by
  obtain ⟨b, hnb, hbs⟩ := Relation.TransGen.head'_iff.1 hns
  obtain ⟨schema, hb⟩ : ∃ schema, m.markers[b]? = some schema :=
    ⟨_, Std.TreeMap.getElem?_eq_some_getElem (h.closed hn hnb.1.asks hnb.2)⟩
  have hx := h.mem_names_of_inheritsPast hr.origin.declaresAs.declares hbs hb
  obtain ⟨d, hd⟩ := Option.isSome_iff_exists.1 (Schema.mem_names.1 hx)
  obtain ⟨k, t, hbk, horigin, hcolumn⟩ := h.exists_origin hb hd
  have hks : k = s := hr.sole k (Resolution.inherits_of_inheritsPast
    (Relation.TransGen.head' hnb hbk)) horigin.declaresAs.declares
  subst hks
  obtain rfl := hr.origin.unique horigin
  obtain ⟨⟨c', t', hc', ht', rfl, -⟩, hbA⟩ := hnb
  obtain rfl := Option.some.inj (hc.symm.trans hc')
  refine ⟨⟨c.nameSpan, d⟩, ClassDecl.mem_entriesIn.2 (Or.inl ⟨t', ht',
    ClassPart.mem_entriesIn_supertype.2 ⟨_, ?_, d, Schema.mem_of_lookup? hd, rfl⟩⟩),
    Schema.name_of_lookup? hd, hcolumn⟩
  rw [pastOpen, if_neg hbA, hb]

/-- A supertype that was built before is a conflict if its column looks otherwise. -/
theorem conflicts_of_ne (hnames : ∀ k c, names.marker? k = some c → c.name = k)
    (hn : n ∈ m.markers) (hns : Relation.TransGen (names.InheritsPast A) n s)
    (hne : names.columnAt (A n) m.markers x type ≠ names.columnAt (A s) m.markers x origin) :
    m.Conflicts n x := by
  obtain ⟨c, p, hc, hp, hst, ht, hx⟩ := hr.declares
  obtain ⟨e, he, hex, hcolumn⟩ := h.exists_inherited_entry hr hc hn hns
  refine (h.conflicts_iff hnames).2 ⟨hn, c, hc, _, ClassDecl.mem_entriesIn.2 (Or.inr ⟨p, hp,
    ClassPart.mem_entriesIn_property.2 ⟨type, hst, ht, rfl⟩⟩), e, he,
    (ClassPart.columnOf_name ..).trans hx, hex, ?_⟩
  rwa [hcolumn, hx, Resolution.asked?_eq_over? hst ht]

omit hr in
/-- The supertype was built while the marker of the nested rows was open, and the override was
not. -/
theorem conflicts_of_mem_ancestors (ho : names.Overrides n s x type)
    (hnames : ∀ k c, names.marker? k = some c → c.name = k)
    (hn : n ∈ m.markers) (hns : names.InheritsPast A n s) {j : String}
    (hj : names.over? type = some j) (hjs : j ∈ A s) (hjn : j ∉ A n) : m.Conflicts n x := by
  refine h.conflicts_of_ne ho.redeclares hnames hn (.single hns) (ho.declares.columnAt_ne hj ?_)
  have hjm := h.closed hn (ho.declares.asks hj) hjn
  rw [pastOpen, pastOpen, if_neg hjn, if_pos hjs, Std.TreeMap.getElem?_eq_some_getElem hjm]
  exact Option.some_ne_none _

end Builds

/-! ## Overrides behind any questions -/

namespace Program

variable {p : Program}

/-- The memo behind the questions for `j` and then `n`, which `j` does not lead to : marker `n` has no
other ancestor, and all that `j` leads to has the ancestor `j`. -/
theorem exists_reached_by_markers {j n : String} (hj : (p.names.marker? j).isSome)
    (hn : (p.names.marker? n).isSome) (hjn : ¬p.names.Leads j n) :
    ∃ A m, p.Reached m ∧ Builds p.names A [] m ∧ n ∈ m.markers ∧ A n = [n] ∧
      ∀ k, p.names.Leads j k → j ∈ A k := by
  obtain ⟨_, A₁, _, m₁, -, hm₁, -, hs₁, ho₁, hans₁⟩ := markerSchema_reached (Reached.empty p) hj
  obtain ⟨A₂, m₂, hrun₂, hans₂⟩ := p.markerSchema_run hans₁.builds ho₁ n
  have hunder : ∀ {k}, k ∈ m₁.markers → j ∈ A₁ k := hans₁.under (by simp [Memo.empty])
  have hn₁ : n ∉ m₁.markers := fun hnm => hjn (hans₁.builds.leads hnm (hunder hnm))
  have hn₂ : n ∈ m₂.markers := hans₂.mem (hans₂.grown.openMarkers.trans ho₁) hn
  refine ⟨A₂, m₂, hm₁.markerSchema hrun₂, hans₂.builds, hn₂, ho₁ ▸ hans₂.own hn₁ hn₂, ?_⟩
  intro k hk
  have hjm : j ∈ m₁.markers := Std.TreeMap.mem_iff_isSome_getElem?.2 (Option.isSome_of_eq_some hs₁)
  have hkm := hans₁.builds.mem_of_leads ho₁ hk hjm
  rw [hans₂.grown.same hkm]
  exact hunder hkm

section

variable {u : SourceUnit} {n s x : String} {type : TypeRef}
  (ho : (ofUnit u).names.Overrides n s x type)

include ho

theorem not_conflicts (hj : ∀ j ∈ (ofUnit u).names.over? type,
    j = n ∨ ¬(ofUnit u).names.Leads j s) {m : Memo} (hm : (ofUnit u).Reached m) :
    ¬m.Conflicts n x := by
  obtain ⟨A, h⟩ := hm.steady.builds
  exact h.not_conflicts ho.redeclares (fun _ _ => Resolution.name_of_marker?) rfl (fun _ => rfl) hj

theorem exists_conflicts (hi : (ofUnit u).names.Inherits n s) (hns : n ≠ s) {j : String}
    (hj : (ofUnit u).names.over? type = some j) (hjs : (ofUnit u).names.Leads j s)
    (hjn : j = s ∨ ¬(ofUnit u).names.Leads j n) : ∃ m, (ofUnit u).Reached m ∧ m.Conflicts n x := by
  have hn := hi.asks.isSome_left
  have hnames : ∀ k c, (ofUnit u).names.marker? k = some c → c.name = k :=
    fun _ _ => Resolution.name_of_marker?
  rcases hjn with rfl | hjn
  · -- The inheriting marker is asked for, and opens the supertype.
    obtain ⟨A, m, hm, h, hA, hall⟩ := exists_reached_by_marker hn
    have hjA : j ∉ A n := by simpa [hA] using Ne.symm hns
    exact ⟨m, hm, h.conflicts_of_mem_ancestors ho hnames (hall n Relation.ReflTransGen.refl).1
      ⟨hi, hjA⟩ hj (h.self (hall j hi.asks.leads).1) hjA⟩
  · -- The marker of the nested rows is asked for, which opens the supertype inside of it.
    obtain ⟨A, m, hm, h, hnm, hA, hall⟩ :=
      exists_reached_by_markers (ho.declares.asks hj).isSome_right hn hjn
    have hsA : s ∉ A n := by simpa [hA] using Ne.symm hns
    have hjA : j ∉ A n := by
      rw [hA, List.mem_singleton]
      rintro rfl
      exact hjn Relation.ReflTransGen.refl
    exact ⟨m, hm, h.conflicts_of_mem_ancestors ho hnames hnm ⟨hi, hsA⟩ hj (hall s hjs) hjA⟩

end

/-- A marker declares once more, with the same type, a column that it inherits. There is no
conflict behind any questions if the marker of the nested rows is the marker itself or does not lead
to the supertype. There is one behind some questions if it leads to the supertype, which the marker
lists, and is the supertype itself or does not lead to the marker. -/
theorem conflicts_of_overrides (u : SourceUnit) {n s x : String} {type : TypeRef}
    (ho : (ofUnit u).names.Overrides n s x type) :
    ((∀ j ∈ (ofUnit u).names.over? type, j = n ∨ ¬(ofUnit u).names.Leads j s) →
      ∀ m, (ofUnit u).Reached m → ¬m.Conflicts n x) ∧
    ((ofUnit u).names.Inherits n s → n ≠ s → ∀ j ∈ (ofUnit u).names.over? type,
      (ofUnit u).names.Leads j s → (j = s ∨ ¬(ofUnit u).names.Leads j n) →
      ∃ m, (ofUnit u).Reached m ∧ m.Conflicts n x) :=
  ⟨fun hj _ hm => not_conflicts ho hj hm,
    fun hi hns _ hj hjs hjn => exists_conflicts ho hi hns hj hjs hjn⟩

/-- A marker whose rows hold rows of itself, and one that inherits from it and declares the columns
once more. -/
def nodesText : String :=
  "@DataSchema\ninterface Tag \x7b\n    val label: String\n\x7d\n" ++
  "@DataSchema\ninterface Node \x7b\n    val parts: DataFrame<Node>\n" ++
  "    val tags: DataFrame<Tag>\n\x7d\n" ++
  "@DataSchema\ninterface Leaf : Node \x7b\n    override val parts: DataFrame<Node>\n" ++
  "    override val tags: DataFrame<Tag>\n\x7d\n"

/-- Frames of rows of a marker. -/
def framesOf (marker : String) : TypeRef := ⟨"DataFrame", [⟨marker, [], false⟩], false⟩

/-- What is declared in `nodesText`. -/
theorem overrides_nodesText : ∃ u, SourceUnit.ofText nodesText = .ok u ∧
    (∀ a b, (ofUnit u).names.Inherits a b → a = "Leaf" ∧ b = "Node") ∧
    (ofUnit u).names.Inherits "Leaf" "Node" ∧
    (ofUnit u).names.Overrides "Leaf" "Node" "parts" (framesOf "Node") ∧
    (ofUnit u).names.Overrides "Leaf" "Node" "tags" (framesOf "Tag") ∧
    (ofUnit u).names.over? (framesOf "Node") = some "Node" ∧
    (ofUnit u).names.over? (framesOf "Tag") = some "Tag" ∧
    (∀ b, ¬(ofUnit u).names.Asks "Tag" b) ∧
    ∃ r m, (ofUnit u).markerSchema "Leaf" Memo.empty = some (r, m) ∧ m.Conflicts "Leaf" "parts" := by
  obtain ⟨u, hu, h⟩ : ∃ u, SourceUnit.ofText nodesText = .ok u ∧
      ((ofUnit u).names.redeclaresTest "Leaf" "Node" "parts" (framesOf "Node") (framesOf "Node") &&
      (ofUnit u).names.redeclaresTest "Leaf" "Node" "tags" (framesOf "Tag") (framesOf "Tag") &&
      (((ofUnit u).names.marker? "Tag").all fun c => c.parts.all fun part =>
        part.asked? (ofUnit u).names == none) &&
      decide ((ofUnit u).names.over? (framesOf "Node") = some "Node" ∧
        (ofUnit u).names.over? (framesOf "Tag") = some "Tag") &&
      ((ofUnit u).markerSchema "Leaf" Memo.empty).any fun r => r.2.markerFailures.any fun f =>
        decide (f.subject = "Leaf" ∧ f.error = .duplicateColumn "parts")) = true := by
    refine SourceUnit.exists_ofText (Token.eq_ofList_append (Token.eq_ofList_append
      (Token.eq_ofList_append (Token.eq_ofList_append rfl rfl) rfl) rfl) rfl) ?_
    decide +kernel
  simp only [Bool.and_eq_true, Option.any_eq_true, Option.all_eq_true, List.any_eq_true,
    List.all_eq_true, beq_iff_eq, decide_eq_true_eq] at h
  obtain ⟨⟨⟨⟨hparts, htags⟩, htag⟩, hnode, htag'⟩, ⟨r, m⟩, hrun, f, hf, hconflict⟩ := h
  obtain ⟨hi, honly⟩ := Resolution.inherits_only_of_test hparts
  refine ⟨u, hu, honly, hi, (Resolution.Redeclares.of_test hparts).overrides,
    (Resolution.Redeclares.of_test htags).overrides, hnode, htag', ?_, r, m, hrun, f, hf, hconflict⟩
  rintro b ⟨c, hc, ⟨part, hpart, hasked⟩, -⟩
  simp [htag c hc part hpart] at hasked

/-- In `nodesText` the frames of tags are never a conflict, and those of nodes are one behind some
questions. -/
theorem conflicts_of_overrides_nodesText : ∃ u, SourceUnit.ofText nodesText = .ok u ∧
    (ofUnit u).names.Overrides "Leaf" "Node" "tags" (framesOf "Tag") ∧
    (ofUnit u).names.Overrides "Leaf" "Node" "parts" (framesOf "Node") ∧
    (∀ m, (ofUnit u).Reached m → ¬m.Conflicts "Leaf" "tags") ∧
    ∃ m, (ofUnit u).Reached m ∧ m.Conflicts "Leaf" "parts" := by
  obtain ⟨u, hu, -, hi, hparts, htags, hnode, htag, hasks, -⟩ := overrides_nodesText
  refine ⟨u, hu, htags, hparts, (conflicts_of_overrides u htags).1 fun j hj => Or.inr ?_,
    (conflicts_of_overrides u hparts).2 hi (by decide) "Node" hnode Relation.ReflTransGen.refl
      (Or.inl rfl)⟩
  obtain rfl := Option.some.inj (htag.symm.trans hj)
  intro hl
  obtain ⟨b, hb, -⟩ := Resolution.exists_asks_of_leads hl (by decide)
  exact hasks b hb

/-- No marker inherits from itself there, and the question for the inheriting marker alone records a
conflict for a column that it declares once more with the same type. -/
theorem conflicts_nodesText : ∃ u, SourceUnit.ofText nodesText = .ok u ∧
    (∀ n, ¬Relation.TransGen (ofUnit u).names.Inherits n n) ∧
    (ofUnit u).names.Overrides "Leaf" "Node" "parts" (framesOf "Node") ∧
    ∃ m, (ofUnit u).Reached m ∧ m.Conflicts "Leaf" "parts" := by
  obtain ⟨u, hu, honly, -, hparts, -, -, -, -, r, m, hrun, hconflict⟩ := overrides_nodesText
  refine ⟨u, hu, fun n hn => ?_, hparts, m, (Reached.empty _).markerSchema hrun, hconflict⟩
  obtain ⟨b, hb, -⟩ := Relation.TransGen.head'_iff.1 hn
  obtain ⟨c, -, hc⟩ := Relation.TransGen.tail'_iff.1 hn
  exact absurd ((honly n b hb).1.symm.trans (honly c n hc).2) (by decide)

end Program

end FrameCheck
