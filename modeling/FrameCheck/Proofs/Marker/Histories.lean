import FrameCheck.Proofs.Marker.Inheritance

/-!
# Whether the schema of a marker depends on what was asked before

A schema that was built while other markers were open is remembered for good. Where no two of
the markers in sight lead to each other, none of those that were open is mentioned, and the
schema is the same behind any questions. Otherwise it may not be : if marker `a` asks for
marker `c`, which leads back to it, then `a` has the schema of `c` where `a` is asked for
first, and has it not where `c` is. Such a difference is seen in `a` if a column of `a` tells
(`Resolution.Reveals`), and from there in all that hold rows of `a` (`Resolution.Shows`).

* `Program.independent_markerSchema` : when the answer is the same behind any questions.
-/

namespace FrameCheck

namespace Resolution

variable (names : Resolution)

/-- Column `x` of marker `a` holds rows of marker `b`. -/
def Holds (a b x : String) : Prop :=
  (∀ t, names.Inherits a t → ¬names.Carries t x) ∧ ∃ c pre p post, names.marker? a = some c ∧
    c.properties = pre ++ p :: post ∧
    (∀ q ∈ pre, q.isStored = true → q.type.isSome = true → q.columnName ≠ x) ∧
    p.columnName = x ∧ (ClassPart.property p).asked? names = some b

/-- A column of marker `a` holds rows of another marker `b`. -/
def Shows (a b : String) : Prop := b ≠ a ∧ ∃ x, names.Holds a b x

/-- A column of marker `a` tells whether the schema of marker `c` was known to `a`. -/
def Reveals (a c : String) : Prop :=
  ∃ x, names.Holds a c x ∨ (names.Sole a c x ∧ names.Declares c x)

/-- Two different markers lead to each other. -/
def Mutual (a b : String) : Prop := a ≠ b ∧ names.Leads a b ∧ names.Leads b a

variable {names}

theorem Mutual.symm {a b : String} (h : names.Mutual a b) : names.Mutual b a :=
  ⟨h.1.symm, h.2.2, h.2.1⟩

theorem Holds.asks {a b x : String} (h : names.Holds a b x) : names.Asks a b := by
  obtain ⟨-, c, pre, p, post, hc, hp, -, -, ha⟩ := h
  refine ⟨c, hc, ⟨.property p, List.mem_append_right _ (List.mem_map_of_mem ?_), ha⟩, ?_⟩
  · simp [hp]
  · obtain ⟨-, -, -, -, -, -, hb, -⟩ := ClassPart.asked?_property.1 ha
    exact hb

end Resolution

namespace Builds

variable {names : Resolution} {A A' : String → List String} {pending pending' : List Failure}
  {m m' : Memo}

theorem getElem?_eq_none (h : Builds names A pending m) {n : String}
    (hn : names.marker? n = none) : m.markers[n]? = none :=
  Std.TreeMap.getElem?_eq_none fun hnm => by simpa [hn] using h.isSome_of_mem hnm

/-- Where a marker is in no way led back to, an ancestor that it asks for is the marker itself. -/
theorem eq_of_mem_ancestors (h : Builds names A pending m) {j k : String}
    (hk : ∀ b, ¬names.Mutual b k) (hm : k ∈ m.markers) (hkj : names.Asks k j) (hj : j ∈ A k) :
    j = k := by
  by_contra hne
  exact hk j ⟨hne, h.leads hm hj, hkj.leads⟩

/-- Two memos tell the class of a marker the same, if they have the same schemas of what it asks
for, and nothing of this leads back to it. -/
theorem entriesIn_eq (h : Builds names A pending m) (h' : Builds names A' pending' m')
    {k : String} (hn : ∀ b, ¬names.Mutual b k) (hk : k ∈ m.markers) (hk' : k ∈ m'.markers)
    (hasks : ∀ j, names.Asks k j → j ∉ A k → m.markers[j]? = m'.markers[j]?) {c : ClassDecl}
    (hc : names.marker? k = some c) : c.entriesIn names (pastOpen (A k) m.markers) =
      c.entriesIn names (pastOpen (A' k) m'.markers) := by
  refine ClassDecl.entriesIn_congr fun part hp j hj => ?_
  cases hjs : names.marker? j with
  | none => simp [pastOpen, h.getElem?_eq_none hjs, h'.getElem?_eq_none hjs]
  | some _ =>
    have hkj : names.Asks k j := ⟨c, hc, ⟨part, hp, hj⟩, by simp [hjs]⟩
    by_cases hjk : j = k
    · subst hjk
      simp [pastOpen, h.self hk, h'.self hk']
    · have hjA : j ∉ A k := fun hjA => hjk (h.eq_of_mem_ancestors hn hk hkj hjA)
      have hjA' : j ∉ A' k := fun hjA => hjk (h'.eq_of_mem_ancestors hn hk' hkj hjA)
      rw [pastOpen, pastOpen, if_neg hjA, if_neg hjA']
      exact hasks j hkj hjA

/-- Where no two markers lead to each other, what is remembered is remembered of all alike. -/
theorem markers_eq (h : Builds names A pending m) (h' : Builds names A' pending' m')
    (ho' : m'.openMarkers = []) {n : String} (hn : ∀ a b, names.Leads n a → ¬names.Mutual b a)
    (hm : n ∈ m.markers) (hm' : n ∈ m'.markers) : m.markers[n]? = m'.markers[n]? := by
  refine h.induction (P := fun k => names.Leads n k → m.markers[k]? = m'.markers[k]?) ?_ n hm
    Relation.ReflTransGen.refl
  intro k hk ih hl
  have hk' := h'.mem_of_leads ho' hl hm'
  obtain ⟨c, hc, hs⟩ := h.declared (Std.TreeMap.getElem?_eq_some_getElem hk)
  obtain ⟨d, hd, hs'⟩ := h'.declared (Std.TreeMap.getElem?_eq_some_getElem hk')
  obtain rfl := Option.some.inj (hc.symm.trans hd)
  have hentries := h.entriesIn_eq h' (fun b => hn k b hl) hk hk'
    (fun j hkj hjA => ih j hkj hjA (hl.trans hkj.leads)) hc
  rw [Std.TreeMap.getElem?_eq_some_getElem hk, Std.TreeMap.getElem?_eq_some_getElem hk', hs, hs',
    ClassDecl.schemaIn, ClassDecl.schemaIn, hentries]

/-- Where no two markers lead to each other, the failures depend on what is built alone. -/
theorem markerFailures_perm (h : Builds names A [] m) (h' : Builds names A' [] m')
    (ho' : m'.openMarkers = []) (hn : ∀ a b, ¬names.Mutual a b)
    (hmem : ∀ k, k ∈ m.markers ↔ k ∈ m'.markers) : m.markerFailures.Perm m'.markerFailures := by
  obtain ⟨ks, hks, hkm, -, hp⟩ := h.built
  obtain ⟨ks', hks', hkm', -, hp'⟩ := h'.built
  have hperm : ks.Perm ks' :=
    (List.perm_ext_iff_of_nodup hks hks').2 fun k => by rw [hkm, hkm', hmem]
  rw [List.append_nil] at hp hp'
  refine hp.trans (List.Perm.trans ?_ hp'.symm)
  refine (hperm.flatMap_right _).trans (List.Perm.of_eq ?_)
  refine List.flatMap_congr fun k hk => ?_
  have hk' := (hkm' k).1 hk
  have hkm := (hmem k).2 hk'
  cases hc : names.marker? k with
  | none => simp [Resolution.conflicts, hc]
  | some c =>
    have hasks : ∀ j, names.Asks k j → j ∉ A k → m.markers[j]? = m'.markers[j]? := fun j hkj hj =>
      have hjm := h.closed hkm hkj hj
      h.markers_eq h' ho' (fun a b _ => hn b a) hjm ((hmem j).1 hjm)
    simp only [Resolution.conflicts, hc, ClassDecl.conflictsIn]
    rw [h.entriesIn_eq h' (fun b => hn b k) hkm hk' hasks hc]

end Builds

/-! ## What a column tells -/

namespace ClassPart

variable {names : Resolution}

/-- The column of a property over a marker tells what was known of the marker. -/
theorem columnOf_injective {p : PropertyDecl} {type : TypeRef} {b : String} (name : String)
    (hb : (property p).asked? names = some b) (ht : p.type = some type) :
    Function.Injective (columnOf names name type) := by
  obtain ⟨-, type', kind, marker, ht', hn, hm, rfl⟩ := asked?_property.1 hb
  obtain rfl := Option.some.inj (ht.symm.trans ht')
  intro r r' h
  simp only [columnOf, hn, hm, if_true] at h
  have hc := congrArg Column.content h
  cases kind <;> cases r <;> cases r' <;>
    simp_all [MarkerQuery.nestedColumn, Column.ofGroup, Column.ofFrames, Column.withNullable]

end ClassPart

namespace Resolution

variable {names : Resolution}

/-- A column that holds rows of a marker tells what was known of the marker. -/
theorem Holds.exists_column {a b x : String} (hx : names.Holds a b x) :
    ∃ f : Option Schema → Column, Function.Injective f ∧
      ∀ {A pending m s}, Builds names A pending m → m.markers[a]? = some s →
        s.lookup? x = some (f (pastOpen (A a) m.markers b)) := by
  obtain ⟨hinherited, c, pre, p, post, hc, hproperties, hpre, rfl, ha⟩ := hx
  obtain ⟨hst, type, -, -, ht, -, -, -⟩ := ClassPart.asked?_property.1 ha
  refine ⟨ClassPart.columnOf names p.columnName type,
    ClassPart.columnOf_injective p.columnName ha ht, fun {A pending m s} h hs => ?_⟩
  obtain ⟨d, hd, rfl⟩ := h.declared hs
  obtain rfl := Option.some.inj (hc.symm.trans hd)
  let known := pastOpen (A a) m.markers
  have hsupertypes : ∀ e ∈ (c.supertypes.map ClassPart.supertype).flatMap
      (ClassPart.entriesIn names known c), e.column.name ≠ p.columnName := by
    simp only [List.flatMap_map, List.mem_flatMap, ClassPart.mem_entriesIn_supertype]
    rintro _ ⟨t, ht, s, hs, d, hd, rfl⟩ hname
    simp only [known, pastOpen] at hs
    split at hs
    · simp at hs
    · have htm : t.simpleName ∈ m.markers := Std.TreeMap.mem_iff_isSome_getElem?.2 (by simp [hs])
      exact hinherited _ ⟨c, t, hc, ht, rfl, h.isSome_of_mem htm⟩
        (h.carries hs (List.mem_map.2 ⟨d, hd, hname⟩))
  have hbefore : ∀ e ∈ (pre.map ClassPart.property).flatMap
      (ClassPart.entriesIn names known c), e.column.name ≠ p.columnName := by
    simp only [List.flatMap_map, List.mem_flatMap, ClassPart.mem_entriesIn_property]
    rintro _ ⟨q, hq, type', hst', ht', rfl⟩
    rw [ClassPart.columnOf_name]
    exact hpre q hq hst' (by simp [ht'])
  have hown : (ClassPart.property p).entriesIn names known c =
      [⟨p.nameSpan, ClassPart.columnOf names p.columnName type (known b)⟩] := by
    simp [ClassPart.entriesIn, ClassPart.entries, hst, ht, ha]
  rw [ClassDecl.schemaIn, Schema.lookup?_placed, Schema.empty_lookup?, Option.none_or,
    ClassDecl.entriesIn, ClassDecl.parts, hproperties]
  simp only [List.map_append, List.map_cons, List.flatMap_append, List.flatMap_cons]
  rw [List.find?_append, List.find?_eq_none.2 (by simpa using hsupertypes), Option.none_or,
    List.find?_append, List.find?_eq_none.2 (by simpa using hbefore), Option.none_or, hown]
  simp [ClassPart.columnOf_name, known]

end Resolution

/-! ## Ways through the graph -/

namespace Resolution

variable {names : Resolution}

theorem Shows.reveals {a b : String} (h : names.Shows a b) : names.Reveals a b := by
  obtain ⟨-, x, hx⟩ := h
  exact ⟨x, Or.inl hx⟩

theorem Reveals.asks {a c : String} (h : names.Reveals a c) : names.Asks a c := by
  obtain ⟨x, hx | ⟨hx, -⟩⟩ := h
  · exact hx.asks
  · exact hx.1.asks

theorem Asks.isSome_left {a b : String} (h : names.Asks a b) : (names.marker? a).isSome := by
  obtain ⟨c, hc, -⟩ := h
  simp [hc]

theorem Asks.isSome_right {a b : String} (h : names.Asks a b) : (names.marker? b).isSome := by
  obtain ⟨-, -, -, hb⟩ := h
  exact hb

/-- A way to another marker starts with a step to another marker. -/
theorem exists_asks_of_leads {a b : String} (h : names.Leads a b) (hab : a ≠ b) :
    ∃ c, names.Asks a c ∧ c ≠ a ∧ names.Leads c b := by
  induction h using Relation.ReflTransGen.head_induction_on with
  | refl => exact absurd rfl hab
  | head hac hcb ih =>
    rename_i a c
    by_cases hca : c = a
    · subst hca
      exact ih hab
    · exact ⟨c, hac, hca, hcb⟩

/-- Where all steps to other markers are shown, all that is led to is shown. -/
theorem shows_of_leads {n a : String} (h : names.Leads n a)
    (hs : ∀ b c, names.Leads n b → names.Asks b c → c ≠ b → names.Shows b c) :
    Relation.ReflTransGen names.Shows n a := by
  induction h with
  | refl => exact Relation.ReflTransGen.refl
  | tail hnb hbc ih =>
    rename_i b c
    by_cases hcb : c = b
    · exact hcb ▸ ih
    · exact ih.tail (hs b c hnb hbc hcb)

end Resolution

/-! ## Answers behind different questions -/

namespace Program

variable {p : Program}

/-- The schema of marker `n` is the same behind any questions. -/
def Independent (p : Program) (n : String) : Prop :=
  ∃ r, ∀ m, p.Reached m → ∃ m', p.markerSchema n m = some (r, m')

/-- Two memos that questions have left remember different schemas of marker `n`. -/
def Distinguished (p : Program) (n : String) : Prop :=
  ∃ m m' : Memo, ∃ s s' : Schema, p.Reached m ∧ p.Reached m' ∧ m.markers[n]? = some s ∧
    m'.markers[n]? = some s' ∧ s ≠ s'

theorem Distinguished.not_independent {n : String} (h : p.Distinguished n) :
    ¬p.Independent n := by
  rintro ⟨r, hr⟩
  obtain ⟨m, m', s, s', hm, hm', hs, hs', hne⟩ := h
  obtain ⟨_, h⟩ := hr m hm
  obtain ⟨_, h'⟩ := hr m' hm'
  rw [markerSchema_of_mem hs] at h
  rw [markerSchema_of_mem hs'] at h'
  cases h
  cases h'
  exact hne rfl

/-- A marker that asks for one that leads back to it differs by which of the two was asked for
first, if one of its columns tells. -/
theorem distinguished_of_mutual {a c : String} (hr : p.names.Reveals a c)
    (hm : p.names.Mutual a c) : p.Distinguished a := by
  obtain ⟨hne, hac, hca⟩ := hm
  obtain ⟨A₁, m₁, hm₁, hb₁, hA₁, hall₁⟩ := exists_reached_by_marker hr.asks.isSome_left
  obtain ⟨A₂, m₂, hm₂, hb₂, -, hall₂⟩ := exists_reached_by_marker hr.asks.isSome_right
  have hs₁ := Std.TreeMap.getElem?_eq_some_getElem (hall₁ a Relation.ReflTransGen.refl).1
  have hc₁ := Std.TreeMap.getElem?_eq_some_getElem (hall₁ c hac).1
  have hs₂ := Std.TreeMap.getElem?_eq_some_getElem (hall₂ a hca).1
  have hcA₁ : c ∉ A₁ a := by simp [hA₁, Ne.symm hne]
  have hcA₂ : c ∈ A₂ a := (hall₂ a hca).2
  refine ⟨m₁, m₂, _, _, hm₁, hm₂, hs₁, hs₂, fun heq => ?_⟩
  obtain ⟨x, hx | ⟨hx, hdx⟩⟩ := hr
  · obtain ⟨f, hf, hlookup⟩ := hx.exists_column
    have h₁ := hlookup hb₁ hs₁
    have h₂ := hlookup hb₂ hs₂
    rw [heq, h₂] at h₁
    have hview := hf (Option.some.inj h₁)
    rw [pastOpen, if_pos hcA₂, pastOpen, if_neg hcA₁, hc₁] at hview
    simp at hview
  · have hxc := (hb₁.mem_names_iff hc₁ (x := x)).2 (Or.inl hdx)
    have hxa := (hb₁.mem_names_iff hs₁).2 (Or.inr ⟨c, _, hx.1, hcA₁, hc₁, hxc⟩)
    exact hb₂.not_mem_names hs₂ hx hcA₂ (heq ▸ hxa)

/-- A difference in a marker is one in each marker that holds rows of it. -/
theorem Distinguished.of_shows {n b : String} (hs : p.names.Shows n b) (hb : p.Distinguished b) :
    p.Distinguished n := by
  by_cases hbn : p.names.Leads b n
  · exact distinguished_of_mutual hs.reveals ⟨hs.1.symm, hs.reveals.asks.leads, hbn⟩
  obtain ⟨m₁, m₂, s₁, s₂, hm₁, hm₂, hs₁, hs₂, hne⟩ := hb
  obtain ⟨-, x, hx⟩ := hs
  obtain ⟨f, hf, hlookup⟩ := hx.exists_column
  -- Whatever was built before, the column of `n` has the schema of `b` that is remembered.
  have hstep : ∀ {m : Memo} {s : Schema}, p.Reached m → m.markers[b]? = some s →
      ∃ m' t, p.Reached m' ∧ m'.markers[n]? = some t ∧ t.lookup? x = some (f (some s)) := by
    intro m s hm hs
    obtain ⟨_, A', t, m', -, hm', -, ht, -, hans⟩ :=
      markerSchema_reached hm hx.asks.isSome_left
    have hnm : n ∈ m'.markers := Std.TreeMap.mem_iff_isSome_getElem?.2 (by simp [ht])
    have hbA : b ∉ A' n := fun hbA => hbn (hans.builds.leads hnm hbA)
    refine ⟨m', t, hm', ht, ?_⟩
    rw [hlookup hans.builds ht, pastOpen, if_neg hbA, hans.grown.kept hs]
  obtain ⟨m₁', t₁, hm₁', ht₁, hl₁⟩ := hstep hm₁ hs₁
  obtain ⟨m₂', t₂, hm₂', ht₂, hl₂⟩ := hstep hm₂ hs₂
  refine ⟨m₁', m₂', t₁, t₂, hm₁', hm₂', ht₁, ht₂, fun heq => hne ?_⟩
  rw [heq, hl₂] at hl₁
  exact (Option.some.inj (hf (Option.some.inj hl₁))).symm

/-- Where no two markers in sight lead to each other, the answers of any two memos between
questions are the same. -/
theorem answer_eq_of_not_mutual {n : String}
    (hn : ∀ a b, p.names.Leads n a → ¬p.names.Mutual a b) {A₁ A₂ A₁' A₂' : String → List String}
    {m₁ m₂ m₁' m₂' : Memo} (ho₁ : m₁.openMarkers = []) (ho₂ : m₂.openMarkers = [])
    (h₁ : MarkerAnswer p.names [] A₁ m₁ n A₁' m₁') (h₂ : MarkerAnswer p.names [] A₂ m₂ n A₂' m₂') :
    m₁'.markers[n]? = m₂'.markers[n]? := by
  have ho₁' := h₁.grown.openMarkers.trans ho₁
  have ho₂' := h₂.grown.openMarkers.trans ho₂
  cases hc : p.names.marker? n with
  | none => rw [h₁.builds.getElem?_eq_none hc, h₂.builds.getElem?_eq_none hc]
  | some c =>
    have hc' : (p.names.marker? n).isSome := by simp [hc]
    exact h₁.builds.markers_eq h₂.builds ho₂' (fun a b ha hab => hn a b ha hab.symm)
      (h₁.mem ho₁' hc') (h₂.mem ho₂' hc')

theorem independent_of_not_mutual {n : String}
    (hn : ∀ a b, p.names.Leads n a → ¬p.names.Mutual a b) : p.Independent n := by
  obtain ⟨A₀, hA₀⟩ := (Reached.empty p).steady.builds
  obtain ⟨A, m, hrun, hans⟩ := p.markerSchema_run hA₀ rfl n
  refine ⟨m.markers[n]?, fun m' hm' => ?_⟩
  obtain ⟨A₁, hA₁⟩ := hm'.steady.builds
  have ho := hm'.steady.openMarkers
  obtain ⟨A₂, m₂, hrun₂, hans₂⟩ := p.markerSchema_run hA₁ ho n
  exact ⟨m₂, by rw [hrun₂, answer_eq_of_not_mutual hn ho rfl hans₂ hans]⟩

/-- The schema of a marker is the same behind any questions where no two of the markers in sight
lead to each other. It is not where two do and a chain of columns shows it. So where every
marker in sight shows what it asks for, that is the exact condition. -/
theorem independent_markerSchema (p : Program) (n : String) :
    ((∀ a b, p.names.Leads n a → ¬p.names.Mutual a b) → p.Independent n) ∧
    (∀ a c, Relation.ReflTransGen p.names.Shows n a → p.names.Reveals a c →
      p.names.Mutual a c → ¬p.Independent n) ∧
    ((∀ a b, p.names.Leads n a → p.names.Asks a b → b ≠ a → p.names.Shows a b) →
      (p.Independent n ↔ ∀ a b, p.names.Leads n a → ¬p.names.Mutual a b)) := by
  have hmutual : ∀ a c, Relation.ReflTransGen p.names.Shows n a → p.names.Reveals a c →
      p.names.Mutual a c → ¬p.Independent n := by
    intro a c hna hr hm
    refine Distinguished.not_independent ?_
    induction hna using Relation.ReflTransGen.head_induction_on with
    | refl => exact distinguished_of_mutual hr hm
    | head hs _ ih => exact ih.of_shows hs
  refine ⟨independent_of_not_mutual, hmutual, fun hs => ⟨fun hi a b hna hab => ?_,
    independent_of_not_mutual⟩⟩
  obtain ⟨c, hac, hca, hcb⟩ := Resolution.exists_asks_of_leads hab.2.1 hab.1
  exact hmutual a c (Resolution.shows_of_leads hna hs) (hs a c hna hac hca).reveals
    ⟨hca.symm, hac.leads, hcb.trans hab.2.2⟩ hi

/-- Two markers with a property over the other. -/
def mutualText : String :=
  "@DataSchema\ninterface A \x7b\n    val b: B\n\x7d\n" ++
  "@DataSchema\ninterface B \x7b\n    val a: A\n\x7d\n"

/-- Of two markers with a property over the other, each has a group where it is asked for first,
and a frame without known columns where it is asked for second. -/
theorem not_independent_mutualText : ∃ u, SourceUnit.ofText mutualText = .ok u ∧
    ¬(ofUnit u).Independent "A" := by
  obtain ⟨u, hu, h⟩ : ∃ u, SourceUnit.ofText mutualText = .ok u ∧
      (((ofUnit u).markerSchema "B" Memo.empty).any fun r =>
        decide (((ofUnit u).markerSchema "A" Memo.empty).map Prod.fst ≠
          ((ofUnit u).markerSchema "A" r.2).map Prod.fst)) = true := by
    refine SourceUnit.exists_ofText (Token.eq_ofList_append rfl rfl) ?_
    decide +kernel
  refine ⟨u, hu, ?_⟩
  cases hb : (ofUnit u).markerSchema "B" Memo.empty with
  | none => simp [hb] at h
  | some r =>
    rw [hb, Option.any_some, decide_eq_true_eq] at h
    rintro ⟨s, hs⟩
    obtain ⟨_, h₁⟩ := hs _ (Reached.empty _)
    obtain ⟨_, h₂⟩ := hs _ ((Reached.empty _).markerSchema hb)
    exact h (by rw [h₁, h₂]; rfl)

end Program

end FrameCheck
