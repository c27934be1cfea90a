import FrameCheck.Proofs.Marker.Columns
import Mathlib.Data.List.Perm.Subperm
import Mathlib.Logic.Relation

/-!
# How the schemas of markers come about

A marker is built while it is open, and what it mentions is built inside of that. So the
schema that is remembered of a marker depends on which markers were open then : these are its
ancestors, and to it they had no schema. `Builds` is the invariant. With the ancestors of each
remembered marker it says that the schema is that of the class where the ancestors are
unknown and every other marker has the schema that is remembered now, and that an ancestor of
a marker leads to it.

* `Resolution.Asks`, `Resolution.Leads` : the graph of markers.
* `Builds` : the invariant of the memo.
* `MarkerQuery.ofDepth_sound` : the question for a marker has an answer and keeps the invariant.
-/

namespace FrameCheck

/-! ## The graph -/

namespace Resolution

variable (names : Resolution)

/-- A part of the class of marker `a` asks for marker `b`. -/
def Asks (a b : String) : Prop :=
  ∃ c, names.marker? a = some c ∧ (∃ part ∈ c.parts, part.asked? names = some b) ∧
    (names.marker? b).isSome

/-- There is a way from marker to marker, along what they ask for. -/
def Leads : String → String → Prop := Relation.ReflTransGen names.Asks

variable {names}

theorem Asks.leads {a b : String} (h : names.Asks a b) : names.Leads a b :=
  Relation.ReflTransGen.single h

theorem Leads.trans {a b c : String} (h : names.Leads a b) (h' : names.Leads b c) :
    names.Leads a c := Relation.ReflTransGen.trans h h'

end Resolution

/-! ## The invariant -/

/-- The schemas in a table, where those of the open markers are unknown. -/
def pastOpen (opened : List String) (table : Std.TreeMap String Schema) (name : String) :
    Option Schema :=
  if name ∈ opened then none else table[name]?

/-- The conflicts in the class of a marker. -/
def Resolution.conflicts (names : Resolution) (opened : List String)
    (table : Std.TreeMap String Schema) (name : String) : List Failure :=
  match names.marker? name with
  | some c => c.conflictsIn names (pastOpen opened table)
  | none => []

/-- The markers of a memo were built with their ancestors open, `ancestors k` those of `k` and
`k` itself. They were built one behind another, and the failures are the conflicts of what was
built, with `pending` ones of the markers that are open. -/
structure Builds (names : Resolution) (ancestors : String → List String) (pending : List Failure)
    (m : Memo) : Prop where
  declared : ∀ {k : String} {s : Schema}, m.markers[k]? = some s → ∃ c, names.marker? k = some c ∧
    s = c.schemaIn names (pastOpen (ancestors k) m.markers)
  self : ∀ {k}, k ∈ m.markers → k ∈ ancestors k
  leads : ∀ {k o}, k ∈ m.markers → o ∈ ancestors k → names.Leads o k
  closed : ∀ {k j}, k ∈ m.markers → names.Asks k j → j ∉ ancestors k → j ∈ m.markers
  known : ∀ {k o}, k ∈ m.markers → o ∈ ancestors k → o ∈ m.markers ∨ o ∈ m.openMarkers
  unbuilt : ∀ {o}, o ∈ m.openMarkers → o ∉ m.markers ∧ (names.marker? o).isSome
  nodup : m.openMarkers.Nodup
  built : ∃ ks : List String, ks.Nodup ∧ (∀ k, k ∈ ks ↔ k ∈ m.markers) ∧
    (∀ pre k post j, ks = pre ++ k :: post → names.Asks k j → j ∉ ancestors k → j ∈ post) ∧
    m.markerFailures.Perm
      (ks.flatMap (fun k => names.conflicts (ancestors k) m.markers k) ++ pending)

/-- What a question for a marker does to the memo : nothing that was remembered changes, and
the markers that are open are ancestors of all that is built. -/
structure Grown (ancestors : String → List String) (m : Memo) (ancestors' : String → List String)
    (m' : Memo) : Prop where
  bindings : m'.bindings = m.bindings
  inProgress : m'.inProgress = m.inProgress
  callFailures : m'.callFailures = m.callFailures
  openMarkers : m'.openMarkers = m.openMarkers
  kept : ∀ {k : String} {s : Schema}, m.markers[k]? = some s → m'.markers[k]? = some s
  same : ∀ {k}, k ∈ m.markers → ancestors' k = ancestors k
  below : ∀ {k}, k ∉ m.markers → k ∈ m'.markers → ∀ o ∈ m.openMarkers, o ∈ ancestors' k
  recorded : m.markerFailures <+: m'.markerFailures

/-- A marker has its final answer for the markers that are open now. -/
def Memo.Answered (names : Resolution) (m : Memo) (name : String) : Prop :=
  name ∈ m.openMarkers ∨ name ∈ m.markers ∨ names.marker? name = none

/-- What a question for a marker answers in this memo, once the marker is built. -/
def Memo.markerView (m : Memo) : String → Option Schema := pastOpen m.openMarkers m.markers

namespace Grown

variable {A A' A'' : String → List String} {m m' m'' : Memo}

theorem refl : Grown A m A m where
  bindings := rfl
  inProgress := rfl
  callFailures := rfl
  openMarkers := rfl
  kept h := h
  same _ := rfl
  below hk hk' := absurd hk' hk
  recorded := List.prefix_refl _

theorem mem (h : Grown A m A' m') {k : String} (hk : k ∈ m.markers) : k ∈ m'.markers := by
  rw [Std.TreeMap.mem_iff_isSome_getElem?] at hk ⊢
  obtain ⟨s, hs⟩ := Option.isSome_iff_exists.1 hk
  simp [h.kept hs]

theorem trans (h : Grown A m A' m') (h' : Grown A' m' A'' m'') : Grown A m A'' m'' where
  bindings := h'.bindings.trans h.bindings
  inProgress := h'.inProgress.trans h.inProgress
  callFailures := h'.callFailures.trans h.callFailures
  openMarkers := h'.openMarkers.trans h.openMarkers
  kept hk := h'.kept (h.kept hk)
  same hk := (h'.same (h.mem hk)).trans (h.same hk)
  below {k} hk hk'' o ho := by
    by_cases hk' : k ∈ m'.markers
    · rw [h'.same hk']
      exact h.below hk hk' o ho
    · exact h'.below hk' hk'' o (h.openMarkers ▸ ho)
  recorded := h.recorded.trans h'.recorded

/-- What is done while a marker is open, and then to build it. -/
theorem close {n : String} (hn : n ∉ m.markers)
    (h : Grown A { m with openMarkers := n :: m.openMarkers } A' m') (s : Schema) :
    Grown A m (Function.update A' n (n :: m.openMarkers)) { m' with
      openMarkers := m.openMarkers
      markers := m'.markers.insert n s } where
  bindings := h.bindings
  inProgress := h.inProgress
  callFailures := h.callFailures
  openMarkers := rfl
  kept {k t} ht := by
    have hk : n ≠ k := by
      rintro rfl
      exact hn (Std.TreeMap.mem_iff_isSome_getElem?.2 (by simp [ht]))
    rw [Std.TreeMap.getElem?_insert, if_neg (by simpa using hk)]
    exact h.kept ht
  same {k} hk := by
    have hkn : k ≠ n := fun he => hn (he ▸ hk)
    rw [Function.update_of_ne hkn]
    exact h.same hk
  below {k} hk hk' o ho := by
    by_cases hkn : k = n
    · subst hkn
      simp [ho]
    · rw [Function.update_of_ne hkn]
      rw [Std.TreeMap.mem_insert, Std.LawfulEqOrd.compare_eq_iff_eq] at hk'
      exact h.below hk (hk'.resolve_left (Ne.symm hkn)) o (List.mem_cons_of_mem n ho)
  recorded := h.recorded

end Grown

namespace Builds

variable {names : Resolution} {A A' : String → List String} {pending : List Failure} {m m' : Memo}

theorem isSome_of_mem (h : Builds names A pending m) {k : String} (hk : k ∈ m.markers) :
    (names.marker? k).isSome := by
  obtain ⟨c, hc, -⟩ := h.declared (Std.TreeMap.getElem?_eq_some_getElem hk)
  simp [hc]

theorem openMarkers_length_le (h : Builds names A pending m) :
    m.openMarkers.length ≤ names.markers.size := by
  rw [← Std.TreeMap.length_keys]
  refine (List.subperm_of_subset h.nodup fun o ho => ?_).length_le
  rw [Std.TreeMap.mem_keys, Std.TreeMap.mem_iff_isSome_getElem?]
  exact (h.unbuilt ho).2

/-- A property of markers holds of all that were built if it holds of each as soon as it holds of
what that was built from. -/
theorem induction (h : Builds names A pending m) {P : String → Prop}
    (step : ∀ k ∈ m.markers, (∀ j, names.Asks k j → j ∉ A k → P j) → P k) :
    ∀ k ∈ m.markers, P k := by
  obtain ⟨ks, -, hks, hlater, -⟩ := h.built
  have hpost : ∀ post pre, ks = pre ++ post → ∀ k ∈ post, P k := by
    intro post
    induction post with
    | nil => simp
    | cons k post ih =>
      intro pre hpre
      have ih' := ih (pre ++ [k]) (by simp [hpre])
      rintro k' hk'
      rcases List.mem_cons.1 hk' with rfl | hk'
      · exact step _ ((hks _).1 (by simp [hpre])) fun j hkj hj =>
          ih' j (hlater pre _ post j hpre hkj hj)
      · exact ih' k' hk'
  exact fun k hk => hpost ks [] rfl k ((hks k).2 hk)

/-- An answered marker keeps its answer. -/
theorem markerView_eq (h : Builds names A pending m) {pending' : List Failure}
    (h' : Builds names A' pending' m') (hg : Grown A m A' m') {name : String}
    (hn : m.Answered names name) : m'.markerView name = m.markerView name := by
  unfold Memo.markerView pastOpen
  rw [hg.openMarkers]
  split
  · rfl
  · rcases hn with hn | hn | hn
    · contradiction
    · rw [hg.kept (Std.TreeMap.getElem?_eq_some_getElem hn), Std.TreeMap.getElem?_eq_some_getElem]
    · have hm : name ∉ m.markers := fun hk => by simpa [hn] using h.isSome_of_mem hk
      have hm' : name ∉ m'.markers := fun hk => by simpa [hn] using h'.isSome_of_mem hk
      rw [Std.TreeMap.getElem?_eq_none hm, Std.TreeMap.getElem?_eq_none hm']

/-- Recording failures leaves them pending. -/
theorem record (h : Builds names A pending m) (fs : List Failure) :
    Builds names A (pending ++ fs) { m with markerFailures := m.markerFailures ++ fs } where
  declared := h.declared
  self := h.self
  leads := h.leads
  closed := h.closed
  known := h.known
  unbuilt := h.unbuilt
  nodup := h.nodup
  built := by
    obtain ⟨ks, hn, hk, hlater, hp⟩ := h.built
    refine ⟨ks, hn, hk, hlater, ?_⟩
    rw [← List.append_assoc]
    exact hp.append_right fs

/-- A marker that is opened has no schema, and is led to by those that are open. -/
theorem opened (h : Builds names A pending m) {n : String} (hn : n ∉ m.openMarkers)
    (hm : n ∉ m.markers) (hc : (names.marker? n).isSome) :
    Builds names A pending { m with openMarkers := n :: m.openMarkers } where
  declared := h.declared
  self := h.self
  leads := h.leads
  closed := h.closed
  known hk ho := (h.known hk ho).imp_right (List.mem_cons_of_mem _)
  unbuilt ho := by
    rcases List.mem_cons.1 ho with rfl | ho
    · exact ⟨hm, hc⟩
    · exact h.unbuilt ho
  nodup := List.nodup_cons.2 ⟨hn, h.nodup⟩
  built := h.built

/-- The marker that was opened last is unknown to its own parts, before and after it is built. -/
theorem pastOpen_insert_self {opened : List String} {n : String} (hn : n ∈ opened)
    (table : Std.TreeMap String Schema) (s : Schema) :
    pastOpen opened (table.insert n s) = pastOpen opened table := by
  funext j
  unfold pastOpen
  by_cases hj : n = j
  · simp [← hj, hn]
  · simp [Std.TreeMap.getElem?_insert, hj]

/-- Building an open marker changes nothing for those that are built. -/
theorem entriesIn_insert (h : Builds names A pending m) {n : String} (hn : n ∈ m.openMarkers)
    (s : Schema) {k : String} (hk : k ∈ m.markers) {c : ClassDecl} (hc : names.marker? k = some c) :
    c.entriesIn names (pastOpen (A k) (m.markers.insert n s)) =
      c.entriesIn names (pastOpen (A k) m.markers) := by
  by_cases hA : n ∈ A k
  · rw [pastOpen_insert_self hA]
  · refine ClassDecl.entriesIn_congr fun part hp j hj => ?_
    have hjn : n ≠ j := by
      rintro rfl
      exact (h.unbuilt hn).1 (h.closed hk ⟨c, hc, ⟨part, hp, hj⟩, (h.unbuilt hn).2⟩ hA)
    simp [pastOpen, Std.TreeMap.getElem?_insert, hjn]

theorem conflicts_insert (h : Builds names A pending m) {n : String} (hn : n ∈ m.openMarkers)
    (s : Schema) {k : String} (hk : k ∈ m.markers) :
    names.conflicts (A k) (m.markers.insert n s) k = names.conflicts (A k) m.markers k := by
  obtain ⟨d, hd⟩ := Option.isSome_iff_exists.1 (h.isSome_of_mem hk)
  simp only [Resolution.conflicts, hd, ClassDecl.conflictsIn, h.entriesIn_insert hn s hk hd]

/-- What the marker that was opened last asks for is built or open, once its parts are answered. -/
theorem mem_of_asks {c : ClassDecl} {n : String} {opened : List String}
    (ho : m.openMarkers = n :: opened) (hc : names.marker? n = some c)
    (hparts : ∀ part ∈ c.parts, ∀ j ∈ part.asked? names, m.Answered names j) {j : String}
    (hnj : names.Asks n j) (hj : j ∉ n :: opened) : j ∈ m.markers := by
  obtain ⟨d, hd, ⟨part, hp, ha⟩, hjm⟩ := hnj
  obtain rfl : c = d := Option.some.inj (hc.symm.trans hd)
  rcases hparts part hp j ha with hja | hja | hja
  · exact absurd (ho ▸ hja) hj
  · exact hja
  · simp [hja] at hjm

/-- The marker that is built comes first in the order of those that are, and its conflicts are no
longer pending. -/
theorem built_close {c : ClassDecl} {n : String} {opened : List String}
    (h : Builds names A (pending ++ c.conflictsIn names m.markerView) m)
    (ho : m.openMarkers = n :: opened) (hc : names.marker? n = some c)
    (hasked : ∀ {j}, names.Asks n j → j ∉ n :: opened → j ∈ m.markers) (s : Schema) :
    ∃ ks : List String, ks.Nodup ∧ (∀ k, k ∈ ks ↔ k ∈ m.markers.insert n s) ∧
      (∀ pre k post j, ks = pre ++ k :: post → names.Asks k j →
        j ∉ Function.update A n (n :: opened) k → j ∈ post) ∧
      m.markerFailures.Perm (ks.flatMap (fun k =>
        names.conflicts (Function.update A n (n :: opened) k) (m.markers.insert n s) k)
          ++ pending) := by
  have hopen : n ∈ m.openMarkers := by simp [ho]
  have hn := (h.unbuilt hopen).1
  have hne : ∀ {k}, k ∈ m.markers → k ≠ n := fun hk he => hn (he ▸ hk)
  obtain ⟨ks, hnd, hks, hlater, hp⟩ := h.built
  refine ⟨n :: ks, List.nodup_cons.2 ⟨fun hk => hn ((hks n).1 hk), hnd⟩, fun k => ?_, ?_, ?_⟩
  · rw [List.mem_cons, hks, Std.TreeMap.mem_insert, Std.LawfulEqOrd.compare_eq_iff_eq, eq_comm]
  · intro pre k post j hpre hkj hj
    rcases List.cons_eq_append_iff.1 hpre with ⟨-, hsplit⟩ | ⟨pre', -, hsplit⟩
    · obtain ⟨rfl, rfl⟩ := List.cons.inj hsplit
      rw [Function.update_self] at hj
      exact (hks j).2 (hasked hkj hj)
    · have hk : k ∈ m.markers := (hks k).1 (by simp [hsplit])
      rw [Function.update_of_ne (hne hk)] at hj
      exact hlater pre' k post j hsplit hkj hj
  · have hnew : names.conflicts (Function.update A n (n :: opened) n) (m.markers.insert n s) n =
        c.conflictsIn names m.markerView := by
      simp only [Resolution.conflicts, hc, Function.update_self]
      rw [pastOpen_insert_self (by simp), Memo.markerView, ho]
    have hold : ∀ k ∈ ks, names.conflicts (Function.update A n (n :: opened) k)
        (m.markers.insert n s) k = names.conflicts (A k) m.markers k := by
      intro k hk
      have hkm := (hks k).1 hk
      rw [Function.update_of_ne (hne hkm), h.conflicts_insert hopen s hkm]
    rw [List.flatMap_cons, hnew, List.flatMap_congr hold, List.append_assoc]
    refine hp.trans ?_
    rw [← List.append_assoc]
    exact List.perm_append_comm

/-- What holds of a marker that is built with its ancestors, and held of those that were, holds of
all. -/
theorem forall_insert {P : String → List String → Prop} {n : String} {opened : List String}
    {s : Schema} (hn : n ∉ m.markers) (hself : P n opened) (hold : ∀ k ∈ m.markers, P k (A k)) :
    ∀ k ∈ m.markers.insert n s, P k (Function.update A n opened k) := by
  intro k hk
  rw [Std.TreeMap.mem_insert, Std.LawfulEqOrd.compare_eq_iff_eq] at hk
  rcases hk with rfl | hk
  · rwa [Function.update_self]
  · rw [Function.update_of_ne (ne_of_mem_of_not_mem hk hn)]
    exact hold k hk

/-- A marker is built from the answers to its parts, with those that are open as ancestors. -/
theorem close {c : ClassDecl} {n : String} {opened : List String}
    (h : Builds names A (pending ++ c.conflictsIn names m.markerView) m)
    (ho : m.openMarkers = n :: opened) (hc : names.marker? n = some c)
    (hled : ∀ o ∈ opened, names.Leads o n)
    (hparts : ∀ part ∈ c.parts, ∀ j ∈ part.asked? names, m.Answered names j) :
    Builds names (Function.update A n (n :: opened)) pending { m with
      openMarkers := opened
      markers := m.markers.insert n (c.schemaIn names m.markerView) } := by
  have hopen : n ∈ m.openMarkers := by simp [ho]
  have hn := (h.unbuilt hopen).1
  have hview : m.markerView = pastOpen (n :: opened) m.markers := by rw [Memo.markerView, ho]
  have hmem : ∀ {k}, k ∈ m.markers.insert n (c.schemaIn names m.markerView) ↔
      k = n ∨ k ∈ m.markers := fun {k} => by
    rw [Std.TreeMap.mem_insert, Std.LawfulEqOrd.compare_eq_iff_eq, eq_comm]
  have hasked : ∀ {j}, names.Asks n j → j ∉ n :: opened → j ∈ m.markers :=
    mem_of_asks ho hc hparts
  constructor
  case declared =>
    intro k s hs
    by_cases hk : k = n
    · subst hk
      simp only [Std.TreeMap.getElem?_insert_self, Option.some.injEq] at hs
      refine ⟨c, hc, ?_⟩
      rw [Function.update_self, pastOpen_insert_self (by simp), ← hs, hview]
    · rw [Std.TreeMap.getElem?_insert, if_neg (by simpa using Ne.symm hk)] at hs
      obtain ⟨d, hd, rfl⟩ := h.declared hs
      have hkm : k ∈ m.markers := Std.TreeMap.mem_iff_isSome_getElem?.2 (by simp [hs])
      refine ⟨d, hd, ?_⟩
      rw [Function.update_of_ne hk, ClassDecl.schemaIn, ClassDecl.schemaIn,
        h.entriesIn_insert hopen _ hkm hd]
  case self =>
    exact fun {k} => forall_insert (P := fun k o => k ∈ o) hn (List.mem_cons_self ..)
      (fun k hk => h.self hk) k
  case leads =>
    intro k o hk
    refine forall_insert (P := fun k os => o ∈ os → names.Leads o k) hn (fun hok => ?_)
      (fun k hk => h.leads hk) k hk
    rcases List.mem_cons.1 hok with rfl | hok
    · exact Relation.ReflTransGen.refl
    · exact hled o hok
  case closed =>
    intro k j hk
    refine forall_insert (P := fun k os => names.Asks k j → j ∉ os → _) hn (fun hkj hj => ?_)
      (fun k hk hkj hj => ?_) k hk
    · exact hmem.2 (Or.inr (hasked hkj hj))
    · exact hmem.2 (Or.inr (h.closed hk hkj hj))
  case known =>
    intro k o hk
    have hold : o ∈ n :: opened →
        o ∈ m.markers.insert n (c.schemaIn names m.markerView) ∨ o ∈ opened := fun ho => by
      rcases List.mem_cons.1 ho with rfl | ho
      · exact Or.inl (hmem.2 (Or.inl rfl))
      · exact Or.inr ho
    refine forall_insert (P := fun k os => o ∈ os → _) hn hold (fun k hk hok => ?_) k hk
    rcases h.known hk hok with hom | hoo
    · exact Or.inl (hmem.2 (Or.inr hom))
    · exact hold (ho ▸ hoo)
  case unbuilt =>
    intro o hoo
    obtain ⟨hom, hos⟩ := h.unbuilt (o := o) (by simp [ho, hoo])
    refine ⟨fun hmo => ?_, hos⟩
    rcases hmem.1 hmo with rfl | hmo
    · exact (List.nodup_cons.1 (ho ▸ h.nodup)).1 hoo
    · exact hom hmo
  case nodup => exact (List.nodup_cons.1 (ho ▸ h.nodup)).2
  case built => exact h.built_close ho hc hasked _

end Builds

/-! ## Questions for markers -/

/-- What is known behind the question for marker `n` : the invariant, that the answer is final,
that `n` was built with the open markers as ancestors, and is an ancestor of what was built. -/
structure MarkerAnswer (names : Resolution) (pending : List Failure) (A : String → List String)
    (m : Memo) (n : String) (A' : String → List String) (m' : Memo) : Prop where
  builds : Builds names A' pending m'
  grown : Grown A m A' m'
  answered : m'.Answered names n
  own : n ∉ m.markers → n ∈ m'.markers → A' n = n :: m.openMarkers
  under : ∀ {k}, k ∉ m.markers → k ∈ m'.markers → n ∈ A' k

/-- A marker that was asked for between questions is remembered. -/
theorem MarkerAnswer.mem {names : Resolution} {pending : List Failure} {A A' : String → List String}
    {m m' : Memo} {n : String} (h : MarkerAnswer names pending A m n A' m')
    (ho : m'.openMarkers = []) (hn : (names.marker? n).isSome) : n ∈ m'.markers := by
  rcases h.answered with h | h | h
  · simp [ho] at h
  · exact h
  · simp [h] at hn

namespace MarkerQuery

variable {names : Resolution}

/-- The question has an answer wherever `bound` more markers than there are may be open. -/
def Sound (names : Resolution) (bound : Nat) (schemaOf : MarkerQuery) : Prop :=
  ∀ {A : String → List String} {pending : List Failure} {m : Memo} (n : String),
    Builds names A pending m → ((names.marker? n).isSome → ∀ o ∈ m.openMarkers, names.Leads o n) →
    names.markers.size < bound + m.openMarkers.length →
    ∃ A' m', schemaOf n m = some (m'.markerView n, m') ∧ MarkerAnswer names pending A m n A' m'

section

variable {bound : Nat} {schemaOf : MarkerQuery} (hq : Sound names bound schemaOf)
  {c : ClassDecl} {n : String} (hc : names.marker? n = some c)

include hq hc

/-- A part of the marker opened last, from a memo with the invariant. -/
theorem addPart_run {A : String → List String} {pending : List Failure} {m : Memo}
    {opened : List String} (h : Builds names A pending m) (ho : m.openMarkers = n :: opened)
    (hled : ∀ o ∈ opened, names.Leads o n)
    (hbound : names.markers.size < bound + m.openMarkers.length) {part : ClassPart}
    (hp : part ∈ c.parts) (schema : Schema) :
    ∃ A' m', addPart names schemaOf c schema part m =
        some (schema.placed (part.entriesIn names m'.markerView c), m') ∧
      Builds names A' (pending ++ schema.clashes c.name (part.entriesIn names m'.markerView c)) m' ∧
      Grown A m A' m' ∧ ∀ j ∈ part.asked? names, m'.Answered names j := by
  obtain ⟨A', m₁, hrun, hb, hg, hans⟩ : ∃ A' m₁,
      askIf schemaOf (part.asked? names) m =
        some ((part.asked? names).bind m₁.markerView, m₁) ∧
      Builds names A' pending m₁ ∧ Grown A m A' m₁ ∧
      ∀ j ∈ part.asked? names, m₁.Answered names j := by
    cases ha : part.asked? names with
    | none => exact ⟨A, m, rfl, h, Grown.refl, by simp⟩
    | some j =>
      have hlead : (names.marker? j).isSome → ∀ o ∈ m.openMarkers, names.Leads o j := by
        intro hj o hom
        have hnj : names.Leads n j := Resolution.Asks.leads ⟨c, hc, ⟨part, hp, ha⟩, hj⟩
        rcases List.mem_cons.1 (ho ▸ hom) with rfl | hom
        · exact hnj
        · exact (hled o hom).trans hnj
      obtain ⟨A', m₁, hrun, hans⟩ := hq j h hlead hbound
      refine ⟨A', m₁, hrun, hans.builds, hans.grown, fun j' hj' => ?_⟩
      obtain rfl := Option.some.inj hj'
      exact hans.answered
  let clashes := schema.clashes c.name (part.entriesIn names m₁.markerView c)
  let m' : Memo := { m₁ with markerFailures := m₁.markerFailures ++ clashes }
  refine ⟨A', m', ?_, hb.record _, hg.trans ?_, hans⟩
  · rw [addPart_eq]
    exact Query.bind_eq_some.2 ⟨_, _, hrun, addEntries_run c _ schema m₁⟩
  · exact { (Grown.refl : Grown A' m₁ A' m₁) with recorded := List.prefix_append _ _ }

/-- Parts in turn. The schema is that of the answers that all of them have in the end. -/
theorem addParts_run {opened : List String} (hled : ∀ o ∈ opened, names.Leads o n) :
    ∀ {parts : List ClassPart}, parts ⊆ c.parts → ∀ {A : String → List String}
      {pending : List Failure} {m : Memo} (schema : Schema), Builds names A pending m →
      m.openMarkers = n :: opened → names.markers.size < bound + m.openMarkers.length →
      ∃ A' m', parts.foldlM (addPart names schemaOf c) schema m = some
          (schema.placed (parts.flatMap (ClassPart.entriesIn names m'.markerView c)), m') ∧
        Builds names A' (pending ++ schema.clashes c.name
          (parts.flatMap (ClassPart.entriesIn names m'.markerView c))) m' ∧
        Grown A m A' m' ∧ ∀ part ∈ parts, ∀ j ∈ part.asked? names, m'.Answered names j
  | [], _, A, pending, m, schema, h, _, _ =>
    ⟨A, m, rfl, by simpa [Schema.clashes] using h, Grown.refl, by simp⟩
  | part :: parts, hsub, A, pending, m, schema, h, ho, hbound => by
    obtain ⟨A₁, m₁, hrun₁, hb₁, hg₁, hans₁⟩ :=
      addPart_run hq hc h ho hled hbound (hsub List.mem_cons_self) schema
    obtain ⟨A₂, m₂, hrun₂, hb₂, hg₂, hans₂⟩ := addParts_run hled
      (fun p hp => hsub (List.mem_cons_of_mem part hp))
      (schema.placed (part.entriesIn names m₁.markerView c)) hb₁
      (hg₁.openMarkers.trans ho) (hg₁.openMarkers ▸ hbound)
    have hsame : ∀ j ∈ part.asked? names, m₂.markerView j = m₁.markerView j := fun j hj =>
      hb₁.markerView_eq hb₂ hg₂ (hans₁ j hj)
    have hentries : part.entriesIn names m₂.markerView c =
        part.entriesIn names m₁.markerView c := by
      unfold ClassPart.entriesIn
      cases ha : part.asked? names with
      | none => rfl
      | some j => rw [Option.bind_some, Option.bind_some, hsame j ha]
    rw [← hentries] at hrun₁ hb₂ hrun₂
    refine ⟨A₂, m₂, ?_, ?_, hg₁.trans hg₂, ?_⟩
    · rw [List.foldlM_cons, List.flatMap_cons, Schema.placed_append]
      exact Query.bind_eq_some.2 ⟨_, _, hrun₁, hrun₂⟩
    · rw [List.flatMap_cons, Schema.clashes_append, ← List.append_assoc]
      exact hb₂
    · intro p hp j hj
      rcases List.mem_cons.1 hp with rfl | hp
      · rcases hans₁ j hj with h | h | h
        · exact Or.inl (hg₂.openMarkers ▸ h)
        · exact Or.inr (Or.inl (hg₂.mem h))
        · exact Or.inr (Or.inr h)
      · exact hans₂ p hp j hj

end

/-- The question for a marker that is not remembered, not open, and declared by a class. -/
theorem ofDepth_build {depth : Nat} {c : ClassDecl} {n : String} {m m' : Memo} {s : Schema}
    (hm : n ∉ m.markers) (ho : n ∉ m.openMarkers) (hc : names.marker? n = some c)
    (hs : ofClass names (ofDepth names depth) c { m with openMarkers := n :: m.openMarkers } =
      some (s, m')) :
    ofDepth names (depth + 1) n m = some (some s, { m' with
      openMarkers := m'.openMarkers.tail
      markers := m'.markers.insert n s }) := by
  refine Query.bind_eq_some.2 ⟨m, m, rfl, ?_⟩
  rw [Std.TreeMap.getElem?_eq_none hm]
  simp only [List.contains_eq_mem, ho, decide_false, Bool.false_eq_true, if_false, hc]
  exact Query.bind_eq_some.2 ⟨(), _, rfl, Query.bind_eq_some.2 ⟨s, m', hs, rfl⟩⟩

/-- What is known without building anything : the memo stays as it is. -/
theorem MarkerAnswer.refl {A : String → List String} {pending : List Failure} {m : Memo}
    {n : String} (h : Builds names A pending m) (hn : m.Answered names n) :
    MarkerAnswer names pending A m n A m where
  builds := h
  grown := Grown.refl
  answered := hn
  own hk hk' := absurd hk' hk
  under hk hk' := absurd hk' hk

/-- The question for a marker keeps the invariant, at any depth that the markers cannot fill. -/
theorem ofDepth_sound (names : Resolution) : ∀ depth, Sound names depth (ofDepth names depth)
  | 0, A, pending, m, n, h, _, hbound => by
    have := h.openMarkers_length_le
    omega
  | depth + 1, A, pending, m, n, h, hled, hbound => by
    by_cases hm : n ∈ m.markers
    · have ho : n ∉ m.openMarkers := fun ho => (h.unbuilt ho).1 hm
      refine ⟨A, m, ?_, MarkerAnswer.refl h (Or.inr (Or.inl hm))⟩
      refine Query.bind_eq_some.2 ⟨m, m, rfl, ?_⟩
      rw [Memo.markerView, pastOpen, if_neg ho, Std.TreeMap.getElem?_eq_some_getElem hm]
      rfl
    by_cases ho : n ∈ m.openMarkers
    · refine ⟨A, m, ?_, MarkerAnswer.refl h (Or.inl ho)⟩
      refine Query.bind_eq_some.2 ⟨m, m, rfl, ?_⟩
      rw [Memo.markerView, pastOpen, if_pos ho, Std.TreeMap.getElem?_eq_none hm]
      simp only [List.contains_eq_mem, ho, decide_true, if_true]
      rfl
    cases hc : names.marker? n with
    | none =>
      refine ⟨A, m, ?_, MarkerAnswer.refl h (Or.inr (Or.inr hc))⟩
      refine Query.bind_eq_some.2 ⟨m, m, rfl, ?_⟩
      rw [Memo.markerView, pastOpen, if_neg ho, Std.TreeMap.getElem?_eq_none hm]
      simp only [List.contains_eq_mem, ho, decide_false, Bool.false_eq_true, if_false, hc]
      rfl
    | some c =>
      have hled' : ∀ o ∈ m.openMarkers, names.Leads o n := hled (by simp [hc])
      have hbound' : names.markers.size < depth + (n :: m.openMarkers).length := by
        rw [List.length_cons]
        omega
      obtain ⟨A', m₁, hrun, hb, hg, hans⟩ := addParts_run (ofDepth_sound names depth) hc hled'
        (List.Subset.refl c.parts) Schema.empty (h.opened ho hm (by simp [hc])) rfl hbound'
      have hbuild := ofDepth_build hm ho hc ((congrFun (ofClass_eq names _ c) _).trans hrun)
      have hclose := hb.close hg.openMarkers hc hled' hans
      refine ⟨Function.update A' n (n :: m.openMarkers), { m₁ with
        openMarkers := m.openMarkers
        markers := m₁.markers.insert n (c.schemaIn names m₁.markerView) },
        ?_, hclose, hg.close hm _, ?_, fun _ _ => Function.update_self .., ?_⟩
      · rw [hbuild, hg.openMarkers]
        simp [Memo.markerView, pastOpen, ho, ClassDecl.schemaIn, ClassDecl.entriesIn,
          hg.openMarkers]
      · exact Or.inr (Or.inl Std.TreeMap.mem_insert_self)
      · intro k hk hk'
        by_cases hkn : k = n
        · simp [hkn]
        · rw [Std.TreeMap.mem_insert, Std.LawfulEqOrd.compare_eq_iff_eq] at hk'
          rw [Function.update_of_ne hkn]
          exact hg.below hk (hk'.resolve_left (Ne.symm hkn)) n (by simp)

end MarkerQuery

/-! ## Between questions -/

theorem Builds.empty (names : Resolution) (A : String → List String) :
    Builds names A [] Memo.empty where
  declared h := by simp [Memo.empty] at h
  self h := by simp [Memo.empty] at h
  leads h := by simp [Memo.empty] at h
  closed h := by simp [Memo.empty] at h
  known h := by simp [Memo.empty] at h
  unbuilt h := by simp [Memo.empty] at h
  nodup := List.nodup_nil
  built := ⟨[], List.nodup_nil, by simp [Memo.empty], by simp, List.Perm.refl _⟩

/-- Where no marker is open the question for a marker has an answer, and this is remembered. -/
theorem Program.markerSchema_run (p : Program) {A : String → List String}
    {pending : List Failure} {m : Memo} (h : Builds p.names A pending m)
    (ho : m.openMarkers = []) (n : String) :
    ∃ A' m', p.markerSchema n m = some (m'.markers[n]?, m') ∧
      MarkerAnswer p.names pending A m n A' m' := by
  obtain ⟨A', m', hrun, hans⟩ := MarkerQuery.ofDepth_sound p.names (p.names.markers.size + 1) n h
    (by simp [ho]) (by simp [ho])
  refine ⟨A', m', ?_, hans⟩
  rw [Program.markerSchema, hrun, Memo.markerView, hans.grown.openMarkers, ho]
  rfl

end FrameCheck
