import FrameCheck.Operation.Apply
import Mathlib.Data.List.Nodup

/-!
# Distinct column names

A schema is well named if the names of its columns differ, and so do those of the columns
nested in them, at any depth (`Schema.WellNamed`). Only `Schema.ofColumns` looks for repeated
names. Every other operation on schemas keeps the names apart that were apart before: it
drops columns, puts one in the place of another, adds one whose name is new, or changes all
names in a way that keeps them apart.

`Schema.Obtained` says which schemas come about by these operations, and `OperationCall.WellNamed`
that all that an operation on frames is given is well named.

* `Schema.Obtained.wellNamed` : the operations on schemas.
* `OperationRule.apply_wellNamed` : the operations on frames.
-/

namespace FrameCheck

mutual

/-- What is nested in the column is well named. -/
def Column.WellNamed : Column → Prop
  | ⟨_, content, _, _⟩ => content.WellNamed

def Content.WellNamed : Content → Prop
  | .value => True
  | .group children => children.WellNamed
  | .frame none => True
  | .frame (some children) => children.WellNamed

/-- The names of the columns differ, at any depth. -/
def Schema.WellNamed : Schema → Prop
  | ⟨columns⟩ => (columns.map Column.name).Nodup ∧ Column.AllWellNamed columns

def Column.AllWellNamed : List Column → Prop
  | [] => True
  | c :: cs => c.WellNamed ∧ Column.AllWellNamed cs

end

theorem Column.allWellNamed_iff : ∀ {cs : List Column},
    AllWellNamed cs ↔ ∀ c ∈ cs, c.WellNamed
  | [] => by simp [AllWellNamed]
  | c :: cs => by
    rw [AllWellNamed, allWellNamed_iff, List.forall_mem_cons]

theorem Schema.wellNamed_iff {s : Schema} :
    s.WellNamed ↔ s.names.Nodup ∧ ∀ c ∈ s.columns, c.WellNamed := by
  obtain ⟨columns⟩ := s
  rw [WellNamed, Column.allWellNamed_iff]
  rfl

/-! ## Columns -/

namespace Column

theorem wellNamed_ofValues (name : String) (type : TypeRef) : (ofValues name type).WellNamed :=
  trivial

theorem wellNamed_ofGroup (name : String) (marker : TypeRef) {children : Schema}
    (h : children.WellNamed) : (ofGroup name marker children).WellNamed := h

theorem wellNamed_ofFrames (name : String) (marker : TypeRef) {children : Option Schema}
    (h : ∀ s ∈ children, s.WellNamed) : (ofFrames name marker children).WellNamed := by
  cases children with
  | none => trivial
  | some s => exact h s rfl

theorem wellNamed_withNullable {c : Column} {nullable : Bool} :
    (c.withNullable nullable).WellNamed ↔ c.WellNamed := by
  cases c
  exact Iff.rfl

theorem wellNamed_renamed {c : Column} {name : String} :
    (c.renamed name).WellNamed ↔ c.WellNamed := by
  cases c
  exact Iff.rfl

/-- What is read from a column is well named. -/
theorem WellNamed.children {c : Column} (h : c.WellNamed) {s : Schema} (hs : c.children = some s) :
    s.WellNamed := by
  obtain ⟨name, content, type, nullable⟩ := c
  cases content with
  | value => cases hs
  | group children =>
    cases hs
    exact h
  | frame children =>
    cases hs
    exact h

end Column

/-! ## Operations on schemas -/

namespace Schema

theorem mem_of_lookup? {s : Schema} {name : String} {c : Column} (h : s.lookup? name = some c) :
    c ∈ s.columns := List.mem_of_find?_eq_some h

theorem wellNamed_empty : empty.WellNamed := ⟨List.nodup_nil, trivial⟩

/-- A list of names of which none stands twice, nor among those seen before. -/
theorem nodup_of_firstRepeated? : ∀ {names seen : List String},
    firstRepeated? seen names = none → names.Nodup ∧ ∀ n ∈ names, n ∉ seen
  | [], _, _ => by simp
  | n :: names, seen, h => by
    unfold firstRepeated? at h
    split at h
    · cases h
    · rename_i hn
      obtain ⟨hnodup, hseen⟩ := nodup_of_firstRepeated? h
      rw [List.contains_eq_mem, decide_eq_true_eq] at hn
      simp only [List.mem_append, List.mem_singleton, not_or] at hseen
      refine ⟨List.nodup_cons.2 ⟨fun hmem => (hseen n hmem).2 rfl, hnodup⟩, fun m hm => ?_⟩
      rcases List.mem_cons.1 hm with rfl | hm
      · exact hn
      · exact (hseen m hm).1

theorem wellNamed_ofColumns {columns : List Column} {s : Schema}
    (hc : ∀ c ∈ columns, c.WellNamed) (h : ofColumns columns = .ok s) : s.WellNamed := by
  unfold ofColumns at h
  split at h
  · cases h
  · rename_i hnone
    cases h
    exact wellNamed_iff.2 ⟨(nodup_of_firstRepeated? hnone).1, hc⟩

theorem map_name_putColumn (added : Column) : ∀ columns : List Column,
    (putColumn added columns).map Column.name =
      if added.name ∈ columns.map Column.name then columns.map Column.name
      else columns.map Column.name ++ [added.name]
  | [] => by simp [putColumn]
  | c :: cs => by
    unfold putColumn
    by_cases h : c.name = added.name
    · simp [h]
    · have hne : added.name ≠ c.name := Ne.symm h
      simp only [beq_iff_eq, h, if_false, List.map_cons, map_name_putColumn added cs, List.mem_cons,
        hne, false_or]
      split <;> rfl

theorem mem_putColumn {added x : Column} : ∀ {columns : List Column},
    x ∈ putColumn added columns → x = added ∨ x ∈ columns
  | [], h => Or.inl (List.mem_singleton.1 h)
  | c :: cs, h => by
    unfold putColumn at h
    split at h
    · rcases List.mem_cons.1 h with rfl | h
      · exact Or.inl rfl
      · exact Or.inr (List.mem_cons_of_mem _ h)
    · rcases List.mem_cons.1 h with rfl | h
      · exact Or.inr (List.mem_cons_self ..)
      · exact (mem_putColumn h).imp_right (List.mem_cons_of_mem _)

namespace WellNamed

variable {s t : Schema}

theorem names_nodup (h : s.WellNamed) : s.names.Nodup := (wellNamed_iff.1 h).1

theorem of_mem (h : s.WellNamed) {c : Column} (hc : c ∈ s.columns) : c.WellNamed :=
  (wellNamed_iff.1 h).2 c hc

theorem lookup? (h : s.WellNamed) {name : String} {c : Column} (hc : s.lookup? name = some c) :
    c.WellNamed := h.of_mem (mem_of_lookup? hc)

/-- Some of the columns, in their order. -/
theorem sublist (h : s.WellNamed) {columns : List Column} (hs : columns.Sublist s.columns) :
    (Schema.mk columns).WellNamed :=
  wellNamed_iff.2 ⟨h.names_nodup.sublist (hs.map _), fun _ hc => h.of_mem (hs.subset hc)⟩

theorem withColumn (h : s.WellNamed) {c : Column} (hc : c.WellNamed) :
    (s.withColumn c).WellNamed := by
  refine wellNamed_iff.2 ⟨?_, fun x hx => ?_⟩
  · rw [names, Schema.withColumn, map_name_putColumn]
    split
    · exact h.names_nodup
    · rename_i hnew
      exact h.names_nodup.append (List.nodup_singleton _)
        (List.disjoint_singleton.2 hnew)
  · rcases mem_putColumn hx with rfl | hx
    · exact hc
    · exact h.of_mem hx

theorem withoutColumn (h : s.WellNamed) (name : String) : (s.withoutColumn name).WellNamed :=
  h.sublist List.filter_sublist

theorem select (h : s.WellNamed) {names : List String} (hs : s.select names = .ok t) :
    t.WellNamed := by
  unfold Schema.select at hs
  split at hs
  · cases hs
    exact h.sublist List.filter_sublist
  · cases hs

/-- Names are replaced by others that differ from each other. -/
theorem mapColumns (h : s.WellNamed) {f : Column → Column}
    (hnames : (s.columns.map fun c => (f c).name).Nodup)
    (hf : ∀ c : Column, c.WellNamed → (f c).WellNamed) : (s.mapColumns f).WellNamed := by
  refine wellNamed_iff.2 ⟨?_, fun c hc => ?_⟩
  · rw [names, Schema.mapColumns, List.map_map]
    exact hnames
  · obtain ⟨d, hd, rfl⟩ := List.mem_map.1 hc
    exact hf d (h.of_mem hd)

theorem mapNullable (h : s.WellNamed) (nullable : Column → Bool) :
    (s.mapColumns fun c => c.withNullable (nullable c)).WellNamed :=
  h.mapColumns h.names_nodup fun _ hc => Column.wellNamed_withNullable.2 hc

theorem mapPrefix (h : s.WellNamed) (front : String) :
    (s.mapColumns fun c => c.renamed (front ++ c.name)).WellNamed := by
  refine h.mapColumns ?_ fun _ hc => Column.wellNamed_renamed.2 hc
  have hinjective : Function.Injective (front ++ ·) := fun a b hab => by
    simpa [String.ext_iff] using hab
  have hnames := h.names_nodup.map hinjective
  rwa [names, List.map_map] at hnames

theorem rename (h : s.WellNamed) {old new : String} (hs : s.rename old new = .ok t) :
    t.WellNamed := by
  unfold Schema.rename at hs
  split at hs
  · cases hs
  · split at hs
    · cases hs
    · rename_i hfree
      cases hs
      rw [not_and, ne_eq, contains, Bool.not_eq_true] at hfree
      -- The new name is the old one, or no column has it.
      have hnew : ∀ c ∈ s.columns, c.name = new → c.name = old := by
        intro c hc hn
        by_contra hne
        have hfound := hfree fun he => hne (he ▸ hn)
        rw [Schema.lookup?, Option.isSome_eq_false_iff, Option.isNone_iff_eq_none,
          List.find?_eq_none] at hfound
        exact hfound c hc (by simp [hn])
      refine h.mapColumns ?_ fun c hwell => ?_
      · refine List.Nodup.map_on ?_ (List.Nodup.of_map _ h.names_nodup)
        intro c hc d hd heq
        have hinjective := List.inj_on_of_nodup_map h.names_nodup hc hd
        have hname : ∀ x : Column, (if x.name == old then x.renamed new else x).name =
            if x.name = old then new else x.name := by
          intro x
          by_cases hx : x.name = old <;> simp [hx, Column.renamed]
        rw [hname, hname] at heq
        refine hinjective ?_
        split at heq <;> split at heq
        · simp_all
        · exact absurd (hnew d hd heq.symm) ‹_›
        · exact absurd (hnew c hc heq) ‹_›
        · exact heq
      · split
        · exact Column.wellNamed_renamed.2 hwell
        · exact hwell

/-- Columns are merged one by one; each is dropped, put in the place of another or added. -/
theorem mergeColumns {policy : MergePolicy} : ∀ {columns merged result : List Column},
    (Schema.mk merged).WellNamed → (∀ c ∈ columns, c.WellNamed) →
      mergeColumns policy merged columns = .ok result → (Schema.mk result).WellNamed
  | [], _, _, hm, _, h => by
    unfold Schema.mergeColumns at h
    cases h
    exact hm
  | c :: cs, merged, result, hm, hc, h => by
    have hcs : ∀ d ∈ cs, d.WellNamed := fun d hd => hc d (List.mem_cons_of_mem _ hd)
    have hwell := hc c (List.mem_cons_self ..)
    unfold Schema.mergeColumns at h
    split at h
    · cases policy with
      | keep => exact mergeColumns hm hcs h
      | overwrite => exact mergeColumns (hm.withColumn hwell) hcs h
      | error => cases h
    · rename_i hnew
      refine mergeColumns ?_ hcs h
      have hput := hm.withColumn hwell
      have hnames : c.name ∉ merged.map Column.name := by
        intro hmem
        obtain ⟨d, hd, hdc⟩ := List.mem_map.1 hmem
        exact hnew (List.any_eq_true.2 ⟨d, hd, beq_iff_eq.2 hdc⟩)
      have hnodup := hput.names_nodup
      rw [names, Schema.withColumn, map_name_putColumn, if_neg hnames] at hnodup
      refine wellNamed_iff.2 ⟨?_, fun x hx => ?_⟩
      · rwa [names, List.map_append]
      rcases List.mem_append.1 hx with hx | hx
      · exact hm.of_mem hx
      · exact List.mem_singleton.1 hx ▸ hwell

theorem merge (h : s.WellNamed) (ht : t.WellNamed) {policy : MergePolicy} {r : Schema}
    (hr : s.merge t policy = .ok r) : r.WellNamed := by
  unfold Schema.merge at hr
  cases hmerged : Schema.mergeColumns policy s.columns t.columns with
  | error e =>
    rw [hmerged] at hr
    cases hr
  | ok columns =>
    rw [hmerged] at hr
    cases hr
    exact mergeColumns (h.sublist (List.Sublist.refl _)) (fun c hc => ht.of_mem hc) hmerged

theorem withoutAll (h : s.WellNamed) (names : List String) :
    (OperationCall.withoutAll s names).WellNamed := by
  unfold OperationCall.withoutAll
  induction names generalizing s with
  | nil => exact h
  | cons n names ih => exact ih (h.withoutColumn n)

end WellNamed

end Schema

/-! ### What can be obtained -/

mutual

/-- The schemas that come about from lists of columns by the operations on schemas. -/
inductive Schema.Obtained : Schema → Prop
  | empty : Schema.Obtained Schema.empty
  | ofColumns {columns : List Column} {s : Schema} : (∀ c ∈ columns, Column.Obtained c) →
      Schema.ofColumns columns = .ok s → Schema.Obtained s
  | withColumn {s : Schema} {c : Column} : Schema.Obtained s → Column.Obtained c →
      Schema.Obtained (s.withColumn c)
  | withoutColumn {s : Schema} (name : String) : Schema.Obtained s →
      Schema.Obtained (s.withoutColumn name)
  | select {s t : Schema} {names : List String} : Schema.Obtained s → s.select names = .ok t →
      Schema.Obtained t
  | rename {s t : Schema} {old new : String} : Schema.Obtained s → s.rename old new = .ok t →
      Schema.Obtained t
  | merge {s t r : Schema} {policy : MergePolicy} : Schema.Obtained s → Schema.Obtained t →
      s.merge t policy = .ok r → Schema.Obtained r
  | mapNullable {s : Schema} (nullable : Column → Bool) : Schema.Obtained s →
      Schema.Obtained (s.mapColumns fun c => c.withNullable (nullable c))
  | mapPrefix {s : Schema} (front : String) : Schema.Obtained s →
      Schema.Obtained (s.mapColumns fun c => c.renamed (front ++ c.name))

/-- The columns over such schemas. -/
inductive Column.Obtained : Column → Prop
  | ofValues (name : String) (type : TypeRef) : Column.Obtained (Column.ofValues name type)
  | ofGroup (name : String) (marker : TypeRef) {children : Schema} : Schema.Obtained children →
      Column.Obtained (Column.ofGroup name marker children)
  | ofFrames (name : String) (marker : TypeRef) {children : Schema} : Schema.Obtained children →
      Column.Obtained (Column.ofFrames name marker (some children))
  | ofUnknownFrames (name : String) (marker : TypeRef) :
      Column.Obtained (Column.ofFrames name marker none)
  | withNullable {c : Column} (nullable : Bool) : Column.Obtained c →
      Column.Obtained (c.withNullable nullable)
  | renamed {c : Column} (name : String) : Column.Obtained c → Column.Obtained (c.renamed name)

end

mutual

theorem Schema.Obtained.wellNamed {s : Schema} : s.Obtained → s.WellNamed
  | .empty => Schema.wellNamed_empty
  | .ofColumns hc h => Schema.wellNamed_ofColumns (fun c hmem => (hc c hmem).wellNamed) h
  | .withColumn hs hc => hs.wellNamed.withColumn hc.wellNamed
  | .withoutColumn name hs => hs.wellNamed.withoutColumn name
  | .select hs h => hs.wellNamed.select h
  | .rename hs h => hs.wellNamed.rename h
  | .merge hs ht h => hs.wellNamed.merge ht.wellNamed h
  | .mapNullable nullable hs => hs.wellNamed.mapNullable nullable
  | .mapPrefix front hs => hs.wellNamed.mapPrefix front

theorem Column.Obtained.wellNamed {c : Column} : c.Obtained → c.WellNamed
  | .ofValues name type => Column.wellNamed_ofValues name type
  | .ofGroup name marker hs => Column.wellNamed_ofGroup name marker hs.wellNamed
  | .ofFrames name marker hs => Column.wellNamed_ofFrames name marker fun t ht => by
      cases ht
      exact hs.wellNamed
  | .ofUnknownFrames name marker => Column.wellNamed_ofFrames name marker nofun
  | .withNullable _ hc => Column.wellNamed_withNullable.2 hc.wellNamed
  | .renamed _ hc => Column.wellNamed_renamed.2 hc.wellNamed

end

/-! ## Operations on frames -/

/-- The schema of the binding is well named, if it is known. -/
def Binding.WellNamed (b : Binding) : Prop := ∀ s ∈ b.schema?, s.WellNamed

theorem Binding.wellNamed_unknown : Binding.unknown.WellNamed := nofun

theorem Binding.wellNamed_known {shape : Shape} {schema : Schema} {origin : Option String} :
    (Binding.known shape schema origin).WellNamed ↔ schema.WellNamed := by
  simp [Binding.WellNamed, Binding.schema?]

theorem Binding.WellNamed.withShape {b : Binding} (h : b.WellNamed) (shape : Shape) :
    (b.withShape shape).WellNamed := by
  cases b with
  | unknown => exact h
  | known => exact h

/-- The frame that is an argument is well named. -/
def OperationArg.WellNamed : OperationArg → Prop
  | .frame b => b.WellNamed
  | _ => True

structure OperationCall.WellNamed (call : OperationCall) : Prop where
  receiver : call.receiver.WellNamed
  args : ∀ a ∈ call.args, a.WellNamed
  typeArgs : ∀ b ∈ call.typeArgs, b.WellNamed

namespace OperationCall

variable {α β : Type}

theorem bind_eq_ok {x : Transformed α} {f : α → Transformed β} {b : β} :
    (x >>= f) = .ok b ↔ ∃ a, x = .ok a ∧ f a = .ok b := by
  cases x with
  | error e => simp [bind, Except.bind]
  | ok a => simp [bind, Except.bind]

theorem ofSchema_eq_ok {x : Except SchemaError α} {a : α} : ofSchema x = .ok a ↔ x = .ok a := by
  cases x <;> simp [ofSchema]

theorem known_eq_ok {o : Option α} {a : α} : known o = .ok a ↔ o = some a := by
  cases o <;> simp [known]

namespace WellNamed

variable {call : OperationCall} {s t : Schema}

theorem receiverSchema (h : call.WellNamed) (hs : call.receiverSchema = .ok s) : s.WellNamed :=
  h.receiver s (known_eq_ok.1 hs)

theorem select (h : call.WellNamed) (hs : call.select = .ok s) : s.WellNamed := by
  obtain ⟨names, -, hs⟩ := bind_eq_ok.1 hs
  obtain ⟨input, hinput, hs⟩ := bind_eq_ok.1 hs
  exact (h.receiverSchema hinput).select (ofSchema_eq_ok.1 hs)

theorem distinct (h : call.WellNamed) (hs : call.distinct = .ok s) : s.WellNamed := by
  obtain ⟨input, hinput, hs⟩ := bind_eq_ok.1 hs
  split at hs
  · cases hs
    exact h.receiverSchema hinput
  · obtain ⟨names, -, hs⟩ := bind_eq_ok.1 hs
    exact (h.receiverSchema hinput).select (ofSchema_eq_ok.1 hs)

theorem remove (h : call.WellNamed) (hs : call.remove = .ok s) : s.WellNamed := by
  obtain ⟨names, -, hs⟩ := bind_eq_ok.1 hs
  obtain ⟨input, hinput, hs⟩ := bind_eq_ok.1 hs
  obtain ⟨-, -, hs⟩ := bind_eq_ok.1 hs
  cases hs
  exact (h.receiverSchema hinput).withoutAll names

theorem rename (h : call.WellNamed) (hs : call.rename = .ok s) : s.WellNamed := by
  unfold OperationCall.rename at hs
  split at hs
  · obtain ⟨input, hinput, hs⟩ := bind_eq_ok.1 hs
    exact (h.receiverSchema hinput).rename (ofSchema_eq_ok.1 hs)
  · cases hs

theorem addColumn (h : s.WellNamed) {name : String} {type : Option TypeRef}
    (ht : OperationCall.addColumn s name type = .ok t) : t.WellNamed := by
  unfold OperationCall.addColumn at ht
  split at ht
  · cases ht
  · cases ht
    exact h.withColumn (Column.wellNamed_ofValues _ _)

theorem addColumns : ∀ {added : List (String × Option TypeRef)} {s : Schema}, s.WellNamed →
    OperationCall.addColumns s added = .ok t → t.WellNamed
  | [], s, h, ht => by
    cases ht
    exact h
  | (name, type) :: more, s, h, ht => by
    obtain ⟨s', hs', ht⟩ := bind_eq_ok.1 ht
    exact addColumns (addColumn h hs') ht

theorem add (h : call.WellNamed) (hs : call.add = .ok s) : s.WellNamed := by
  unfold OperationCall.add at hs
  split at hs
  · obtain ⟨input, hinput, hs⟩ := bind_eq_ok.1 hs
    exact addColumns (h.receiverSchema hinput) hs
  · obtain ⟨input, hinput, hs⟩ := bind_eq_ok.1 hs
    obtain ⟨name, -, hs⟩ := bind_eq_ok.1 hs
    exact addColumn (h.receiverSchema hinput) hs

theorem update (h : call.WellNamed) (hs : call.update = .ok s) : s.WellNamed := by
  obtain ⟨input, hinput, hs⟩ := bind_eq_ok.1 hs
  obtain ⟨name, -, hs⟩ := bind_eq_ok.1 hs
  obtain ⟨-, -, hs⟩ := bind_eq_ok.1 hs
  have hwell := h.receiverSchema hinput
  split at hs
  · cases hs
    exact hwell.withColumn (Column.wellNamed_ofValues _ _)
  · cases hs
    exact hwell

theorem sortBy (h : call.WellNamed) (hs : call.sortBy = .ok s) : s.WellNamed := by
  obtain ⟨input, hinput, hs⟩ := bind_eq_ok.1 hs
  obtain ⟨-, -, hs⟩ := bind_eq_ok.1 hs
  cases hs
  exact h.receiverSchema hinput

theorem dropNulls (h : call.WellNamed) (hs : call.dropNulls = .ok s) : s.WellNamed := by
  obtain ⟨names, -, hs⟩ := bind_eq_ok.1 hs
  obtain ⟨input, hinput, hs⟩ := bind_eq_ok.1 hs
  obtain ⟨-, -, hs⟩ := bind_eq_ok.1 hs
  cases hs
  have hwell := h.receiverSchema hinput
  refine hwell.mapColumns ?_ fun c hc => ?_
  · refine (congrArg List.Nodup (List.map_congr_left fun c _ => ?_)).mp hwell.names_nodup
    split <;> rfl
  · split
    · exact Column.wellNamed_withNullable.2 hc
    · exact hc

theorem groupBy (h : call.WellNamed) (hs : call.groupBy = .ok s) : s.WellNamed := by
  obtain ⟨keys, -, hs⟩ := bind_eq_ok.1 hs
  obtain ⟨input, hinput, hs⟩ := bind_eq_ok.1 hs
  obtain ⟨keySchema, hkeys, hs⟩ := bind_eq_ok.1 hs
  have hwell := h.receiverSchema hinput
  refine Schema.wellNamed_ofColumns (fun c hc => ?_) (ofSchema_eq_ok.1 hs)
  rcases List.mem_append.1 hc with hc | hc
  · exact (hwell.select (ofSchema_eq_ok.1 hkeys)).of_mem hc
  · rw [List.mem_singleton.1 hc]
    refine Column.wellNamed_ofFrames _ _ fun rest hrest => ?_
    cases hrest
    exact hwell.withoutAll keys

theorem groupCount (h : call.WellNamed) (hs : call.groupCount = .ok s) : s.WellNamed := by
  obtain ⟨input, hinput, hs⟩ := bind_eq_ok.1 hs
  exact addColumn ((h.receiverSchema hinput).withoutColumn _) hs

theorem joined {left right : Schema} {keys : List String} (hl : left.WellNamed)
    (hr : right.WellNamed) (hs : OperationCall.joined left right keys = .ok s) : s.WellNamed := by
  unfold OperationCall.joined at hs
  cases hkeys : right.select keys with
  | error e =>
    rw [hkeys] at hs
    cases hs
  | ok rightKeys =>
    rw [hkeys] at hs
    cases hmerged : left.merge rightKeys .overwrite with
    | error e => simp [bind, Except.bind, hmerged] at hs
    | ok merged =>
      simp only [bind, Except.bind, hmerged] at hs
      exact (hl.merge (hr.select hkeys) hmerged).merge (hr.withoutAll keys) hs

theorem join (h : call.WellNamed) (hs : call.join = .ok s) : s.WellNamed := by
  obtain ⟨left, hleft, hs⟩ := bind_eq_ok.1 hs
  split at hs
  · rename_i rightBinding keyArgs hargs
    obtain ⟨right, hright, hs⟩ := bind_eq_ok.1 hs
    obtain ⟨keys, -, hs⟩ := bind_eq_ok.1 hs
    obtain ⟨-, -, hs⟩ := bind_eq_ok.1 hs
    have hframe : rightBinding.WellNamed := h.args (.frame rightBinding) (by simp [hargs])
    exact joined (h.receiverSchema hleft) (hframe right (known_eq_ok.1 hright))
      (ofSchema_eq_ok.1 hs)
  · cases hs

theorem concat (h : call.WellNamed) (hs : call.concat = .ok s) : s.WellNamed := by
  obtain ⟨left, hleft, hs⟩ := bind_eq_ok.1 hs
  split at hs
  · rename_i rightBinding hargs
    obtain ⟨right, hright, hs⟩ := bind_eq_ok.1 hs
    obtain ⟨-, -, hs⟩ := bind_eq_ok.1 hs
    have hframe : rightBinding.WellNamed := h.args (.frame rightBinding) (by simp [hargs])
    have hwidened := (h.receiverSchema hleft).mapNullable (stackedNullable right)
    have hextra := (hframe right (known_eq_ok.1 hright)).mapNullable
      fun c => c.nullable || c.kind == .value
    exact hwidened.merge hextra (ofSchema_eq_ok.1 hs)
  · cases hs

theorem pairColumns : ∀ {args : List OperationArg} {columns : List Column},
    OperationCall.pairColumns args = .ok columns → ∀ c ∈ columns, c.WellNamed
  | [], columns, h, c, hc => by
    cases h
    cases hc
  | arg :: args, columns, h, c, hc => by
    unfold OperationCall.pairColumns at h
    split at h
    · rename_i heq
      cases heq
    · rename_i heq
      cases heq
      obtain ⟨rest, hrest, h⟩ := bind_eq_ok.1 h
      cases h
      rcases List.mem_cons.1 hc with rfl | hc
      · exact Column.wellNamed_ofValues _ _
      · exact pairColumns hrest c hc
    · cases h

theorem dataFrameOf (hs : call.dataFrameOf = .ok s) : s.WellNamed := by
  obtain ⟨columns, hcolumns, hs⟩ := bind_eq_ok.1 hs
  exact Schema.wellNamed_ofColumns (pairColumns hcolumns) (ofSchema_eq_ok.1 hs)

theorem markerArg (h : call.WellNamed) {b : Binding} (hb : call.markerArg = .ok b) :
    b.WellNamed := by
  unfold OperationCall.markerArg at hb
  split at hb
  · rename_i hargs
    cases hb
    exact h.typeArgs _ (by simp [hargs])
  · cases hb

end WellNamed

end OperationCall

/-- An operation that is given well named schemas returns a well named one. -/
theorem OperationRule.apply_wellNamed {rule : OperationRule} {call : OperationCall} {b : Binding}
    (h : call.WellNamed) (hb : rule.apply call = .ok b) : b.WellNamed := by
  have hinferred : ∀ {x : OperationCall.Transformed Schema},
      x.map (fun s => Binding.known rule.output s none) = .ok b →
        (∀ s, x = .ok s → s.WellNamed) → b.WellNamed := by
    intro x hx hs
    cases x with
    | error e => cases hx
    | ok s =>
      cases hx
      exact Binding.wellNamed_known.2 (hs s rfl)
  have hmarker : call.markerArg.map (·.withShape rule.output) = .ok b → b.WellNamed := by
    intro hx
    cases hm : call.markerArg with
    | error e =>
      rw [hm] at hx
      cases hx
    | ok marker =>
      rw [hm] at hx
      cases hx
      exact (h.markerArg hm).withShape _
  unfold OperationRule.apply at hb
  cases hk : rule.kind <;> rw [hk] at hb
  case select => exact hinferred hb fun s hs => h.select hs
  case distinct => exact hinferred hb fun s hs => h.distinct hs
  case remove => exact hinferred hb fun s hs => h.remove hs
  case rename => exact hinferred hb fun s hs => h.rename hs
  case add => exact hinferred hb fun s hs => h.add hs
  case update => exact hinferred hb fun s hs => h.update hs
  case join => exact hinferred hb fun s hs => h.join hs
  case concat => exact hinferred hb fun s hs => h.concat hs
  case groupBy => exact hinferred hb fun s hs => h.groupBy hs
  case groupCount => exact hinferred hb fun s hs => h.groupCount hs
  case groupToDataFrame => exact hinferred hb fun s hs => h.receiverSchema hs
  case passthrough => exact hinferred hb fun s hs => h.receiverSchema hs
  case row => exact hinferred hb fun s hs => h.receiverSchema hs
  case sortBy => exact hinferred hb fun s hs => h.sortBy hs
  case dropNulls => exact hinferred hb fun s hs => h.dropNulls hs
  case cast => exact hmarker hb
  case emptyDataFrame => exact hmarker hb
  case dataFrameOf => exact hinferred hb fun s hs => OperationCall.WellNamed.dataFrameOf hs

end FrameCheck
