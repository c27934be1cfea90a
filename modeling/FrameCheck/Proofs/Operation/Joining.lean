import FrameCheck.Proofs.Schema.Merging

/-!
# Joins

A join merges the right frame into the left one in two halves : its key columns in the place of
those of the left frame, and then the others, of which none may be there already. So a join
succeeds exactly if there is a key, both frames have all keys, and they share no other name
(`Joinable`); all of this is symmetric in the frames. What is reported otherwise is the first fault
in the order of the keys, and then in the order of the right frame (`JoinFault`).

* `OperationRule.apply_join` : what a join comes to, and what it comes to with the frames the other
  way round.
-/

namespace FrameCheck

namespace OperationCall

variable {left right : Schema} {keys : List String}

/-- The names by which two frames are joined : those given, or those that both frames have. -/
def keyNames (left right : Schema) (given : List String) : List String :=
  if given.isEmpty then left.names.filter fun n => n ∈ right.names else given

/-- The join of the frames by the keys can be built. -/
structure Joinable (left right : Schema) (keys : List String) : Prop where
  nonempty : keys ≠ []
  shared : ∀ k ∈ keys, k ∈ left.names ∧ k ∈ right.names
  /-- No other name is shared. -/
  all : ∀ n ∈ left.names, n ∈ right.names → n ∈ keys

/-- The columns of the left frame, the keys as the right one has them, and then the columns of
the right frame that are no keys. -/
def joinColumns (left right : Schema) (keys : List String) : List Column :=
  left.columns.map (fun c => if c.name ∈ keys then (right.lookup? c.name).getD c else c)
    ++ right.columns.filter fun c => c.name ∉ keys

/-- What is reported of a join that cannot be built. -/
inductive JoinFault (l r : Binding) (left right : Schema) (given : List String) :
    TransformError → Prop
  | nothingShared (hgiven : given = []) (h : ∀ n ∈ left.names, n ∉ right.names) :
      JoinFault l r left right given (.schema (.noCommonColumns l.describe r.describe))
  | leftLacks {before after : List String} {key : String}
      (hkeys : keyNames left right given = before ++ key :: after)
      (hbefore : ∀ k ∈ before, k ∈ left.names ∧ k ∈ right.names) (hkey : key ∉ left.names) :
      JoinFault l r left right given (.schema (.unknownColumn key left.names))
  | rightLacks {before after : List String} {key : String}
      (hkeys : keyNames left right given = before ++ key :: after)
      (hbefore : ∀ k ∈ before, k ∈ left.names ∧ k ∈ right.names) (hkey : key ∈ left.names)
      (hlacks : key ∉ right.names) :
      JoinFault l r left right given (.operand r.describe (.unknownColumn key right.names))
  | collides {before after : List String} {name : String}
      (hkeys : ∀ k ∈ keyNames left right given, k ∈ left.names ∧ k ∈ right.names)
      (hnames : right.names = before ++ name :: after)
      (hbefore : ∀ n ∈ before, n ∈ keyNames left right given ∨ n ∉ left.names)
      (hname : name ∉ keyNames left right given) (hleft : name ∈ left.names) :
      JoinFault l r left right given (.schema (.duplicateColumn name))

/-! ## Keys -/

theorem mem_keyNames_comm {given : List String} {n : String} :
    n ∈ keyNames left right given ↔ n ∈ keyNames right left given := by
  unfold keyNames
  split
  · simp only [List.mem_filter, decide_eq_true_iff, and_comm]
  · exact Iff.rfl

theorem keyNames_eq_nil_comm {given : List String} :
    keyNames left right given = [] ↔ keyNames right left given = [] := by
  simp only [List.eq_nil_iff_forall_not_mem, @mem_keyNames_comm left]

theorem mem_keyNames_nil {n : String} :
    n ∈ keyNames left right [] ↔ n ∈ left.names ∧ n ∈ right.names := by
  simp [keyNames]

theorem Joinable.symm {given : List String} (h : Joinable left right (keyNames left right given)) :
    Joinable right left (keyNames right left given) where
  nonempty := fun hnil => h.nonempty (keyNames_eq_nil_comm.2 hnil)
  shared := fun k hk => (h.shared k (mem_keyNames_comm.2 hk)).symm
  all := fun n hn hn' => mem_keyNames_comm.1 (h.all n hn' hn)

theorem textsOf_map (texts : List String) : textsOf (texts.map .text) = .ok texts := by
  induction texts with
  | nil => rfl
  | cons text texts ih =>
    rw [List.map_cons, textsOf, ih]
    rfl

/-- Keys that both frames have are no fault. -/
theorem requireKeys_append {subject : String} {before after : List String}
    (h : ∀ k ∈ before, k ∈ left.names ∧ k ∈ right.names) :
    requireKeys left right subject (before ++ after) = requireKeys left right subject after := by
  induction before with
  | nil => rfl
  | cons key before ih =>
    obtain ⟨hl, hr⟩ := h key List.mem_cons_self
    obtain ⟨c, hc⟩ := Schema.require_eq_ok hl
    obtain ⟨d, hd⟩ := Schema.require_eq_ok hr
    rw [List.cons_append, requireKeys, hc, hd]
    exact ih fun k hk => h k (List.mem_cons_of_mem _ hk)

theorem requireKeys_of_shared {subject : String}
    (h : ∀ k ∈ keys, k ∈ left.names ∧ k ∈ right.names) :
    requireKeys left right subject keys = .ok () := by
  rw [← List.append_nil keys, requireKeys_append h]
  rfl

theorem requireAll_of_mem (h : ∀ k ∈ keys, k ∈ right.names) : right.requireAll keys = .ok () := by
  induction keys with
  | nil => rfl
  | cons key keys ih =>
    obtain ⟨c, hc⟩ := Schema.require_eq_ok (h key List.mem_cons_self)
    rw [Schema.requireAll, hc]
    exact ih fun k hk => h k (List.mem_cons_of_mem _ hk)

theorem columns_withoutAll (s : Schema) (names : List String) :
    (withoutAll s names).columns = s.columns.filter fun c => c.name ∉ names := by
  rw [withoutAll]
  induction names generalizing s with
  | nil => simp
  | cons n names ih =>
    rw [List.foldl_cons, ih, Schema.withoutColumn, List.filter_filter]
    refine List.filter_congr fun c _ => ?_
    by_cases h : c.name = n <;> simp [h]

/-! ## Columns -/

/-- The left frame with the keys as the right one has them. -/
def withKeys (left right : Schema) (keys : List String) : Schema :=
  left.mapColumns fun c => if c.name ∈ keys then (right.lookup? c.name).getD c else c

theorem names_withKeys : (withKeys left right keys).names = left.names := by
  rw [withKeys, Schema.mapColumns, Schema.names, List.map_map]
  refine List.map_congr_left fun c _ => ?_
  show (if c.name ∈ keys then (right.lookup? c.name).getD c else c).name = c.name
  split
  · cases h : right.lookup? c.name with
    | none => rfl
    | some d => exact Schema.name_of_lookup? h
  · rfl

section

variable (hl : left.names.Nodup) (hr : right.names.Nodup)
  (hkeys : ∀ k ∈ keys, k ∈ left.names ∧ k ∈ right.names)

include hl hr hkeys

/-- The first half of a join puts the keys of the right frame in the places of those of the left. -/
theorem merge_keys : ∃ rightKeys, right.select keys = .ok rightKeys ∧
    left.merge rightKeys .overwrite = .ok (withKeys left right keys) := by
  let rightKeys : Schema := ⟨right.columns.filter fun c => keys.contains c.name⟩
  have hselect : right.select keys = .ok rightKeys := by
    rw [Schema.select, requireAll_of_mem fun k hk => (hkeys k hk).2]
  have hnodup : rightKeys.names.Nodup := hr.sublist (List.filter_sublist.map _)
  have hnew : rightKeys.columns.filter (fun c => c.name ∉ left.names) = [] := by
    refine List.filter_eq_nil_iff.2 fun c hc => ?_
    have hkey : c.name ∈ keys := List.contains_iff_mem.1 (List.mem_filter.1 hc).2
    simpa using (hkeys c.name hkey).1
  have hlookup (c : Column) : (rightKeys.lookup? c.name).getD c
      = if c.name ∈ keys then (right.lookup? c.name).getD c else c := by
    rw [show rightKeys.lookup? c.name = if keys.contains c.name then right.lookup? c.name else none
      from Schema.lookup?_filter keys.contains right c.name]
    by_cases h : c.name ∈ keys <;> simp [h]
  refine ⟨rightKeys, hselect, ?_⟩
  rw [Schema.merge_overwrite hl hnodup, hnew, List.append_nil,
    List.map_congr_left fun c _ => hlookup c]
  rfl

/-- The second half of a join adds the other columns of the right frame. -/
theorem joined_eq : joined left right keys
    = match (withoutAll right keys).columns.find? fun c => c.name ∈ left.names with
      | some c => .error (.duplicateColumn c.name)
      | none => .ok ⟨joinColumns left right keys⟩ := by
  obtain ⟨rightKeys, hselect, hmerge⟩ := merge_keys hl hr hkeys
  have hnodup : (withoutAll right keys).names.Nodup := by
    rw [Schema.names, columns_withoutAll]
    exact hr.sublist (List.filter_sublist.map _)
  show (right.select keys >>= fun rightKeys => left.merge rightKeys .overwrite >>= fun merged =>
    merged.merge (withoutAll right keys) .error) = _
  rw [hselect]
  show (left.merge rightKeys .overwrite >>= fun merged =>
    merged.merge (withoutAll right keys) .error) = _
  rw [hmerge]
  show (withKeys left right keys).merge (withoutAll right keys) .error = _
  rw [Schema.merge_error hnodup, names_withKeys, columns_withoutAll]
  rfl

end

/-- The first column of the right frame that is no key and whose name the left frame has. -/
theorem find?_withoutAll {before after : List String} {name : String}
    (hnames : right.names = before ++ name :: after)
    (hbefore : ∀ n ∈ before, n ∈ keys ∨ n ∉ left.names) (hname : name ∉ keys)
    (hleft : name ∈ left.names) :
    ∃ c, (withoutAll right keys).columns.find? (fun c => c.name ∈ left.names) = some c ∧
      c.name = name := by
  obtain ⟨cs, ds, hcolumns, rfl, hds⟩ := List.map_eq_append_iff.1 hnames
  obtain ⟨c, ds, rfl, rfl, rfl⟩ := List.map_eq_cons_iff.1 hds
  have hnone : (cs.filter fun c => c.name ∉ keys).find? (fun c => c.name ∈ left.names) = none := by
    refine List.find?_eq_none.2 fun d hd hshared => ?_
    obtain ⟨hd, hkey⟩ := List.mem_filter.1 hd
    rw [decide_eq_true_iff] at hkey hshared
    exact (hbefore d.name (List.mem_map_of_mem hd)).elim hkey fun h => h hshared
  refine ⟨c, ?_, rfl⟩
  rw [columns_withoutAll, hcolumns, List.filter_append,
    List.filter_cons_of_pos (by simpa using hname), List.find?_append, hnone,
    List.find?_cons_of_pos (by simpa using hleft)]
  rfl

/-! ## Outcomes -/

section

variable {l r : Binding} {given : List String} {typeArgs : List Binding}

/-- The call that joins two frames. -/
def joining (l r : Binding) (given : List String) (typeArgs : List Binding) : OperationCall :=
  ⟨l, .frame r :: given.map .text, typeArgs⟩

theorem joinKeys_eq (h : keyNames left right given ≠ []) :
    (joining l r given typeArgs).joinKeys left right r (given.map .text)
      = .ok (keyNames left right given) := by
  cases given with
  | nil =>
    have hcommon : left.names.filter right.contains = keyNames left right [] :=
      List.filter_congr fun n _ => by
        rw [Bool.eq_iff_iff, Schema.contains_iff, decide_eq_true_iff]
    rw [List.map_nil, joinKeys, hcommon]
    exact if_neg fun hempty => h (List.isEmpty_iff.1 hempty)
  | cons key keys => exact textsOf_map (key :: keys)

variable (hleft : l.schema? = some left) (hright : r.schema? = some right)

include hleft hright

/-- A join takes its keys, looks for them in both frames, and then merges. -/
theorem join_eq_bind : (joining l r given typeArgs).join =
    ((joining l r given typeArgs).joinKeys left right r (given.map .text) >>= fun keys =>
      requireKeys left right r.describe keys >>= fun _ => ofSchema (joined left right keys)) := by
  rw [join, receiverSchema, show (joining l r given typeArgs).receiver = l from rfl, hleft]
  show (known r.schema? >>= _) = _
  rw [hright]
  rfl

theorem join_of_nothingShared (h : ∀ n ∈ left.names, n ∉ right.names) :
    (joining l r [] typeArgs).join = .error (.schema (.noCommonColumns l.describe r.describe)) := by
  have hcommon : left.names.filter right.contains = [] :=
    List.filter_eq_nil_iff.2 fun n hn hc => h n hn (Schema.contains_iff.1 hc)
  rw [join_eq_bind hleft hright, List.map_nil, joinKeys, hcommon]
  rfl

theorem join_eq (h : keyNames left right given ≠ []) :
    (joining l r given typeArgs).join =
      (requireKeys left right r.describe (keyNames left right given) >>= fun _ =>
        ofSchema (joined left right (keyNames left right given))) := by
  rw [join_eq_bind hleft hright, joinKeys_eq h]
  rfl

variable (hl : left.names.Nodup) (hr : right.names.Nodup)

include hl hr

theorem join_of_joinable (h : Joinable left right (keyNames left right given)) :
    (joining l r given typeArgs).join
      = .ok ⟨joinColumns left right (keyNames left right given)⟩ := by
  have hnone : (withoutAll right (keyNames left right given)).columns.find?
      (fun c => c.name ∈ left.names) = none := by
    rw [columns_withoutAll]
    refine List.find?_eq_none.2 fun c hc hshared => ?_
    obtain ⟨hc, hkey⟩ := List.mem_filter.1 hc
    exact of_decide_eq_true hkey (h.all c.name (of_decide_eq_true hshared) (List.mem_map_of_mem hc))
  rw [join_eq hleft hright h.nonempty, requireKeys_of_shared h.shared, joined_eq hl hr h.shared,
    hnone]
  rfl

theorem join_of_fault {e : TransformError} (h : JoinFault l r left right given e) :
    (joining l r given typeArgs).join = .error e := by
  cases h with
  | nothingShared hgiven h =>
    subst hgiven
    exact join_of_nothingShared hleft hright h
  | leftLacks hkeys hbefore hkey =>
    rw [join_eq hleft hright (by simp [hkeys]), hkeys, requireKeys_append hbefore, requireKeys,
      Schema.require_eq_error hkey]
    rfl
  | rightLacks hkeys hbefore hkey hlacks =>
    obtain ⟨c, hc⟩ := Schema.require_eq_ok hkey
    rw [join_eq hleft hright (by simp [hkeys]), hkeys, requireKeys_append hbefore, requireKeys, hc,
      Schema.require_eq_error hlacks]
    rfl
  | @collides before after name hkeys hnames hbefore hname hleftName =>
    have hne : keyNames left right given ≠ [] := by
      cases given with
      | nil =>
        have hnameRight : name ∈ right.names := by simp [hnames]
        exact absurd (mem_keyNames_nil.2 ⟨hleftName, hnameRight⟩) hname
      | cons key keys => exact List.cons_ne_nil key keys
    obtain ⟨c, hc, rfl⟩ := find?_withoutAll hnames hbefore hname hleftName
    rw [join_eq hleft hright hne, requireKeys_of_shared hkeys, joined_eq hl hr hkeys, hc]
    rfl

end

/-- A join can be built, or something is at fault. -/
theorem joinable_or_fault (l r : Binding) (left right : Schema) (given : List String) :
    Joinable left right (keyNames left right given) ∨ ∃ e, JoinFault l r left right given e := by
  by_cases hnothing : given = [] ∧ ∀ n ∈ left.names, n ∉ right.names
  · exact Or.inr ⟨_, .nothingShared hnothing.1 hnothing.2⟩
  have hne : keyNames left right given ≠ [] := by
    cases given with
    | nil =>
      intro hnil
      refine hnothing ⟨rfl, fun n hn hn' => ?_⟩
      exact List.not_mem_nil (hnil ▸ mem_keyNames_nil.2 ⟨hn, hn'⟩)
    | cons key keys => exact List.cons_ne_nil key keys
  -- the first key that one of the frames lacks
  cases hkey : (keyNames left right given).find? fun k => ¬(k ∈ left.names ∧ k ∈ right.names) with
  | some key =>
    obtain ⟨hlacks, before, after, hkeys, hbefore⟩ := List.find?_eq_some_iff_append.1 hkey
    have hshared : ∀ k ∈ before, k ∈ left.names ∧ k ∈ right.names := by simpa using hbefore
    have hlacks := of_decide_eq_true hlacks
    by_cases hleft : key ∈ left.names
    · exact Or.inr ⟨_, .rightLacks hkeys hshared hleft fun hright => hlacks ⟨hleft, hright⟩⟩
    · exact Or.inr ⟨_, .leftLacks hkeys hshared hleft⟩
  | none =>
    have hshared : ∀ k ∈ keyNames left right given, k ∈ left.names ∧ k ∈ right.names := by
      simpa using List.find?_eq_none.1 hkey
    -- the first name of the right frame that is no key and that the left one has
    cases hname : right.names.find? fun n => n ∉ keyNames left right given ∧ n ∈ left.names with
    | some name =>
      obtain ⟨hcollides, before, after, hnames, hbefore⟩ := List.find?_eq_some_iff_append.1 hname
      have hcollides := of_decide_eq_true hcollides
      refine Or.inr ⟨_, .collides hshared hnames (fun n hn => ?_) hcollides.1 hcollides.2⟩
      have hno := hbefore n hn
      rw [Bool.not_eq_true', decide_eq_false_iff_not, not_and_or, not_not] at hno
      exact hno
    | none =>
      refine Or.inl ⟨hne, hshared, fun n hn hn' => ?_⟩
      have hno := List.find?_eq_none.1 hname n hn'
      rw [decide_eq_true_iff, not_and_or, not_not] at hno
      exact hno.resolve_right fun h => h hn

theorem mem_names_joinColumns (h : ∀ k ∈ keys, k ∈ left.names) {n : String} :
    n ∈ (Schema.mk (joinColumns left right keys)).names ↔ n ∈ left.names ∨ n ∈ right.names := by
  have hnames : (Schema.mk (joinColumns left right keys)).names
      = left.names ++ (right.columns.filter fun c => c.name ∉ keys).map Column.name := by
    rw [← @names_withKeys left right keys]
    exact List.map_append
  rw [hnames, List.mem_append, List.mem_map]
  constructor
  · rintro (hn | ⟨c, hc, rfl⟩)
    · exact Or.inl hn
    · exact Or.inr (List.mem_map_of_mem (List.mem_filter.1 hc).1)
  · rintro (hn | hn)
    · exact Or.inl hn
    · obtain ⟨c, hc, rfl⟩ := List.mem_map.1 hn
      by_cases hkey : c.name ∈ keys
      · exact Or.inl (h _ hkey)
      · exact Or.inr ⟨c, List.mem_filter.2 ⟨hc, decide_eq_true hkey⟩, rfl⟩

/-- Without keys, all shared names are keys, so that none of them is a duplicate. -/
theorem not_fault_duplicate {l r : Binding} {n : String} :
    ¬JoinFault l r left right [] (.schema (.duplicateColumn n)) := by
  intro h
  cases h with
  | collides hkeys hnames hbefore hname hleft =>
    have hright : n ∈ right.names := by simp [hnames]
    exact hname (mem_keyNames_nil.2 ⟨hleft, hright⟩)

end OperationCall

namespace OperationRule

open OperationCall

variable {rule : OperationRule} (hkind : rule.kind = .join) {l r : Binding} {left right : Schema}
  (hleft : l.schema? = some left) (hright : r.schema? = some right) (hl : left.names.Nodup)
  (hr : right.names.Nodup) {given : List String} {typeArgs : List Binding}

include hkind

theorem apply_eq_join (call : OperationCall) :
    rule.apply call = call.join.map fun s => .known rule.output s none := by
  simp only [apply, hkind]

include hleft hright hl hr

theorem apply_of_joinable (h : Joinable left right (keyNames left right given)) :
    rule.apply (joining l r given typeArgs)
      = .ok (.known rule.output ⟨joinColumns left right (keyNames left right given)⟩ none) := by
  rw [apply_eq_join hkind, join_of_joinable hleft hright hl hr h]
  rfl

theorem apply_of_joinFault {e : TransformError} (h : JoinFault l r left right given e) :
    rule.apply (joining l r given typeArgs) = .error e := by
  rw [apply_eq_join hkind, join_of_fault hleft hright hl hr h]
  rfl

theorem apply_join_eq_ok_iff {b : Binding} :
    rule.apply (joining l r given typeArgs) = .ok b ↔
      Joinable left right (keyNames left right given) ∧
        b = .known rule.output ⟨joinColumns left right (keyNames left right given)⟩ none := by
  constructor
  · intro hb
    rcases joinable_or_fault l r left right given with h | ⟨e, h⟩
    · rw [apply_of_joinable hkind hleft hright hl hr h] at hb
      exact ⟨h, (Except.ok.inj hb).symm⟩
    · rw [apply_of_joinFault hkind hleft hright hl hr h] at hb
      cases hb
  · rintro ⟨h, rfl⟩
    exact apply_of_joinable hkind hleft hright hl hr h

theorem apply_join_eq_error_iff {e : TransformError} :
    rule.apply (joining l r given typeArgs) = .error e ↔ JoinFault l r left right given e := by
  constructor
  · intro he
    rcases joinable_or_fault l r left right given with h | ⟨e', h⟩
    · rw [apply_of_joinable hkind hleft hright hl hr h] at he
      cases he
    · rw [apply_of_joinFault hkind hleft hright hl hr h] at he
      exact Except.error.inj he ▸ h
  · exact apply_of_joinFault hkind hleft hright hl hr

theorem exists_apply_join_iff : (∃ b, rule.apply (joining l r given typeArgs) = .ok b) ↔
    Joinable left right (keyNames left right given) := by
  simp only [apply_join_eq_ok_iff hkind hleft hright hl hr, exists_and_left, exists_eq, and_true]

theorem mem_names_of_apply_join {shape : Shape} {s : Schema} {origin : Option String}
    (h : rule.apply (joining l r given typeArgs) = .ok (.known shape s origin)) {n : String} :
    n ∈ s.names ↔ n ∈ left.names ∨ n ∈ right.names := by
  obtain ⟨hjoinable, heq⟩ := (apply_join_eq_ok_iff hkind hleft hright hl hr).1 h
  cases heq
  exact mem_names_joinColumns fun k hk => (hjoinable.shared k hk).1

omit hkind hleft hright hl hr

/-- A join of two frames whose names differ succeeds exactly if it is `Joinable`, with the columns
`joinColumns`; what is reported otherwise is the `JoinFault`. It succeeds exactly if the join of
the frames the other way round does, and then both have the same names. Without keys no name is ever
reported as a duplicate. -/
theorem apply_join (hkind : rule.kind = .join) (hleft : l.schema? = some left)
    (hright : r.schema? = some right) (hl : left.names.Nodup) (hr : right.names.Nodup)
    (given : List String) (typeArgs : List Binding) :
    (∀ b, rule.apply (joining l r given typeArgs) = .ok b ↔
      Joinable left right (keyNames left right given) ∧
        b = .known rule.output ⟨joinColumns left right (keyNames left right given)⟩ none) ∧
    (∀ e, rule.apply (joining l r given typeArgs) = .error e ↔
      JoinFault l r left right given e) ∧
    ((∃ b, rule.apply (joining l r given typeArgs) = .ok b) ↔
      ∃ b, rule.apply (joining r l given typeArgs) = .ok b) ∧
    (∀ shape shape' s t origin origin',
      rule.apply (joining l r given typeArgs) = .ok (.known shape s origin) →
      rule.apply (joining r l given typeArgs) = .ok (.known shape' t origin') →
      ∀ n, n ∈ s.names ↔ n ∈ t.names) ∧
    ∀ n, rule.apply (joining l r [] typeArgs) ≠ .error (.schema (.duplicateColumn n)) := by
  refine ⟨fun b => apply_join_eq_ok_iff hkind hleft hright hl hr,
    fun e => apply_join_eq_error_iff hkind hleft hright hl hr, ?_, ?_, fun n h => ?_⟩
  · rw [exists_apply_join_iff hkind hleft hright hl hr,
      exists_apply_join_iff hkind hright hleft hr hl]
    exact ⟨Joinable.symm, Joinable.symm⟩
  · intro shape shape' s t origin origin' hs ht n
    rw [mem_names_of_apply_join hkind hleft hright hl hr hs,
      mem_names_of_apply_join hkind hright hleft hr hl ht, or_comm]
  · exact not_fault_duplicate ((apply_join_eq_error_iff hkind hleft hright hl hr).1 h)

/-- Orders, with the client's number and a note of their own. -/
def orderColumns : Schema :=
  ⟨[.ofValues "total" (.simple "Double"), .ofValues "client" (.simple "Int"),
    .ofValues "note" (.simple "String")]⟩

/-- Clients, with a note as well. -/
def clientColumns : Schema :=
  ⟨[.ofValues "client" (.simple "Long"), .ofValues "note" (.simple "String"),
    .ofValues "name" ⟨"String", [], true⟩]⟩

/-- By the client alone, the notes collide; by both names, the clients' columns take over. -/
theorem apply_join_clients :
    let rule : OperationRule := ⟨.dataFrame, "join", .atLeast 1, .join, .dataFrame⟩
    let orders : Binding := .known .dataFrame orderColumns (some "Order")
    let clients : Binding := .known .dataFrame clientColumns none
    rule.kind = .join ∧ orders.schema? = some orderColumns ∧
      clients.schema? = some clientColumns ∧ orderColumns.names.Nodup ∧
      clientColumns.names.Nodup ∧
      rule.apply (joining orders clients ["client"] []) =
        .error (.schema (.duplicateColumn "note")) ∧
      rule.apply (joining orders clients ["note", "client", "note"] []) =
        .ok (.known .dataFrame
          ⟨[.ofValues "total" (.simple "Double"), .ofValues "client" (.simple "Long"),
            .ofValues "note" (.simple "String"), .ofValues "name" ⟨"String", [], true⟩]⟩ none) := by
  intro rule orders clients
  have hl : orderColumns.names.Nodup := by decide
  have hr : clientColumns.names.Nodup := by decide
  have hby (given : List String) := @apply_join rule orders clients _ _ rfl rfl rfl hl hr given []
  refine ⟨rfl, rfl, rfl, hl, hr, ?_, ?_⟩
  · refine ((hby ["client"]).2.1 _).2 (@JoinFault.collides _ _ _ _ _ ["client"] ["name"] _ ?_
      rfl ?_ ?_ ?_)
    all_goals decide
  · refine ((hby ["note", "client", "note"]).1 _).2 ⟨⟨?_, ?_, ?_⟩, rfl⟩
    all_goals decide

end OperationRule

end FrameCheck
