import FrameCheck.Proofs.Schema.Merging

/-!
# Merging as ordered union

Under each policy the merge of two schemas whose names differ has the names of the first, and then
the other names of the second (`Schema.names_union`), and under each name the column that the policy
takes from the two (`MergePolicy.take`). Names and columns of three schemas come out the same however
they are grouped, and the empty schema adds nothing.

* `Schema.merge_monoid` : merges as ordered unions, with their unit and their law of grouping.
-/

namespace FrameCheck

namespace MergePolicy

/-- The column of a name, of those that the two schemas have under it. -/
def take : MergePolicy → Option Column → Option Column → Option Column
  | overwrite, x, y => y.or x
  | keep, x, y | error, x, y => x.or y

variable {policy : MergePolicy} {x y z : Option Column}

theorem take_assoc : policy.take (policy.take x y) z = policy.take x (policy.take y z) := by
  cases policy with
  | overwrite => exact (Option.or_assoc).symm
  | keep | error => exact Option.or_assoc

theorem take_none : policy.take x none = x := by
  cases policy <;> simp [take]

theorem none_take : policy.take none y = y := by
  cases policy <;> simp [take]

theorem isSome_take : (policy.take x y).isSome = (x.isSome || y.isSome) := by
  cases policy <;> simp [take, Bool.or_comm]

end MergePolicy

namespace Schema

/-- The columns of `s` as the policy has them, and then those of `t` with other names. -/
def union (policy : MergePolicy) (s t : Schema) : Schema :=
  ⟨(s.columns.map fun c => (policy.take (some c) (t.lookup? c.name)).getD c)
    ++ t.columns.filter fun c => c.name ∉ s.names⟩

/-- The policy lets both schemas have the names that they share. -/
def Compatible (policy : MergePolicy) (s t : Schema) : Prop :=
  policy = .error → ∀ n ∈ s.names, n ∉ t.names

variable {policy : MergePolicy} {s t u : Schema}

/-! ## Names and columns of a union -/

theorem name_take (c : Column) :
    ((policy.take (some c) (t.lookup? c.name)).getD c).name = c.name := by
  cases h : t.lookup? c.name with
  | none => rw [MergePolicy.take_none]; rfl
  | some d =>
    cases policy with
    | overwrite => exact name_of_lookup? h
    | keep | error => rfl

theorem names_union : (union policy s t).names = s.names ++ t.names.filter (· ∉ s.names) := by
  have hkept : (s.columns.map fun c => (policy.take (some c) (t.lookup? c.name)).getD c).map
      Column.name = s.names := by
    rw [List.map_map]
    exact List.map_congr_left fun c _ => name_take c
  have hnew : (t.columns.filter fun c => c.name ∉ s.names).map Column.name
      = t.names.filter (· ∉ s.names) :=
    (List.filter_map (p := fun n => n ∉ s.names)).symm
  rw [union, names, List.map_append, hkept, hnew]

theorem nodup_names_union (hs : s.names.Nodup) (ht : t.names.Nodup) :
    (union policy s t).names.Nodup := by
  rw [names_union]
  refine hs.append (ht.filter _) fun n hn hn' => ?_
  exact of_decide_eq_true (List.mem_filter.1 hn').2 hn

theorem mem_names_union {n : String} :
    n ∈ (union policy s t).names ↔ n ∈ s.names ∨ n ∈ t.names := by
  rw [names_union, List.mem_append, List.mem_filter, decide_eq_true_iff]
  tauto

theorem lookup?_union (n : String) :
    (union policy s t).lookup? n = policy.take (s.lookup? n) (t.lookup? n) := by
  have hnew : (mk (t.columns.filter fun c => c.name ∉ s.names)).lookup? n
      = if n ∉ s.names then t.lookup? n else none := by
    refine (lookup?_filter (fun n => n ∉ s.names) t n).trans ?_
    simp only [decide_eq_true_iff]
  rw [union, lookup?_append, lookup?_map name_take, hnew]
  cases hn : s.lookup? n with
  | none =>
    rw [if_pos (lookup?_eq_none_iff.1 hn), MergePolicy.none_take]
    rfl
  | some c =>
    obtain rfl := name_of_lookup? hn
    have hsome : (policy.take (some c) (t.lookup? c.name)).isSome := by
      rw [MergePolicy.isSome_take]
      rfl
    obtain ⟨d, hd⟩ := Option.isSome_iff_exists.1 hsome
    simp [hd]

theorem union_assoc (hs : s.names.Nodup) (ht : t.names.Nodup) (hu : u.names.Nodup) :
    union policy (union policy s t) u = union policy s (union policy t u) := by
  refine ext_lookup? (nodup_names_union (nodup_names_union hs ht) hu) ?_ fun n => ?_
  · simp only [names_union, List.filter_append, List.append_assoc, List.filter_filter]
    refine congrArg _ (congrArg _ (List.filter_congr fun n _ => ?_))
    simp only [List.mem_append, List.mem_filter]
    by_cases hn : n ∈ s.names <;> simp [hn]
  · rw [lookup?_union, lookup?_union, lookup?_union, lookup?_union, MergePolicy.take_assoc]

theorem union_empty (hs : s.names.Nodup) : union policy s empty = s := by
  refine (ext_lookup? hs ?_ fun n => ?_).symm
  · rw [names_union]
    exact (List.append_nil _).symm
  · rw [lookup?_union, show empty.lookup? n = none from rfl, MergePolicy.take_none]

theorem empty_union (hs : s.names.Nodup) : union policy empty s = s := by
  refine (ext_lookup? hs ?_ fun n => ?_).symm
  · rw [names_union]
    exact (List.filter_eq_self.2 fun n _ => decide_eq_true List.not_mem_nil).symm
  · rw [lookup?_union, show empty.lookup? n = none from rfl, MergePolicy.none_take]

/-! ## Merges -/

theorem compatible_union : Compatible policy (union policy s t) u ↔
    Compatible policy s u ∧ Compatible policy t u := by
  simp only [Compatible, mem_names_union, ← forall_and, or_imp]

theorem compatible_comm : Compatible policy s t ↔ Compatible policy t s :=
  ⟨fun h hp n hn hn' => h hp n hn' hn, fun h hp n hn hn' => h hp n hn' hn⟩

/-- A merge that lets the shared names stand gives the union. -/
theorem merge_eq_ok_iff (hs : s.names.Nodup) (ht : t.names.Nodup) :
    s.merge t policy = .ok u ↔ Compatible policy s t ∧ u = union policy s t := by
  cases policy with
  | keep =>
    have hunion : union .keep s t = ⟨s.columns ++ t.columns.filter fun c => c.name ∉ s.names⟩ := by
      simp [union, MergePolicy.take]
    rw [merge_keep ht, hunion]
    simp [Compatible, eq_comm]
  | overwrite =>
    have hunion : union .overwrite s t = ⟨(s.columns.map fun c => (t.lookup? c.name).getD c)
        ++ t.columns.filter fun c => c.name ∉ s.names⟩ := by
      refine congrArg mk (congrArg (· ++ _) (List.map_congr_left fun c _ => ?_))
      cases t.lookup? c.name <;> rfl
    rw [merge_overwrite hs ht, hunion]
    simp [Compatible, eq_comm]
  | error =>
    rw [merge_error ht]
    cases hfind : t.columns.find? fun c => c.name ∈ s.names with
    | some c =>
      have hc := List.find?_some hfind
      have hmem : c.name ∈ t.names := List.mem_map_of_mem (List.mem_of_find?_eq_some hfind)
      exact iff_of_false nofun fun h => h.1 rfl c.name (of_decide_eq_true hc) hmem
    | none =>
      have hnew : ∀ c ∈ t.columns, c.name ∉ s.names := by simpa using List.find?_eq_none.1 hfind
      have hcompatible : Compatible .error s t := by
        rintro - n hn hn'
        obtain ⟨c, hc, rfl⟩ := List.mem_map.1 hn'
        exact hnew c hc hn
      have hunion : union .error s t = ⟨s.columns ++ t.columns⟩ := by
        have hall : t.columns.filter (fun c => c.name ∉ s.names) = t.columns :=
          List.filter_eq_self.2 fun c hc => decide_eq_true (hnew c hc)
        rw [union, hall]
        simp [MergePolicy.take]
      rw [hunion]
      simp [hcompatible, eq_comm]

/-- A merge that does not let the shared names stand reports the first of the second schema. -/
theorem merge_eq_error_iff (hs : s.names.Nodup) (ht : t.names.Nodup) {e : SchemaError} :
    s.merge t policy = .error e ↔ policy = .error ∧ ∃ before c after,
      t.columns = before ++ c :: after ∧ c.name ∈ s.names ∧ (∀ d ∈ before, d.name ∉ s.names) ∧
        e = .duplicateColumn c.name := by
  cases policy with
  | keep => simp [merge_keep ht]
  | overwrite => simp [merge_overwrite hs ht]
  | error =>
    rw [merge_error ht]
    constructor
    · intro h
      cases hfind : t.columns.find? fun c => c.name ∈ s.names with
      | none => simp [hfind] at h
      | some c =>
        obtain ⟨hc, before, after, hcolumns, hbefore⟩ := List.find?_eq_some_iff_append.1 hfind
        rw [hfind] at h
        exact ⟨rfl, before, c, after, hcolumns, of_decide_eq_true hc, by simpa using hbefore,
          (Except.error.inj h).symm⟩
    · rintro ⟨-, before, c, after, hcolumns, hc, hbefore, rfl⟩
      have hfind : t.columns.find? (fun c => c.name ∈ s.names) = some c :=
        List.find?_eq_some_iff_append.2 ⟨decide_eq_true hc, before, after, hcolumns,
          by simpa using hbefore⟩
      rw [hfind]

/-! ## Three schemas -/

section

variable (hs : s.names.Nodup) (ht : t.names.Nodup) (hu : u.names.Nodup) {v : Schema}

include hs ht hu

/-- The second schema is merged into the first, and the third into both. -/
theorem exists_merge_left : (∃ st, s.merge t policy = .ok st ∧ st.merge u policy = .ok v) ↔
    (Compatible policy s t ∧ Compatible policy s u ∧ Compatible policy t u) ∧
      v = union policy (union policy s t) u := by
  simp only [merge_eq_ok_iff hs ht, and_assoc, exists_and_left, exists_eq_left]
  rw [merge_eq_ok_iff (nodup_names_union hs ht) hu, compatible_union, and_assoc]

/-- The third schema is merged into the second, and both into the first. -/
theorem exists_merge_right : (∃ tu, t.merge u policy = .ok tu ∧ s.merge tu policy = .ok v) ↔
    (Compatible policy s t ∧ Compatible policy s u ∧ Compatible policy t u) ∧
      v = union policy s (union policy t u) := by
  have hcompatible : Compatible policy s (union policy t u) ↔
      Compatible policy s t ∧ Compatible policy s u := by
    rw [← compatible_comm, compatible_union, compatible_comm, @compatible_comm _ u]
  simp only [merge_eq_ok_iff ht hu, and_assoc, exists_and_left, exists_eq_left]
  rw [merge_eq_ok_iff hs (nodup_names_union ht hu), hcompatible]
  tauto

end

/-- A merge gives the ordered union, if the policy lets the shared names stand, and otherwise reports
the first column of the second schema that the first one has. The names are those of the first schema
in order, and then the other names of the second; a shared name has the column of the first under
`keep`, and that of the second under `overwrite`. The empty schema on either side changes nothing,
and it makes no difference which two of three schemas are merged first. -/
theorem merge_monoid (policy : MergePolicy) (a b c : Schema) (ha : a.names.Nodup)
    (hb : b.names.Nodup) (hc : c.names.Nodup) :
    (∀ u, a.merge b policy = .ok u → u.names = a.names ++ b.names.filter (· ∉ a.names) ∧
      ∀ n, u.lookup? n = if policy = .overwrite then (b.lookup? n).or (a.lookup? n)
        else (a.lookup? n).or (b.lookup? n)) ∧
    ((∃ u, a.merge b policy = .ok u) ↔ policy = .error → ∀ n ∈ a.names, n ∉ b.names) ∧
    (∀ e, a.merge b policy = .error e ↔ policy = .error ∧ ∃ before d after,
      b.columns = before ++ d :: after ∧ d.name ∈ a.names ∧ (∀ x ∈ before, x.name ∉ a.names) ∧
        e = .duplicateColumn d.name) ∧
    a.merge empty policy = .ok a ∧ empty.merge a policy = .ok a ∧
    ∀ u, (∃ ab, a.merge b policy = .ok ab ∧ ab.merge c policy = .ok u) ↔
      ∃ bc, b.merge c policy = .ok bc ∧ a.merge bc policy = .ok u := by
  have hempty : empty.names.Nodup := List.nodup_nil
  refine ⟨fun u hu => ?_, ?_, fun e => merge_eq_error_iff ha hb, ?_, ?_, fun u => ?_⟩
  · obtain ⟨-, rfl⟩ := (merge_eq_ok_iff ha hb).1 hu
    refine ⟨names_union, fun n => ?_⟩
    rw [lookup?_union]
    cases policy <;> rfl
  · simp only [merge_eq_ok_iff ha hb, exists_and_left, exists_eq, and_true]
    exact Iff.rfl
  · exact (merge_eq_ok_iff ha hempty).2 ⟨fun _ n _ => List.not_mem_nil, (union_empty ha).symm⟩
  · exact (merge_eq_ok_iff hempty ha).2
      ⟨fun _ n hn => absurd hn List.not_mem_nil, (empty_union ha).symm⟩
  · rw [exists_merge_left ha hb hc, exists_merge_right ha hb hc, union_assoc ha hb hc]

/-- Values of these types under the names of letters. -/
def lettered (columns : List (String × String)) : Schema :=
  ⟨columns.map fun c => .ofValues c.1 (.simple c.2)⟩

/-- Names that any two of three schemas share are reported in the order of the second, and cause no
difference where they are let stand. -/
theorem merge_monoid_lettered :
    let a := lettered [("x", "Int"), ("y", "Int"), ("z", "Int")]
    let b := lettered [("w", "Long"), ("z", "Long"), ("y", "Long")]
    let c := lettered [("y", "Char"), ("v", "Char"), ("w", "Char")]
    a.names.Nodup ∧ b.names.Nodup ∧ c.names.Nodup ∧
      a.merge b .error = .error (.duplicateColumn "z") ∧
      ∀ u, (∃ ab, a.merge b .overwrite = .ok ab ∧ ab.merge c .overwrite = .ok u) ↔
        ∃ bc, b.merge c .overwrite = .ok bc ∧ a.merge bc .overwrite = .ok u := by
  intro a b c
  have ha : a.names.Nodup := by decide
  have hb : b.names.Nodup := by decide
  have hc : c.names.Nodup := by decide
  obtain ⟨-, -, herror, -, -, -⟩ := merge_monoid .error a b c ha hb hc
  obtain ⟨-, -, -, -, -, hassoc⟩ := merge_monoid .overwrite a b c ha hb hc
  refine ⟨ha, hb, hc, (herror _).2 ⟨rfl, [.ofValues "w" (.simple "Long")],
    .ofValues "z" (.simple "Long"), [.ofValues "y" (.simple "Long")], rfl, ?_, ?_, rfl⟩, hassoc⟩
  · decide
  · decide

end Schema

end FrameCheck
