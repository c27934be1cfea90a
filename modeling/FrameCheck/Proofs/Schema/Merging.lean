import FrameCheck.Proofs.Schema.WellNamed
import Mathlib.Data.List.Basic

/-!
# Merged schemas

A schema whose names differ is known from its names and from the column of each name
(`Schema.ext_lookup?`). A merge takes the columns of the second schema one by one, and each of
them changes what the next one finds; where the names of the second schema differ, none of them
meets another, and the merge comes to this :

* `Schema.merge_keep`, `Schema.merge_overwrite` : the columns of the first schema, as they are or
  as the second one has them, and then those of the second schema with other names.
* `Schema.merge_error` : the columns of both, or the first column of the second schema that the
  first one has as well.
-/

namespace FrameCheck

namespace Schema

/-! ## Columns by name -/

theorem lookup?_withColumn (s : Schema) (c : Column) (name : String) :
    (s.withColumn c).lookup? name = if c.name = name then some c else s.lookup? name := by
  obtain ⟨columns⟩ := s
  simp only [lookup?, withColumn]
  induction columns with
  | nil => by_cases h : c.name = name <;> simp [putColumn, h]
  | cons d columns ih =>
    by_cases hd : d.name = c.name
    · by_cases h : c.name = name
      · simp [putColumn, hd, h]
      · simp [putColumn, hd, h]
    · by_cases h : c.name = name
      · subst h
        simpa [putColumn, hd] using ih
      · simp only [h, if_false] at ih
        by_cases hn : d.name = name
        · simp [putColumn, hn, h, Ne.symm h]
        · simp [putColumn, hd, hn, h, ih]

theorem mem_names {s : Schema} {name : String} : name ∈ s.names ↔ (s.lookup? name).isSome := by
  simp [names, lookup?, List.find?_isSome]

theorem contains_iff {s : Schema} {name : String} : s.contains name = true ↔ name ∈ s.names :=
  mem_names.symm

theorem lookup?_eq_none_iff {s : Schema} {name : String} :
    s.lookup? name = none ↔ name ∉ s.names := by
  rw [mem_names, Option.not_isSome_iff_eq_none]

theorem name_of_lookup? {s : Schema} {name : String} {c : Column} (h : s.lookup? name = some c) :
    c.name = name := by
  have hname := List.find?_some h
  exact beq_iff_eq.1 hname

theorem lookup?_of_mem {s : Schema} (h : s.names.Nodup) {c : Column} (hc : c ∈ s.columns) :
    s.lookup? c.name = some c := by
  obtain ⟨d, hd⟩ := Option.isSome_iff_exists.1 (mem_names.1 (List.mem_map_of_mem hc))
  have heq : d = c := List.inj_on_of_nodup_map h (mem_of_lookup? hd) hc (name_of_lookup? hd)
  exact heq ▸ hd

theorem require_eq_error {s : Schema} {name : String} (h : name ∉ s.names) :
    s.require name = .error (.unknownColumn name s.names) := by
  rw [require, lookup?_eq_none_iff.2 h]

theorem require_eq_ok {s : Schema} {name : String} (h : name ∈ s.names) :
    ∃ c, s.require name = .ok c := by
  obtain ⟨c, hc⟩ := Option.isSome_iff_exists.1 (mem_names.1 h)
  exact ⟨c, by rw [require, hc]⟩

theorem lookup?_append (cs ds : List Column) (name : String) :
    (Schema.mk (cs ++ ds)).lookup? name = ((mk cs).lookup? name).or ((mk ds).lookup? name) :=
  List.find?_append

/-- Columns that keep their names are looked up by the names that they had. -/
theorem lookup?_map {f : Column → Column} (hf : ∀ c, (f c).name = c.name) (s : Schema)
    (name : String) : (mk (s.columns.map f)).lookup? name = (s.lookup? name).map f := by
  rw [lookup?, lookup?, List.find?_map]
  congr 2
  funext c
  exact congrArg (· == name) (hf c)

/-- Of the columns that are left by a test of their names, one is looked up as before. -/
theorem lookup?_filter (test : String → Bool) (s : Schema) (name : String) :
    (mk (s.columns.filter fun c => test c.name)).lookup? name
      = if test name then s.lookup? name else none := by
  rw [lookup?, lookup?, List.find?_filter]
  split
  · next h =>
    congr 1
    funext c
    by_cases hc : c.name = name <;> simp [hc, h]
  · next h =>
    refine List.find?_eq_none.2 fun c _ hc => h ?_
    rw [decide_eq_true_iff, beq_iff_eq] at hc
    exact hc.2 ▸ hc.1

/-- A schema whose names differ holds the columns of its names. -/
theorem columns_eq {s : Schema} (h : s.names.Nodup) : s.columns = s.names.filterMap s.lookup? := by
  obtain ⟨columns⟩ := s
  induction columns with
  | nil => rfl
  | cons c cs ih =>
    obtain ⟨hc, hcs⟩ := List.nodup_cons.1 h
    have hfirst : (mk (c :: cs)).lookup? c.name = some c :=
      List.find?_cons_of_pos (beq_self_eq_true _)
    have hothers : ∀ n ∈ cs.map Column.name, (mk (c :: cs)).lookup? n = (mk cs).lookup? n :=
      fun n hn => List.find?_cons_of_neg fun heq => hc (beq_iff_eq.1 heq ▸ hn)
    show c :: cs = (c.name :: cs.map Column.name).filterMap _
    rw [List.filterMap_cons_some hfirst, List.filterMap_congr hothers]
    exact congrArg (c :: ·) (ih hcs)

theorem ext_lookup? {s t : Schema} (hs : s.names.Nodup) (hnames : s.names = t.names)
    (h : ∀ name, s.lookup? name = t.lookup? name) : s = t := by
  have hcolumns : s.columns = t.columns := by
    rw [columns_eq hs, columns_eq (hnames ▸ hs), hnames, funext h]
  cases s
  cases t
  exact congrArg mk hcolumns

/-! ## Merging -/

section

variable {merged cs : List Column}

theorem any_name_eq (c : Column) :
    merged.any (·.name == c.name) = decide (c.name ∈ merged.map Column.name) := by
  rw [Bool.eq_iff_iff, decide_eq_true_iff, List.any_eq_true, List.mem_map]
  simp only [beq_iff_eq]

/-- Columns of other names than `c` meet it in no list that it is added to. -/
theorem mem_names_concat {c d : Column} (h : c.name ∉ cs.map Column.name) (hd : d ∈ cs) :
    d.name ∈ (merged ++ [c]).map Column.name ↔ d.name ∈ merged.map Column.name := by
  have hne : d.name ≠ c.name := fun heq => h (heq ▸ List.mem_map_of_mem hd)
  simp [hne]

theorem filter_new_concat {c : Column} (h : c.name ∉ cs.map Column.name) :
    cs.filter (fun d => d.name ∉ (merged ++ [c]).map Column.name)
      = cs.filter fun d => d.name ∉ merged.map Column.name :=
  List.filter_congr fun _ hd => decide_eq_decide.2 (not_congr (mem_names_concat h hd))

theorem mergeColumns_keep (h : (cs.map Column.name).Nodup) :
    mergeColumns .keep merged cs
      = .ok (merged ++ cs.filter fun c => c.name ∉ merged.map Column.name) := by
  induction cs generalizing merged with
  | nil => rw [mergeColumns, List.filter_nil, List.append_nil]
  | cons c cs ih =>
    obtain ⟨hc, hcs⟩ := List.nodup_cons.1 h
    rw [mergeColumns, any_name_eq]
    by_cases hmem : c.name ∈ merged.map Column.name
    · rw [if_pos (decide_eq_true hmem), List.filter_cons_of_neg (by simpa using hmem), ih hcs]
    · rw [if_neg (by simpa using hmem), List.filter_cons_of_pos (by simpa using hmem), ih hcs,
        filter_new_concat hc, List.append_assoc, List.singleton_append]

theorem mergeColumns_error (h : (cs.map Column.name).Nodup) :
    mergeColumns .error merged cs
      = match cs.find? fun c => c.name ∈ merged.map Column.name with
        | some c => .error (.duplicateColumn c.name)
        | none => .ok (merged ++ cs) := by
  induction cs generalizing merged with
  | nil => rw [mergeColumns, List.find?_nil, List.append_nil]
  | cons c cs ih =>
    obtain ⟨hc, hcs⟩ := List.nodup_cons.1 h
    rw [mergeColumns, any_name_eq]
    by_cases hmem : c.name ∈ merged.map Column.name
    · rw [if_pos (decide_eq_true hmem), List.find?_cons_of_pos (by simpa using hmem)]
    · rw [if_neg (by simpa using hmem), List.find?_cons_of_neg (by simpa using hmem), ih hcs,
        ← List.head?_filter, ← List.head?_filter,
        List.filter_congr fun d hd => decide_eq_decide.2 (mem_names_concat hc hd),
        List.append_assoc, List.singleton_append]

/-- In a list of columns whose names differ, a column that is put in the place of another is the
one that changes. -/
theorem map_putColumn {c : Column} {f g : Column → Column} (h : (merged.map Column.name).Nodup)
    (hc : c.name ∈ merged.map Column.name) (hsame : ∀ d, d.name = c.name → g d = f c)
    (hothers : ∀ d, d.name ≠ c.name → g d = f d) : (putColumn c merged).map f = merged.map g := by
  induction merged with
  | nil => exact absurd hc List.not_mem_nil
  | cons d ds ih =>
    obtain ⟨hd, hds⟩ := List.nodup_cons.1 h
    rw [putColumn, List.map_cons]
    by_cases heq : d.name = c.name
    · rw [if_pos (beq_iff_eq.2 heq), List.map_cons, hsame d heq]
      have hrest (e) (he : e ∈ ds) : f e = g e := by
        refine (hothers e fun hname => hd ?_).symm
        rw [heq, ← hname]
        exact List.mem_map_of_mem he
      exact congrArg (f c :: ·) (List.map_congr_left hrest)
    · have hrest : c.name ∈ ds.map Column.name :=
        (List.mem_cons.1 hc).resolve_left fun hname => heq hname.symm
      rw [if_neg (by simpa using heq), List.map_cons, ih hds hrest, hothers d heq]

theorem mergeColumns_overwrite (hm : (merged.map Column.name).Nodup)
    (h : (cs.map Column.name).Nodup) :
    mergeColumns .overwrite merged cs
      = .ok ((merged.map fun d => ((mk cs).lookup? d.name).getD d)
        ++ cs.filter fun c => c.name ∉ merged.map Column.name) := by
  induction cs generalizing merged with
  | nil =>
    rw [mergeColumns, List.filter_nil, List.append_nil]
    exact congrArg Except.ok (List.map_id _).symm
  | cons c cs ih =>
    obtain ⟨hc, hcs⟩ := List.nodup_cons.1 h
    have hfirst (d : Column) (hd : d.name = c.name) : (mk (c :: cs)).lookup? d.name = some c :=
      List.find?_cons_of_pos (beq_iff_eq.2 hd.symm)
    have hothers (d : Column) (hd : d.name ≠ c.name) :
        (mk (c :: cs)).lookup? d.name = (mk cs).lookup? d.name :=
      List.find?_cons_of_neg fun heq => hd (beq_iff_eq.1 heq).symm
    have hnone : (mk cs).lookup? c.name = none := lookup?_eq_none_iff.2 hc
    rw [mergeColumns, any_name_eq]
    by_cases hmem : c.name ∈ merged.map Column.name
    · rw [if_pos (decide_eq_true hmem), List.filter_cons_of_neg (by simpa using hmem)]
      show mergeColumns .overwrite (putColumn c merged) cs = _
      have hnames := (map_name_putColumn c merged).trans (if_pos hmem)
      rw [ih (hnames ▸ hm) hcs, hnames, map_putColumn hm hmem (fun d hd => ?_) fun d hd => ?_]
      · rw [hfirst d hd, hnone]
        rfl
      · rw [hothers d hd]
    · have hconcat : ((merged ++ [c]).map Column.name).Nodup := by
        rw [List.map_append]
        exact hm.append (List.nodup_singleton _) (List.disjoint_singleton.2 hmem)
      have hmerged : ∀ d ∈ merged,
          ((mk cs).lookup? d.name).getD d = ((mk (c :: cs)).lookup? d.name).getD d := fun d hd => by
        rw [hothers d fun hname => hmem (hname ▸ List.mem_map_of_mem hd)]
      rw [if_neg (by simpa using hmem), List.filter_cons_of_pos (by simpa using hmem),
        ih hconcat hcs, filter_new_concat hc, List.map_append, List.append_assoc,
        List.map_congr_left hmerged, List.map_singleton, hnone, List.singleton_append]
      rfl

end

variable {s t : Schema}

theorem merge_keep (ht : t.names.Nodup) :
    s.merge t .keep = .ok ⟨s.columns ++ t.columns.filter fun c => c.name ∉ s.names⟩ := by
  rw [merge, mergeColumns_keep ht]
  rfl

theorem merge_overwrite (hs : s.names.Nodup) (ht : t.names.Nodup) :
    s.merge t .overwrite = .ok ⟨(s.columns.map fun c => (t.lookup? c.name).getD c)
      ++ t.columns.filter fun c => c.name ∉ s.names⟩ := by
  rw [merge, mergeColumns_overwrite hs ht]
  rfl

theorem merge_error (ht : t.names.Nodup) :
    s.merge t .error = match t.columns.find? fun c => c.name ∈ s.names with
      | some c => .error (.duplicateColumn c.name)
      | none => .ok ⟨s.columns ++ t.columns⟩ := by
  rw [merge, mergeColumns_error ht]
  show (match t.columns.find? fun c => c.name ∈ s.names with
      | some c => .error (.duplicateColumn c.name)
      | none => .ok (s.columns ++ t.columns) : Except SchemaError (List Column)).map mk = _
  cases t.columns.find? fun c => c.name ∈ s.names <;> rfl

end Schema

end FrameCheck
