import FrameCheck.Proofs.Operation.Joining

/-!
# Operations on columns that are given by name

Six kinds of operations take names of columns, and all of them look for the names in the same way :
the first one that the frame lacks is reported (`OperationCall.named_eq`). What they do with columns
that are there differs. Selecting and removing split the frame in two (`Schema.chosen`,
`Schema.others`), and grouping puts the second part into a column beside the first.

* `OperationRule.apply_named` : the outcomes of the six kinds, and how they go together.
-/

namespace FrameCheck

/-- The kinds of operations whose arguments are names of columns. -/
def OperationKind.namesColumns : OperationKind → Bool
  | select | distinct | remove | sortBy | dropNulls | groupBy => true
  | _ => false

namespace Schema

/-- The columns that are named. -/
def chosen (s : Schema) (names : List String) : Schema := ⟨s.columns.filter (·.name ∈ names)⟩

/-- The columns that are not named. -/
def others (s : Schema) (names : List String) : Schema := ⟨s.columns.filter (·.name ∉ names)⟩

variable {s : Schema} {names : List String} {key : String}

/-- Each column is in one of the two parts, in the order of the schema. -/
theorem chosen_others (s : Schema) (names : List String) :
    (s.chosen names).columns.Sublist s.columns ∧ (s.others names).columns.Sublist s.columns ∧
      ((s.chosen names).columns ++ (s.others names).columns).Perm s.columns ∧
      ∀ c ∈ s.columns, c ∈ (s.chosen names).columns ↔ c ∉ (s.others names).columns := by
  refine ⟨List.filter_sublist, List.filter_sublist, ?_, fun c hc => ?_⟩
  · simpa [chosen, others] using List.filter_append_perm (fun c => c.name ∈ names) s.columns
  · simp [chosen, others, hc]

theorem requireAll_eq : s.requireAll names = match names.find? (· ∉ s.names) with
    | some key => .error (.unknownColumn key s.names)
    | none => .ok () := by
  induction names with
  | nil => rfl
  | cons n names ih =>
    rw [requireAll]
    by_cases hn : n ∈ s.names
    · obtain ⟨c, hc⟩ := require_eq_ok hn
      rw [hc, List.find?_cons_of_neg (by simpa using hn)]
      exact ih
    · rw [require_eq_error hn, List.find?_cons_of_pos (by simpa using hn)]

theorem select_eq : s.select names = (s.requireAll names).map fun _ => s.chosen names := by
  have hcolumns : s.columns.filter (fun c => names.contains c.name) = (s.chosen names).columns :=
    List.filter_congr fun c _ => List.contains_eq_mem c.name names
  rw [select, hcolumns]
  cases s.requireAll names <;> rfl

/-- A name that stands twice is reported, if those before it differ. -/
theorem firstRepeated?_concat {seen : List String} (hnodup : names.Nodup)
    (hnew : ∀ n ∈ names, n ∉ seen) :
    firstRepeated? seen (names ++ [key]) = if key ∈ seen ++ names then some key else none := by
  induction names generalizing seen with
  | nil => simp [firstRepeated?]
  | cons n names ih =>
    obtain ⟨hn, hnames⟩ := List.nodup_cons.1 hnodup
    have hnew' : ∀ m ∈ names, m ∉ seen ++ [n] := by
      intro m hm hmem
      rcases List.mem_append.1 hmem with hmem | hmem
      · exact hnew m (List.mem_cons_of_mem _ hm) hmem
      · exact hn (List.mem_singleton.1 hmem ▸ hm)
    rw [List.cons_append, firstRepeated?, if_neg (by simpa using hnew n List.mem_cons_self),
      ih hnames hnew', List.append_assoc, List.singleton_append]

end Schema

namespace OperationCall

/-- The call on a frame with names of columns. -/
def naming (r : Binding) (names : List String) (typeArgs : List Binding) : OperationCall :=
  ⟨r, names.map .text, typeArgs⟩

/-- The columns without nulls in those that are named. -/
def withoutNulls (s : Schema) (names : List String) : Schema :=
  s.mapColumns fun c => if c.name ∈ names then c.withNullable false else c

/-- The rows without the columns by which they are grouped. -/
def groupRows (r : Binding) (s : Schema) (names : List String) : Column :=
  .ofFrames groupColumn ((r.origin?.map TypeRef.simple).getD .star) (some (s.others names))

/-- What an operation makes of columns that are there. -/
def ofNamed (r : Binding) (s : Schema) (names : List String) : OperationKind → Transformed Schema
  | .select | .distinct => .ok (s.chosen names)
  | .remove => .ok (s.others names)
  | .sortBy => .ok s
  | .dropNulls => .ok (withoutNulls s names)
  | .groupBy => ofSchema (Schema.ofColumns ((s.chosen names).columns ++ [groupRows r s names]))
  | _ => .error .notApplicable

section

variable {r : Binding} {s : Schema} {names : List String} {typeArgs : List Binding}

theorem withoutAll_eq : withoutAll s names = s.others names := by
  have hcolumns := columns_withoutAll s names
  generalize withoutAll s names = t at hcolumns
  cases t
  exact congrArg Schema.mk hcolumns

theorem filterMap_text? : (names.map OperationArg.text).filterMap OperationArg.text? = names := by
  rw [List.filterMap_map]
  exact List.filterMap_some

theorem ofSchema_select : ofSchema (s.select names) =
    ofSchema (s.requireAll names) >>= fun _ => .ok (s.chosen names) := by
  rw [Schema.select_eq]
  cases s.requireAll names <;> rfl

theorem columnNames_naming : (naming r names typeArgs).columnNames = .ok names := textsOf_map names

variable (hr : r.schema? = some s)

include hr

theorem receiverSchema_naming : (naming r names typeArgs).receiverSchema = .ok s := by
  rw [receiverSchema, naming, hr]
  rfl

theorem select_naming : (naming r names typeArgs).select =
    ofSchema (s.requireAll names) >>= fun _ => .ok (s.chosen names) := by
  rw [OperationCall.select, columnNames_naming, receiverSchema_naming hr, ← ofSchema_select]
  rfl

theorem remove_naming : (naming r names typeArgs).remove =
    ofSchema (s.requireAll names) >>= fun _ => .ok (s.others names) := by
  rw [OperationCall.remove, columnNames_naming, receiverSchema_naming hr, ← withoutAll_eq]
  rfl

theorem sortBy_naming : (naming r names typeArgs).sortBy =
    ofSchema (s.requireAll names) >>= fun _ => .ok s := by
  rw [OperationCall.sortBy, receiverSchema_naming hr, show (naming r names typeArgs).args.filterMap
    OperationArg.text? = names from filterMap_text?]
  rfl

theorem groupBy_naming : (naming r names typeArgs).groupBy =
    ofSchema (s.requireAll names) >>= fun _ =>
      ofSchema (Schema.ofColumns ((s.chosen names).columns ++ [groupRows r s names])) := by
  rw [OperationCall.groupBy, columnNames_naming, receiverSchema_naming hr]
  show (ofSchema (s.select names) >>= _) = _
  rw [ofSchema_select, groupRows, ← withoutAll_eq]
  cases s.requireAll names <;> rfl

variable (hnames : names ≠ [])

include hnames

theorem distinct_naming : (naming r names typeArgs).distinct =
    ofSchema (s.requireAll names) >>= fun _ => .ok (s.chosen names) := by
  have hargs : (naming r names typeArgs).args.isEmpty = false := by simpa [naming] using hnames
  rw [OperationCall.distinct, columnNames_naming, receiverSchema_naming hr, hargs,
    ← ofSchema_select]
  rfl

theorem dropNulls_naming : (naming r names typeArgs).dropNulls =
    ofSchema (s.requireAll names) >>= fun _ => .ok (withoutNulls s names) := by
  have hcolumns : (s.mapColumns fun c =>
      if names.isEmpty || names.contains c.name then c.withNullable false else c)
        = withoutNulls s names := by
    have hempty : names.isEmpty = false := by simpa using hnames
    simp [withoutNulls, hempty]
  rw [OperationCall.dropNulls, columnNames_naming, receiverSchema_naming hr, ← hcolumns]
  rfl

/-- The names are looked for, and then the kind of the operation decides. -/
theorem named_eq {rule : OperationRule} (hkind : rule.kind.namesColumns = true) :
    rule.apply (naming r names typeArgs) =
      (ofSchema (s.requireAll names) >>= fun _ => ofNamed r s names rule.kind).map
        fun t => .known rule.output t none := by
  obtain ⟨receiver, name, arity, kind, output⟩ := rule
  cases kind <;> simp only [OperationKind.namesColumns, Bool.false_eq_true] at hkind
  case select => simp only [OperationRule.apply, select_naming hr, ofNamed]
  case distinct => simp only [OperationRule.apply, distinct_naming hr hnames, ofNamed]
  case remove => simp only [OperationRule.apply, remove_naming hr, ofNamed]
  case sortBy => simp only [OperationRule.apply, sortBy_naming hr, ofNamed]
  case dropNulls => simp only [OperationRule.apply, dropNulls_naming hr hnames, ofNamed]
  case groupBy => simp only [OperationRule.apply, groupBy_naming hr, ofNamed]

end

end OperationCall

namespace OperationRule

open OperationCall

variable {r : Binding} {s : Schema} {names : List String} {typeArgs : List Binding}

/-- Names that are all there leave the outcome to the kind of the operation. -/
theorem apply_naming_of_mem (hr : r.schema? = some s) (hnames : names ≠ [])
    (hmem : ∀ n ∈ names, n ∈ s.names) {kind : OperationKind} (h : kind.namesColumns = true)
    {rule : OperationRule} (hkind : rule.kind = kind) : rule.apply (naming r names typeArgs) =
      (ofNamed r s names kind).map fun t => .known rule.output t none := by
  subst hkind
  rw [named_eq hr hnames h, requireAll_of_mem hmem]
  rfl

/-- The first name that is not there is what is reported. -/
theorem apply_naming_of_missing (hr : r.schema? = some s) (hnames : names ≠ []) {key : String}
    (hkey : names.find? (· ∉ s.names) = some key) {rule : OperationRule}
    (hkind : rule.kind.namesColumns = true) : rule.apply (naming r names typeArgs) =
      .error (.schema (.unknownColumn key s.names)) := by
  rw [named_eq hr hnames hkind, Schema.requireAll_eq, hkey]
  rfl

/-- The column of rows stands beside the columns by which they are grouped, unless one of these has
its name. -/
theorem ofNamed_groupBy (hs : s.names.Nodup) (hmem : ∀ n ∈ names, n ∈ s.names) :
    ofNamed r s names .groupBy =
      if groupColumn ∈ names then .error (.schema (.duplicateColumn groupColumn))
      else .ok ⟨(s.chosen names).columns ++ [groupRows r s names]⟩ := by
  have hchosen : (s.chosen names).names.Nodup := hs.sublist (List.filter_sublist.map _)
  have hgroup : groupColumn ∈ [] ++ (s.chosen names).names ↔ groupColumn ∈ names := by
    rw [List.nil_append]
    constructor
    · intro h
      obtain ⟨c, hc, heq⟩ := List.mem_map.1 h
      exact heq ▸ of_decide_eq_true (List.mem_filter.1 hc).2
    · intro h
      obtain ⟨c, hc, heq⟩ := List.mem_map.1 (hmem _ h)
      exact List.mem_map.2 ⟨c, List.mem_filter.2 ⟨hc, decide_eq_true (heq ▸ h)⟩, heq⟩
  have hrepeated : Schema.firstRepeated? []
      (((s.chosen names).columns ++ [groupRows r s names]).map Column.name)
        = if groupColumn ∈ names then some groupColumn else none := by
    rw [List.map_append, List.map_singleton]
    refine (Schema.firstRepeated?_concat hchosen fun n _ => List.not_mem_nil).trans ?_
    exact if_congr hgroup rfl rfl
  rw [ofNamed, Schema.ofColumns, hrepeated]
  by_cases h : groupColumn ∈ names <;> simp [h, ofSchema]

/-- Operations that take names of columns report the first name that the frame lacks, with the names
that it has, and otherwise succeed, but that the rows of groups need the name of a column that is
given. Then selecting and removing split the columns in two, in their order; and rows are grouped
under the columns that are selected, with those that are removed nested beside them. -/
theorem apply_named (hr : r.schema? = some s) (hs : s.names.Nodup) (hnames : names ≠ [])
    (typeArgs : List Binding) :
    (∀ rule : OperationRule, rule.kind.namesColumns = true → ∀ key candidates,
      rule.apply (naming r names typeArgs) = .error (.schema (.unknownColumn key candidates)) ↔
        names.find? (· ∉ s.names) = some key ∧ candidates = s.names) ∧
    ((∀ n ∈ names, n ∈ s.names) →
      (∀ rule : OperationRule, rule.kind = .select ∨ rule.kind = .distinct →
        rule.apply (naming r names typeArgs) = .ok (.known rule.output (s.chosen names) none)) ∧
      (∀ rule : OperationRule, rule.kind = .remove →
        rule.apply (naming r names typeArgs) = .ok (.known rule.output (s.others names) none)) ∧
      (∀ rule : OperationRule, rule.kind = .sortBy →
        rule.apply (naming r names typeArgs) = .ok (.known rule.output s none)) ∧
      (∀ rule : OperationRule, rule.kind = .dropNulls →
        rule.apply (naming r names typeArgs) = .ok (.known rule.output (withoutNulls s names) none)) ∧
      ∀ rule : OperationRule, rule.kind = .groupBy → rule.apply (naming r names typeArgs) =
        if groupColumn ∈ names then .error (.schema (.duplicateColumn groupColumn))
        else .ok (.known rule.output ⟨(s.chosen names).columns ++ [groupRows r s names]⟩ none)) ∧
    (s.chosen names).columns.Sublist s.columns ∧ (s.others names).columns.Sublist s.columns ∧
    ((s.chosen names).columns ++ (s.others names).columns).Perm s.columns ∧
    (∀ c ∈ s.columns, c ∈ (s.chosen names).columns ↔ c ∉ (s.others names).columns) ∧
    (groupRows r s names).name = groupColumn ∧ (groupRows r s names).kind = .frame ∧
    (groupRows r s names).children = some (s.others names) := by
  obtain ⟨hchosen, hothers, hperm, hapart⟩ := Schema.chosen_others s names
  refine ⟨fun rule hkind key candidates => ?_, fun hmem => ?_, hchosen, hothers, hperm, hapart, rfl,
    rfl, rfl⟩
  · cases hfind : names.find? (· ∉ s.names) with
    | some missing =>
      rw [apply_naming_of_missing hr hnames hfind hkind]
      simp [eq_comm]
    | none =>
      have hmem : ∀ n ∈ names, n ∈ s.names := by simpa using List.find?_eq_none.1 hfind
      refine iff_of_false (fun h => ?_) fun h => nomatch h.1
      rw [apply_naming_of_mem hr hnames hmem hkind rfl] at h
      revert h
      cases rule.kind
      case groupBy =>
        rw [ofNamed_groupBy hs hmem]
        split <;> exact nofun
      all_goals exact nofun
  · have happly {kind : OperationKind} (h : kind.namesColumns = true) {rule : OperationRule} :=
      @apply_naming_of_mem r s names typeArgs hr hnames hmem kind h rule
    refine ⟨fun rule hkind => hkind.elim (happly rfl) (happly rfl), fun rule => happly rfl,
      fun rule => happly rfl, fun rule => happly rfl, fun rule hkind => ?_⟩
    rw [happly rfl hkind, ofNamed_groupBy hs hmem]
    split <;> rfl

/-- Cities, with the rows of each. -/
def cityColumns : Schema :=
  ⟨[.ofValues "city" (.simple "String"), .ofValues "size" ⟨"Int", [], true⟩,
    .ofFrames groupColumn .star none]⟩

theorem apply_named_cities :
    let cities : Binding := .known .dataFrame cityColumns (some "City")
    let rule (kind : OperationKind) : OperationRule := ⟨.dataFrame, "op", .atLeast 1, kind, .groupBy⟩
    cities.schema? = some cityColumns ∧ cityColumns.names.Nodup ∧ ["size", "city", "size"] ≠ [] ∧
      (∀ n ∈ ["size", "city", "size"], n ∈ cityColumns.names) ∧
      (rule .groupBy).apply (naming cities ["size", "city", "size"] []) = .ok (.known .groupBy
        ⟨[.ofValues "city" (.simple "String"), .ofValues "size" ⟨"Int", [], true⟩,
          .ofFrames groupColumn (.simple "City")
            (some ⟨[.ofFrames groupColumn .star none]⟩)]⟩ none) ∧
      (rule .groupBy).apply (naming cities ["group", "size"] []) =
        .error (.schema (.duplicateColumn "group")) ∧
      (rule .sortBy).apply (naming cities ["size", "mayor", "group", "river"] []) =
        .error (.schema (.unknownColumn "mayor" ["city", "size", "group"])) := by
  intro cities rule
  have hs : cityColumns.names.Nodup := by decide
  have happly (names : List String) (hnames : names ≠ []) :=
    @apply_named cities _ names rfl hs hnames []
  obtain ⟨-, hfound, -⟩ := happly ["size", "city", "size"] (List.cons_ne_nil _ _)
  obtain ⟨-, hreserved, -⟩ := happly ["group", "size"] (List.cons_ne_nil _ _)
  obtain ⟨hmissing, -⟩ := happly ["size", "mayor", "group", "river"] (List.cons_ne_nil _ _)
  have hmem : ∀ n ∈ ["size", "city", "size"], n ∈ cityColumns.names := by decide
  have hmem' : ∀ n ∈ ["group", "size"], n ∈ cityColumns.names := by decide
  refine ⟨rfl, hs, List.cons_ne_nil _ _, hmem, (hfound hmem).2.2.2.2 (rule .groupBy) rfl,
    (hreserved hmem').2.2.2.2 (rule .groupBy) rfl,
    (hmissing (rule .sortBy) rfl _ _).2 ⟨?_, rfl⟩⟩
  decide

end OperationRule

end FrameCheck
