import FrameCheck.Proofs.Checker.Coverage
import FrameCheck.Proofs.Checker.Reports
import FrameCheck.Proofs.Checker.Relabel

/-!
# Options leave out diagnostics

Two of the options do nothing but leave out. Without warnings the errors are reported as they
are with warnings, and without reads of untracked frames all else is reported as it is with
them: looking whether a frame is untracked asks nothing of inference, so what is found behind
such a read is the same. A report has its own order, and none of that in which things were found.

* `Program.findings_filter` : what is left out at each place is left out of the whole.
* `SourceUnit.check_canonical` : reports under other options, and the order of a report.
-/

namespace FrameCheck

/-! ## Findings under other options -/

/-- What is made of an answer changes nothing of the memo that is left. -/
theorem Query.map_run {α β : Type} (f : α → β) (q : Query α) (m : Memo) :
    (f <$> q) m = (q m).map fun r => (f r.1, r.2) := by
  rw [← bind_pure_comp, bind_run]
  cases q m <;> rfl

namespace Program

variable (p : Program)

/-- If at each place the findings under some options are those under others less some, then so
are all findings, provided that none of the recorded failures is left out. -/
theorem findings_filter (options options' : CheckerOptions) (keep : Finding → Bool)
    (hlimit : options.maxSuggestionDistance = options'.maxSuggestionDistance)
    (hfailures : ∀ f : Failure, keep (f.finding options'.maxSuggestionDistance) = true)
    (hvisits : ∀ v, p.visitFindings options v = List.filter keep <$> p.visitFindings options' v)
    (visits : List Visit) :
    p.findings options visits = List.filter keep <$> p.findings options' visits := by
  have hall (visits : List Visit) :
      p.visitAll options visits = List.filter keep <$> p.visitAll options' visits := by
    induction visits with
    | nil => rfl
    | cons v rest ih =>
      simp only [visitAll, hvisits, ih, map_bind, bind_map_left, map_pure, List.filter_append]
  have hrecorded (fs : List Failure) :
      (fs.map (Failure.finding options'.maxSuggestionDistance)).filter keep
        = fs.map (Failure.finding options'.maxSuggestionDistance) := by
    refine List.filter_eq_self.2 fun f hf => ?_
    obtain ⟨failure, -, rfl⟩ := List.mem_map.1 hf
    exact hfailures failure
  simp only [findings, hall, hlimit, map_bind, bind_map_left, map_pure, List.filter_append,
    hrecorded]

/-- Warnings are found in any case. -/
theorem visitFindings_warnings (options : CheckerOptions) (warnings : Bool) (v : Visit) :
    p.visitFindings { options with warnings } v = p.visitFindings options v := by
  cases v <;> rfl

/-- The type of a column is not what untracked frames are about. -/
theorem typeFindings_tracked (access : Expr) (column : Column) :
    (List.filter fun f : Finding => f.code != .untrackedDataframe) <$> p.typeFindings access column
      = p.typeFindings access column := by
  funext m
  rw [Query.map_run]
  cases h : p.typeFindings access column m with
  | none => rfl
  | some r =>
    obtain ⟨found, m'⟩ := r
    rcases typeFindings_cases h with rfl | ⟨message, rfl⟩ <;> rfl

theorem columnFindings_tracked (options : CheckerOptions) (access receiver : Expr) (name : String)
    (indexed : Bool) :
    p.columnFindings { options with reportUntracked := false } access receiver name indexed
      = (List.filter fun f : Finding => f.code != .untrackedDataframe) <$>
          p.columnFindings { options with reportUntracked := true } access receiver name indexed := by
  unfold columnFindings
  rw [map_bind]
  refine bind_congr fun b => ?_
  cases b with
  | unknown =>
    -- nothing is asked here, whether the read is reported or not
    have huntracked : (p.untrackedFindings access receiver name).filter
        (fun f => f.code != .untrackedDataframe) = [] := by
      unfold untrackedFindings
      split <;> rfl
    cases indexed with
    | false => rfl
    | true =>
      show pure [] = _ <$> pure (p.untrackedFindings access receiver name)
      rw [map_pure, huntracked]
  | known shape schema origin =>
    dsimp only
    split
    · rfl
    · cases schema.lookup? name with
      | none => rfl
      | some column => exact (p.typeFindings_tracked access column).symm

theorem visitFindings_tracked (options : CheckerOptions) (v : Visit) :
    p.visitFindings { options with reportUntracked := false } v
      = (List.filter fun f : Finding => f.code != .untrackedDataframe) <$>
          p.visitFindings { options with reportUntracked := true } v := by
  cases v with
  | marker c =>
    have hshadow : c.shadowFindings.filter (fun f => f.code != .untrackedDataframe)
        = c.shadowFindings := by
      refine List.filter_eq_self.2 fun f hf => ?_
      obtain ⟨q, -, hq⟩ := List.mem_filterMap.1 hf
      obtain ⟨owner, -, rfl⟩ := Option.map_eq_some_iff.1 hq
      rfl
    simp only [visitFindings, map_bind, map_pure, hshadow]
  | call e => simp only [visitFindings, map_bind, map_pure, List.filter_nil]
  | column access receiver name indexed =>
    exact p.columnFindings_tracked options access receiver name indexed

end Program

/-- A recorded failure is an error. -/
theorem Failure.finding_code_ne (limit : Nat) (f : Failure) :
    (f.finding limit).code ≠ .untrackedDataframe := by
  unfold finding
  split <;> exact nofun

/-! ## Reports under other options -/

namespace SourceUnit

variable (u : SourceUnit) (text : String) (options : CheckerOptions)

theorem found_warnings (warnings : Bool) :
    u.found { options with warnings } = u.found options := by
  have h := (Program.ofUnit u).findings_filter { options with warnings } options (fun _ => true) rfl
    (fun _ => rfl) (fun v => by
      rw [Program.visitFindings_warnings, show List.filter (fun _ : Finding => true) = id from
        funext fun l => l.filter_true, id_map]) u.visits
  unfold found
  rw [h, Query.map_run, Option.map_map]
  refine Option.map_congr fun r _ => ?_
  exact r.1.filter_true

theorem found_tracked :
    u.found { options with reportUntracked := false }
      = (u.found { options with reportUntracked := true }).map
          (List.filter fun f => f.code != .untrackedDataframe) := by
  have h := (Program.ofUnit u).findings_filter { options with reportUntracked := false }
    { options with reportUntracked := true } (fun f => f.code != .untrackedDataframe) rfl
    (fun f => bne_iff_ne.2 (f.finding_code_ne _)) ((Program.ofUnit u).visitFindings_tracked options)
    u.visits
  unfold found
  rw [h, Query.map_run, Option.map_map, Option.map_map]
  rfl

/-- The diagnostics of a text are told apart by span, code and message. -/
theorem distinguished_raised (cs : List Char) (found : List Finding) :
    Diagnostic.Distinguished (raised cs options found) := by
  refine @Diagnostic.distinguished_of_ofSpan cs _ fun d hd => ?_
  obtain ⟨x, -, rfl⟩ := List.mem_map.1 (List.mem_filter.1 hd).1
  rfl

theorem check_warnings :
    u.check text { options with warnings := false }
      = (u.check text { options with warnings := true }).map
          (List.filter fun d => d.severity == .error) := by
  rw [check_eq, check_eq, found_warnings, u.found_warnings options true, Option.map_map]
  refine Option.map_congr fun found _ => ?_
  show _ = List.filter _ (Diagnostic.report _)
  rw [← Diagnostic.report_filter (distinguished_raised _ _ found)]
  unfold raised CheckerOptions.admits
  rw [List.filter_filter]
  simp only [Bool.false_or, Bool.true_or, Bool.true_and, Bool.and_assoc]

theorem check_tracked :
    u.check text { options with reportUntracked := false }
      = (u.check text { options with reportUntracked := true }).map
          (List.filter fun d => d.code != .untrackedDataframe) := by
  rw [check_eq, check_eq, found_tracked, Option.map_map, Option.map_map]
  refine Option.map_congr fun found _ => ?_
  show Diagnostic.report _ = List.filter _ (Diagnostic.report _)
  rw [← Diagnostic.report_filter (distinguished_raised _ _ found)]
  unfold raised
  rw [List.filter_filter, List.filter_map, List.filter_map, List.filter_filter]
  refine congrArg (fun fs => Diagnostic.report (List.map _ fs)) (List.filter_congr fun f _ => ?_)
  exact Bool.and_comm _ _

/-- Without warnings the errors are left, and without reads of untracked frames all else; and a
report is in strictly ascending order of spans, codes and messages, so that it does not show in
which order things were found. -/
theorem check_canonical :
    u.check text { options with warnings := false }
        = (u.check text { options with warnings := true }).map
            (List.filter fun d => d.severity == .error) ∧
    u.check text { options with reportUntracked := false }
        = (u.check text { options with reportUntracked := true }).map
            (List.filter fun d => d.code != .untrackedDataframe) ∧
    ∀ ds, u.check text options = some ds → ds.Pairwise (fun d d' => d.order d' = .lt) ∧
      ∃ found, u.found options = some found ∧ ∀ found', found'.Perm found →
        Diagnostic.report (raised text.toList options found') = ds := by
  refine ⟨u.check_warnings text options, u.check_tracked text options, fun ds h => ?_⟩
  rw [check_eq] at h
  obtain ⟨found, hfound, rfl⟩ := Option.map_eq_some_iff.1 h
  refine ⟨Diagnostic.pairwise_report (distinguished_raised options _ found), found, hfound,
    fun found' hperm => ?_⟩
  refine Diagnostic.eq_of_pairwise_order
    (Diagnostic.pairwise_report (distinguished_raised options _ found'))
    (Diagnostic.pairwise_report (distinguished_raised options _ found)) fun d => ?_
  rw [Diagnostic.mem_report, Diagnostic.mem_report]
  exact ((hperm.map _).filter _).mem_iff

/-- A column with the name of a member, a column that is missed, and a read of a frame without a
marker. -/
def mixedText : String :=
  "@DataSchema\ninterface Box \x7b\n    val size: Int\n\x7d\n" ++
  "fun f(df: DataFrame<Box>, raw: AnyFrame) \x7b\n    raw[\"x\"]\n    df[\"y\"]\n\x7d\n"

/-- The report on them has one diagnostic of each severity at least; without warnings its errors are
left, and without reads of untracked frames all but one kind. -/
theorem check_canonical_mixedText : ∃ u ds, ofText mixedText = .ok u ∧
    u.check mixedText { reportUntracked := true } = some ds ∧
      (∀ severity : Severity, ∃ d ∈ ds, d.severity = severity) ∧
      ds.Pairwise (fun d d' => d.order d' = .lt) ∧
      u.check mixedText { warnings := false, reportUntracked := true }
        = some (ds.filter fun d => d.severity == .error) ∧
      u.check mixedText {} = some (ds.filter fun d => d.code != .untrackedDataframe) := by
  have hspelled : mixedText = String.ofList _ := Token.eq_ofList_append rfl rfl
  obtain ⟨u, hu, h⟩ : ∃ u, ofText mixedText = .ok u ∧
      ((u.found { reportUntracked := true }).any fun found =>
        let raised := raised mixedText.toList { reportUntracked := true } found
        raised.any (·.severity == .error) && raised.any (·.severity == .warning) &&
          raised.any (·.severity == .info)) = true := by
    rw [hspelled, String.toList_ofList]
    refine exists_ofText rfl ?_
    decide +kernel
  obtain ⟨found, hfound, h⟩ := (Option.any_eq_true _ _).1 h
  simp only [Bool.and_eq_true, List.any_eq_true, beq_iff_eq] at h
  obtain ⟨⟨⟨e, he, herror⟩, w, hw, hwarning⟩, i, hi, hinfo⟩ := h
  have hds : u.check mixedText { reportUntracked := true } = some (Diagnostic.report
      (raised mixedText.toList { reportUntracked := true } found)) := by
    rw [check_eq, hfound]
    rfl
  obtain ⟨hwarnings, huntracked, hreport⟩ :=
    u.check_canonical mixedText { reportUntracked := true }
  refine ⟨u, _, hu, hds, fun severity => ?_, (hreport _ hds).1, hwarnings.trans (by rw [hds]; rfl),
    huntracked.trans (by rw [hds]; rfl)⟩
  cases severity with
  | error => exact ⟨e, Diagnostic.mem_report.2 he, herror⟩
  | warning => exact ⟨w, Diagnostic.mem_report.2 hw, hwarning⟩
  | info => exact ⟨i, Diagnostic.mem_report.2 hi, hinfo⟩

end SourceUnit

end FrameCheck
