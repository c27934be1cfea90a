import FrameCheck.Proofs.Checker.Reports
import FrameCheck.Proofs.Checker.Relabel
import FrameCheck.Proofs.Parse.RelocatedUnits
import FrameCheck.Proofs.Text.Lines
import FrameCheck.Proofs.Token.Canonical

/-!
# Blanks and comments

What is found in a text starts where a token starts and stops where a token stops. The parser
and the checker compare spans only by joining them, and reports are in the order of the tokens;
so texts whose tokens have the same kinds get the same report, each diagnostic at the same
tokens, as long as no comment suppresses any.

* `SourceUnit.found_at_tokens` : findings are at tokens.
* `analyze_of_sameKinds` : the reports on two texts that differ in blanks and comments.
-/

namespace FrameCheck

/-! ## Findings at tokens -/

namespace SourceUnit

/-- A relocation that leaves all places of the tokens leaves all findings. -/
theorem respan_found {r : Relocation} {ts : List Token} (hr : Token.relocateAll r ts = ts)
    {options : CheckerOptions} {found : List Finding}
    (h : (ofTokens ts).found options = some found) : ∀ x ∈ found, r.span x.span = x.span := by
  have hrespan := found_respan r.span (ofTokens ts) options
  rw [← ofTokens_relocateAll, hr, h, Option.map_some] at hrespan
  have hfixed := List.map_inj_left.1 ((Option.some.inj hrespan).symm.trans (List.map_id found).symm)
  exact fun x hx => congrArg Finding.span (hfixed x hx)

/-- What is found starts where a token starts, and stops where a token stops. -/
theorem found_at_tokens {ts : List Token} {options : CheckerOptions} {found : List Finding}
    (h : (ofTokens ts).found options = some found) {x : Finding} (hx : x ∈ found) :
    x.span.start ∈ Token.starts ts ∧ x.span.stop ∈ Token.stops ts := by
  constructor
  · -- no token starts at the offset that this relocation moves
    by_contra hmem
    let r : Relocation := ⟨bump x.span.start, id, id, bump_mono _, monotone_id⟩
    have hr : Token.relocateAll r ts = ts := Token.relocateAll_eq_self fun place hplace => by
      cases place with
      | start n =>
        refine congrArg TokenPlace.start (bump_eq_self.2 fun heq => hmem ?_)
        exact List.mem_filterMap.2 ⟨_, hplace, congrArg some heq⟩
      | stop n => rfl
      | last s => rfl
    have hfixed := congrArg Span.start (respan_found hr h x hx)
    exact bump_eq_self.1 hfixed rfl
  · by_contra hmem
    let r : Relocation := ⟨id, bump x.span.stop, id, monotone_id, bump_mono _⟩
    have hr : Token.relocateAll r ts = ts := Token.relocateAll_eq_self fun place hplace => by
      cases place with
      | start n => rfl
      | stop n =>
        refine congrArg TokenPlace.stop (bump_eq_self.2 fun heq => hmem ?_)
        exact List.mem_filterMap.2 ⟨_, hplace, congrArg some heq⟩
      | last s => rfl
    have hfixed := congrArg Span.stop (respan_found hr h x hx)
    exact bump_eq_self.1 hfixed rfl

end SourceUnit

/-! ## Texts without the mark -/

/-- Where the mark does not occur nothing is suppressed. -/
theorem isSuppressed_of_not_contains {cs : List Char}
    (h : Text.contains suppressionMark cs = false) (line : Nat) (code : Code) :
    isSuppressed cs line code = false := by
  unfold isSuppressed
  split
  · rfl
  · next n =>
    have hafter : ((Text.lines cs)[n]?).bind (Text.after? suppressionMark) = none := by
      refine Option.bind_eq_none_iff.2 fun line hline => ?_
      have hpiece := Text.isInfix_of_mem_lines (List.mem_of_getElem? hline)
      have hnone : Text.contains suppressionMark line = false :=
        Bool.eq_false_iff.2 fun hp => by simp [Text.contains_of_isInfix hpiece hp] at h
      exact Option.map_eq_none_iff.2 (Option.isSome_eq_false_iff.1 hnone |>
        Option.isNone_iff_eq_none.1)
    rw [hafter]

/-- Where the mark does not occur only the options exclude diagnostics. -/
theorem CheckerOptions.admits_of_not_contains (options : CheckerOptions) {cs : List Char}
    (h : Text.contains suppressionMark cs = false) (d : Diagnostic) :
    options.admits cs d = (options.warnings || d.severity == .error) := by
  unfold admits
  rw [isSuppressed_of_not_contains h, isSuppressed_of_not_contains h]
  simp

/-! ## Reports on texts of the same kinds -/

namespace Token

/-- Two offsets at which the same token of two lists starts. -/
def SameStart (ts ts' : List Token) (x x' : Nat) : Prop :=
  ∃ i : Nat, (starts ts)[i]? = some x ∧ (starts ts')[i]? = some x'

/-- Two offsets at which the same token of two lists stops. -/
def SameStop (ts ts' : List Token) (x x' : Nat) : Prop :=
  ∃ i : Nat, (stops ts)[i]? = some x ∧ (stops ts')[i]? = some x'

end Token

/-- Two diagnostics with the same code and message, at the same tokens of two lists. -/
structure Diagnostic.Matches (ts ts' : List Token) (d d' : Diagnostic) : Prop where
  code : d.code = d'.code
  severity : d.severity = d'.severity
  message : d.message = d'.message
  start : Token.SameStart ts ts' d.span.start d'.span.start
  stop : Token.SameStop ts ts' d.span.stop d'.span.stop

/-- A diagnostic with numbered places, and without positions. -/
def Diagnostic.canonical (ts : List Token) (d : Diagnostic) : Diagnostic :=
  ⟨⟨0, 0⟩, ⟨0, 0⟩, d.code, d.message, (Relocation.canonical ts).span d.span⟩

/-- A diagnostic of a text whose span is that of tokens. -/
structure Diagnostic.AtTokens (cs : List Char) (ts : List Token) (d : Diagnostic) : Prop where
  ofSpan : d = Diagnostic.ofSpan cs d.code d.span d.message
  start : d.span.start ∈ Token.starts ts
  stop : d.span.stop ∈ Token.stops ts

namespace Diagnostic

section

variable {cs : List Char} {ts : List Token} (hstarts : (Token.starts ts).Pairwise (· < ·))
  (hstops : (Token.stops ts).Pairwise (· < ·)) {a b : Diagnostic} (ha : AtTokens cs ts a)
  (hb : AtTokens cs ts b)

include hstarts hstops ha hb

theorem order_canonical : order (a.canonical ts) (b.canonical ts) = order a b := by
  unfold order
  rw [show compare (a.canonical ts).span.start (b.canonical ts).span.start
      = compare a.span.start b.span.start from compare_rank hstarts ha.start hb.start,
    show compare (a.canonical ts).span.stop (b.canonical ts).span.stop
      = compare a.span.stop b.span.stop from compare_rank hstops ha.stop hb.stop]
  rfl

theorem canonical_inj (h : a.canonical ts = b.canonical ts) : a = b := by
  have hspan : (a.canonical ts).span = (b.canonical ts).span := by rw [h]
  have hstart := rank_inj hstarts ha.start hb.start (congrArg Span.start hspan)
  have hstop := rank_inj hstops ha.stop hb.stop (congrArg Span.stop hspan)
  have hcode : (a.canonical ts).code = (b.canonical ts).code := by rw [h]
  have hmessage : (a.canonical ts).message = (b.canonical ts).message := by rw [h]
  have hspan : Span.mk a.span.start a.span.stop = Span.mk b.span.start b.span.stop := by
    rw [hstart, hstop]
  rw [ha.ofSpan, hb.ofSpan]
  exact congr (congr (congrArg (ofSpan cs) hcode) hspan) hmessage

end

/-- Reports are made of diagnostics alike when the places are numbered. -/
theorem report_canonical {cs : List Char} {ts : List Token} {ds : List Diagnostic}
    (hstarts : (Token.starts ts).Pairwise (· < ·)) (hstops : (Token.stops ts).Pairwise (· < ·))
    (h : ∀ d ∈ ds, AtTokens cs ts d) :
    report (ds.map (canonical ts)) = (report ds).map (canonical ts) :=
  report_map (fun a ha b hb => order_canonical hstarts hstops (h a ha) (h b hb))
    fun a ha b hb => canonical_inj hstarts hstops (h a ha) (h b hb)

/-- Numbers of the same rank have the same index. -/
theorem exists_index_of_rank {l l' : List Nat} (h : l.Pairwise (· < ·)) (h' : l'.Pairwise (· < ·))
    {x x' : Nat} (hx : x ∈ l) (hx' : x' ∈ l') (heq : rank l x = rank l' x') :
    ∃ i : Nat, l[i]? = some x ∧ l'[i]? = some x' := by
  obtain ⟨i, hi⟩ := List.getElem?_of_mem hx
  obtain ⟨j, hj⟩ := List.getElem?_of_mem hx'
  rw [rank_getElem? h hi, rank_getElem? h' hj] at heq
  exact ⟨i, hi, heq ▸ hj⟩

/-- Diagnostics that are the same once their places are numbered match. -/
theorem matches_of_canonical {cs cs' : List Char} {ts ts' : List Token}
    (hstarts : (Token.starts ts).Pairwise (· < ·)) (hstops : (Token.stops ts).Pairwise (· < ·))
    (hstarts' : (Token.starts ts').Pairwise (· < ·))
    (hstops' : (Token.stops ts').Pairwise (· < ·)) {d d' : Diagnostic} (hd : AtTokens cs ts d)
    (hd' : AtTokens cs' ts' d') (h : d.canonical ts = d'.canonical ts') : Matches ts ts' d d' := by
  have hcode : (d.canonical ts).code = (d'.canonical ts').code := by rw [h]
  have hmessage : (d.canonical ts).message = (d'.canonical ts').message := by rw [h]
  have hspan : (d.canonical ts).span = (d'.canonical ts').span := by rw [h]
  exact ⟨hcode, congrArg Code.severity hcode, hmessage,
    exists_index_of_rank hstarts hstarts' hd.start hd'.start (congrArg Span.start hspan),
    exists_index_of_rank hstops hstops' hd.stop hd'.stop (congrArg Span.stop hspan)⟩

end Diagnostic

namespace SourceUnit

theorem diagnostics_at_tokens (cs : List Char) {options : CheckerOptions} {ts : List Token}
    {found : List Finding} (h : (ofTokens ts).found options = some found) :
    ∀ d ∈ found.map fun x => Diagnostic.ofSpan cs x.code x.span x.message,
      Diagnostic.AtTokens cs ts d := by
  intro d hd
  obtain ⟨x, hx, rfl⟩ := List.mem_map.1 hd
  obtain ⟨hstart, hstop⟩ := found_at_tokens h hx
  exact ⟨rfl, hstart, hstop⟩

theorem raised_at_tokens (cs : List Char) {options : CheckerOptions} {ts : List Token}
    {found : List Finding} (h : (ofTokens ts).found options = some found) :
    ∀ d ∈ raised cs options found, Diagnostic.AtTokens cs ts d :=
  fun d hd => diagnostics_at_tokens cs h d (List.mem_filter.1 hd).1

/-- With numbered places only the findings count, and not the text they are found in. -/
theorem diagnostics_canonical (cs : List Char) (ts : List Token) (found : List Finding) :
    (found.map fun x => Diagnostic.ofSpan cs x.code x.span x.message).map (Diagnostic.canonical ts)
      = (found.map (Finding.respan (Relocation.canonical ts).span)).map fun x =>
          ⟨⟨0, 0⟩, ⟨0, 0⟩, x.code, x.message, x.span⟩ := by
  rw [List.map_map, List.map_map]
  rfl

end SourceUnit

theorem forall₂_of_map_eq {α β γ : Type} {f : α → γ} {g : β → γ} {R : α → β → Prop}
    {xs : List α} {ys : List β} (h : xs.map f = ys.map g)
    (hR : ∀ x ∈ xs, ∀ y ∈ ys, f x = g y → R x y) : List.Forall₂ R xs ys := by
  induction xs generalizing ys with
  | nil =>
    obtain rfl := List.map_eq_nil_iff.1 h.symm
    exact .nil
  | cons x xs ih =>
    obtain ⟨y, ys, rfl, hy, hys⟩ := List.map_eq_cons_iff.1 h.symm
    refine .cons (hR x (by simp) y (by simp) hy.symm) (ih hys.symm fun x hx y hy => ?_)
    exact hR x (List.mem_cons_of_mem _ hx) y (List.mem_cons_of_mem _ hy)

theorem map_eq_of_forall₂ {α β γ : Type} {f : α → γ} {g : β → γ} {R : α → β → Prop}
    {xs : List α} {ys : List β} (h : List.Forall₂ R xs ys) (hR : ∀ x y, R x y → f x = g y) :
    xs.map f = ys.map g := by
  induction h with
  | nil => rfl
  | cons hxy _ ih => rw [List.map_cons, List.map_cons, hR _ _ hxy, ih]

section

variable {text text' : String} {ts ts' : List Token} (h : Token.scan text = .ok ts)
  (h' : Token.scan text' = .ok ts')
  (hbare : Token.relocateAll .bare ts = Token.relocateAll .bare ts')

include h h' hbare

/-- With numbered places both texts have the same tokens, and so the same tree. -/
theorem SourceUnit.respan_of_bare :
    (SourceUnit.ofTokens ts).respan (Relocation.canonical ts).span
      = (SourceUnit.ofTokens ts').respan (Relocation.canonical ts').span := by
  obtain ⟨hstarts, hstops⟩ := Token.places_of_scan h
  obtain ⟨hstarts', hstops'⟩ := Token.places_of_scan h'
  rw [← SourceUnit.ofTokens_relocateAll, ← SourceUnit.ofTokens_relocateAll,
    Token.relocateAll_canonical hbare hstarts hstops hstarts' hstops']

/-- The reports on texts whose tokens have the same kinds, where diagnostics at the same tokens are
let through alike. -/
theorem analyze_of_admits (options : CheckerOptions)
    (hadmits : ∀ d d', Diagnostic.AtTokens text.toList ts d → Diagnostic.AtTokens text'.toList ts' d' →
      Diagnostic.Matches ts ts' d d' →
        options.admits text.toList d = options.admits text'.toList d') :
    match analyze text options, analyze text' options with
    | .ok ds, .ok ds' => List.Forall₂ (Diagnostic.Matches ts ts') ds ds'
    | .error e, .error e' => e = .endless ∧ e' = .endless
    | _, _ => False := by
  obtain ⟨hstarts, hstops⟩ := Token.places_of_scan h
  obtain ⟨hstarts', hstops'⟩ := Token.places_of_scan h'
  have hu : SourceUnit.ofText text = .ok (.ofTokens ts) := by rw [SourceUnit.ofText, h]; rfl
  have hu' : SourceUnit.ofText text' = .ok (.ofTokens ts') := by rw [SourceUnit.ofText, h']; rfl
  have hfound := congrArg (fun u => SourceUnit.found u options)
    (SourceUnit.respan_of_bare h h' hbare)
  simp only [SourceUnit.found_respan] at hfound
  unfold analyze
  rw [hu, hu']
  simp only [SourceUnit.check_eq]
  cases hf : (SourceUnit.ofTokens ts).found options with
  | none =>
    rw [hf] at hfound
    rw [Option.map_eq_none_iff.1 hfound.symm]
    exact ⟨rfl, rfl⟩
  | some found =>
    rw [hf] at hfound
    obtain ⟨found', hf', hfound⟩ := Option.map_eq_some_iff.1 hfound.symm
    rw [hf']
    have hds := SourceUnit.diagnostics_at_tokens text.toList hf
    have hds' := SourceUnit.diagnostics_at_tokens text'.toList hf'
    have hmatch {d d' : Diagnostic} (hd : Diagnostic.AtTokens text.toList ts d)
        (hd' : Diagnostic.AtTokens text'.toList ts' d') (heq : d.canonical ts = d'.canonical ts') :
        Diagnostic.Matches ts ts' d d' :=
      Diagnostic.matches_of_canonical hstarts hstops hstarts' hstops' hd hd' heq
    -- the diagnostics before the filter, one by one
    have hall := forall₂_of_map_eq
      (R := fun d d' => d.canonical ts = d'.canonical ts' ∧
        (options.admits text.toList d ↔ options.admits text'.toList d'))
      (((SourceUnit.diagnostics_canonical text.toList ts found).trans (by rw [hfound])).trans
        (SourceUnit.diagnostics_canonical text'.toList ts' found').symm)
      fun d hd d' hd' heq => ⟨heq, by
        rw [hadmits d d' (hds d hd) (hds' d' hd') (hmatch (hds d hd) (hds' d' hd') heq)]⟩
    have hraised : (SourceUnit.raised text.toList options found).map (Diagnostic.canonical ts)
        = (SourceUnit.raised text'.toList options found').map (Diagnostic.canonical ts') :=
      map_eq_of_forall₂ (List.rel_filter (fun _ _ hR => hR.2) hall) fun _ _ hR => hR.1
    have hreport := congrArg Diagnostic.report hraised
    have hat := SourceUnit.raised_at_tokens text.toList hf
    have hat' := SourceUnit.raised_at_tokens text'.toList hf'
    rw [Diagnostic.report_canonical hstarts hstops hat,
      Diagnostic.report_canonical hstarts' hstops' hat'] at hreport
    exact forall₂_of_map_eq hreport fun d hd d' hd' =>
      hmatch (hat d (Diagnostic.mem_report.1 hd)) (hat' d' (Diagnostic.mem_report.1 hd'))

end

/-- Texts whose tokens have the same kinds are parsed to the same tree, spans apart, and get the
same report, with each diagnostic at the same tokens. -/
theorem analyze_of_sameKinds {text text' : String} {ts ts' : List Token}
    (h : Token.scan text = .ok ts) (h' : Token.scan text' = .ok ts')
    (hkinds : Token.sameKinds ts ts' = true)
    (hm : Text.contains suppressionMark text.toList = false)
    (hm' : Text.contains suppressionMark text'.toList = false) (options : CheckerOptions) :
    (∃ u u', SourceUnit.ofText text = .ok u ∧ SourceUnit.ofText text' = .ok u' ∧
      u.bare = u'.bare) ∧
    match analyze text options, analyze text' options with
    | .ok ds, .ok ds' => List.Forall₂ (Diagnostic.Matches ts ts') ds ds'
    | .error e, .error e' => e = .endless ∧ e' = .endless
    | _, _ => False := by
  constructor
  · have hu : SourceUnit.ofText text = .ok (.ofTokens ts) := by rw [SourceUnit.ofText, h]; rfl
    have hu' : SourceUnit.ofText text' = .ok (.ofTokens ts') := by rw [SourceUnit.ofText, h']; rfl
    have hbare := congrArg SourceUnit.bare
      (SourceUnit.respan_of_bare h h' (Token.bare_of_sameKinds hkinds))
    rw [SourceUnit.bare_respan, SourceUnit.bare_respan] at hbare
    exact ⟨_, _, hu, hu', hbare⟩
  · refine analyze_of_admits h h' (Token.bare_of_sameKinds hkinds) options fun d d' _ _ hd => ?_
    rw [options.admits_of_not_contains hm, options.admits_of_not_contains hm', hd.severity]

/-- A frame without the column that is read from it. -/
def plainText : String := "val a = dataFrameOf(\"x\" to 1)\nval b = a.y\n"

/-- The same tokens between other blanks and comments. -/
def commentedText : String :=
  "val  a=dataFrameOf( \"x\" to 1 ) // a frame\nval b = /* no column */ a . y\n"

/-- The missing column is reported in both texts, at the same tokens. -/
theorem analyze_commentedText : ∃ ts ts' ds ds', Token.scan plainText = .ok ts ∧
    Token.scan commentedText = .ok ts' ∧ analyze plainText {} = .ok ds ∧
      analyze commentedText {} = .ok ds' ∧ ds ≠ [] ∧
        List.Forall₂ (Diagnostic.Matches ts ts') ds ds' := by
  have hcommented := Token.scan_ofList (show commentedText = String.ofList _ from rfl)
  obtain ⟨ts, hts, h⟩ : ∃ ts, Token.scan plainText = .ok ts ∧
      ((Token.scan commentedText).toOption.any (fun ts' => Token.sameKinds ts ts') &&
        ((SourceUnit.ofTokens ts).found {}).any fun found => !found.isEmpty) = true := by
    rw [hcommented]
    refine Token.exists_scan rfl ?_
    decide +kernel
  have hm : Text.contains suppressionMark plainText.toList = false := by
    rw [show plainText = String.ofList _ from rfl, String.toList_ofList]
    decide +kernel
  have hm' : Text.contains suppressionMark commentedText.toList = false := by
    rw [show commentedText = String.ofList _ from rfl, String.toList_ofList]
    decide +kernel
  cases hts' : Token.scan commentedText with
  | error e => simp [hts', Except.toOption] at h
  | ok ts' =>
  rw [hts', Except.toOption, Option.any_some, Bool.and_eq_true, Option.any_eq_true] at h
  obtain ⟨hkinds, found, hfound, hne⟩ := h
  obtain ⟨-, hreports⟩ := analyze_of_sameKinds hts hts' hkinds hm hm' {}
  obtain ⟨x, hx⟩ := List.exists_mem_of_ne_nil found (by simpa using hne)
  have hds : analyze plainText {}
      = .ok (Diagnostic.report (SourceUnit.raised plainText.toList {} found)) := by
    unfold analyze SourceUnit.ofText
    rw [hts]
    simp only [Except.map, SourceUnit.check_eq, hfound]
    rfl
  have hmem : Diagnostic.ofSpan plainText.toList x.code x.span x.message
      ∈ Diagnostic.report (SourceUnit.raised plainText.toList {} found) := by
    refine Diagnostic.mem_report.2 (List.mem_filter.2 ⟨List.mem_map.2 ⟨x, hx, rfl⟩, ?_⟩)
    rw [CheckerOptions.admits_of_not_contains {} hm]
    rfl
  cases hds' : analyze commentedText {} with
  | error e =>
    rw [hds, hds'] at hreports
    exact hreports.elim
  | ok ds' =>
    rw [hds, hds'] at hreports
    exact ⟨ts, ts', _, ds', hts, rfl, hds, rfl, List.ne_nil_of_mem hmem, hreports⟩

end FrameCheck
