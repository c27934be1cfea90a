import FrameCheck.Proofs.Checker.Trivia
import FrameCheck.Proofs.Text.Positions
import FrameCheck.Proofs.Token.Insertion

/-!
# Suppressing a line

A suppression comment at the end of a line takes the diagnostics of that line out of the report
and leaves all others: their tokens move on, their positions stay. The end of the line must lie
outside of all tokens, for a comment inside of a token is part of it.

* `isSuppressed_suppressed` : which diagnostics are suppressed with the comment.
* `analyze_suppressed` : the report on a text with a line suppressed.
-/

namespace FrameCheck

/-- The comment that suppresses a line, behind a blank. -/
def suppression : List Char := ' ' :: suppressionMark

theorem suppression_eq : suppression = noteComment " dataframe: ignore".toList := by decide

theorem isNote_suppression : IsNote " dataframe: ignore".toList := by
  have hall : " dataframe: ignore".toList.all
      (fun c => c != '\n' && (c != '/' && c != '*')) = true := rfl
  intro c hc
  simpa only [Bool.and_eq_true, bne_iff_ne] using List.all_eq_true.1 hall c hc

theorem newline_notMem_suppression : '\n' ∉ suppression := by decide

theorem getLast?_suppression (line : List Char) : (line ++ suppression).getLast? = some 'e' := by
  rw [List.getLast?_append]
  rfl

/-- A text of which the line that stands between `head` and `behind` is suppressed. -/
def suppressed (head line behind : List Char) : List Char :=
  head ++ (line ++ (suppression ++ behind))

/-- How offsets move with the comment at the end of the line. -/
def Relocation.suppression (head line : List Char) : Relocation :=
  .insertion (byteLength (head ++ line)) (byteLength FrameCheck.suppression)

/-! ## What the comment suppresses -/

/-- No part of the comment but the whole ends as the mark does. -/
theorem not_suffix_of_suppression_eq {used rest : List Char} (h : suppression = used ++ rest)
    (hused : used ≠ []) (hrest : rest ≠ []) : ¬used <:+ suppressionMark := by
  have hparts : ∀ n < 21, 0 < n → ¬suppression.take n <:+ suppressionMark := by decide
  have hlength : used.length + rest.length = 21 := by
    rw [← List.length_append, ← h]
    rfl
  have hpos := List.length_pos_iff.2 hused
  have hrestPos := List.length_pos_iff.2 hrest
  have hnot := hparts used.length (by omega) hpos
  rwa [h, List.take_left] at hnot

/-- Behind the mark of a suppressed line nothing is left. -/
theorem after?_suppression {line : List Char} (h : Text.contains suppressionMark line = false) :
    Text.after? suppressionMark (line ++ suppression) = some [] := by
  have hnot {before rest : List Char} (hline : before ++ suppressionMark ++ rest = line) : False := by
    have hcontains := Text.contains_iff.2 ⟨before, rest, hline⟩
    rw [h] at hcontains
    exact Bool.false_ne_true hcontains
  have hcontains : Text.contains suppressionMark (line ++ suppression) = true :=
    Text.contains_iff.2 ((List.suffix_cons ' ' suppressionMark).trans
      (List.suffix_append line suppression)).isInfix
  obtain ⟨⟨before, rest⟩, hcut⟩ := Option.isSome_iff_exists.1 hcontains
  rw [Text.after?, hcut]
  refine congrArg some ?_
  by_contra hrest
  change rest ≠ [] at hrest
  rcases List.append_eq_append_iff.1 (Text.cut?_eq_some hcut).symm with
    ⟨y, hline, -⟩ | ⟨used, hbefore, hsplit⟩
  · exact hnot hline.symm
  by_cases hnil : used = []
  · rw [hnil, List.append_nil] at hbefore
    exact hnot (by rw [hbefore, List.append_nil])
  -- the mark ends inside of the comment
  refine not_suffix_of_suppression_eq hsplit hnil hrest ?_
  refine List.suffix_of_suffix_length_le ⟨line, hbefore.symm⟩ (List.suffix_append before _) ?_
  have hlength : suppressionMark.length + 1 = used.length + rest.length := by
    rw [← List.length_append, ← hsplit]
    rfl
  have hpos := List.length_pos_iff.2 hrest
  omega

section

variable {cs : List Char} {k : Nat} {head line behind : List Char}
  (hline : Text.IsLine cs k head line behind)

include hline

/-- Where the line has no mark, the comment suppresses it and changes nothing else. -/
theorem isSuppressed_suppressed (hmark : Text.contains suppressionMark line = false) (n : Nat)
    (code : Code) :
    isSuppressed (suppressed head line behind) n code = (n == k || isSuppressed cs n code) := by
  obtain ⟨rfl, rfl, hstarts, hunbroken, hends⟩ := hline
  have hunbroken' : '\n' ∉ line ++ suppression := fun hmem =>
    (List.mem_append.1 hmem).elim hunbroken newline_notMem_suppression
  rw [suppressed, ← List.append_assoc line]
  rcases n with _ | n
  · rfl
  by_cases hn : n = head.count '\n'
  · have hlast : (Text.lines (head ++ (line ++ suppression ++ behind)))[head.count '\n']?
        = some (line ++ suppression) := by
      rw [Text.lines_getElem?_self hstarts,
        Text.head?_lines hends hunbroken' (getLast?_suppression line) (by decide)]
    rw [hn, isSuppressed, hlast, Option.bind_some, after?_suppression hmark, beq_self_eq_true]
    rfl
  · rw [isSuppressed, isSuppressed, Text.lines_getElem?_of_ne hstarts hends hunbroken hunbroken' hn,
      beq_eq_false_iff_ne.2 fun h => hn (Nat.succ.inj h), Bool.false_or]

/-- An offset that moves with the comment keeps its line, and its position unless that is the
line of the comment. -/
theorem ofOffset_suppressed {x x' : Nat}
    (hx : x' = x ∧ x ≤ byteLength (head ++ line) ∨
      x' = x + byteLength suppression ∧ byteLength (head ++ line) ≤ x) :
    (Position.ofOffset (suppressed head line behind) x').line = (Position.ofOffset cs x).line ∧
      ((Position.ofOffset cs x).line ≠ k →
        Position.ofOffset (suppressed head line behind) x' = Position.ofOffset cs x) := by
  obtain ⟨rfl, rfl, hstarts, hunbroken, hends⟩ := hline
  have hcount : (head ++ line).count '\n' = head.count '\n' := by
    rw [List.count_append, List.count_eq_zero.2 hunbroken, Nat.add_zero]
  rw [suppressed, ← List.append_assoc, ← List.append_assoc head line behind]
  rcases hx with ⟨rfl, hle⟩ | ⟨rfl, hle⟩
  · rw [Position.ofOffset_of_le hle, Position.ofOffset_of_le hle]
    exact ⟨rfl, fun _ => rfl⟩
  · rcases Position.ofOffset_insert newline_notMem_suppression hends hle with
      hsame | ⟨hline', hline⟩
    · rw [hsame]
      exact ⟨rfl, fun _ => rfl⟩
    · rw [hcount] at hline' hline
      exact ⟨hline'.trans hline.symm, fun hne => absurd hline hne⟩

theorem start_suppressed (x : Nat) :
    let x' := (Relocation.suppression head line).start x
    (Position.ofOffset (suppressed head line behind) x').line = (Position.ofOffset cs x).line ∧
      ((Position.ofOffset cs x).line ≠ k →
        Position.ofOffset (suppressed head line behind) x' = Position.ofOffset cs x) := by
  refine ofOffset_suppressed hline ?_
  unfold Relocation.suppression Relocation.insertion
  dsimp only
  split <;> omega

theorem stop_suppressed (x : Nat) :
    let x' := (Relocation.suppression head line).stop x
    (Position.ofOffset (suppressed head line behind) x').line = (Position.ofOffset cs x).line ∧
      ((Position.ofOffset cs x).line ≠ k →
        Position.ofOffset (suppressed head line behind) x' = Position.ofOffset cs x) := by
  refine ofOffset_suppressed hline ?_
  unfold Relocation.suppression Relocation.insertion
  dsimp only
  split <;> omega

end

/-! ## Diagnostics that move -/

namespace Diagnostic

/-- The diagnostic is not of this line: it neither starts nor ends there. -/
def offLine (k : Nat) (d : Diagnostic) : Bool := d.start.line != k && d.stop.line != k

/-- The same diagnostic at offsets that moved. -/
def moved (r : Relocation) (d : Diagnostic) : Diagnostic := { d with span := r.span d.span }

variable {p n : Nat}

/-- Moving on from one place keeps apart what is apart. -/
theorem order_moved (a b : Diagnostic) :
    order (a.moved (.insertion p n)) (b.moved (.insertion p n)) = order a b := by
  have hcompare (c : Nat → Prop) [DecidablePred c] (hc : ∀ x y, x ≤ y → c y → c x) (x y : Nat) :
      compare (if c x then x else x + n) (if c y then y else y + n) = compare x y := by
    simp only [Nat.compare_eq_ite_lt]
    have hxy := hc x y
    have hyx := hc y x
    split <;> split <;> grind
  unfold order
  rw [show compare (a.moved (.insertion p n)).span.start (b.moved (.insertion p n)).span.start
      = compare a.span.start b.span.start from hcompare (· < p) (fun _ _ => Nat.lt_of_le_of_lt) _ _,
    show compare (a.moved (.insertion p n)).span.stop (b.moved (.insertion p n)).span.stop
      = compare a.span.stop b.span.stop from hcompare (· ≤ p) (fun _ _ => Nat.le_trans) _ _]
  rfl

theorem moved_inj {a b : Diagnostic}
    (h : a.moved (.insertion p n) = b.moved (.insertion p n)) : a = b := by
  obtain ⟨start, stop, code, message, ⟨x, y⟩⟩ := a
  obtain ⟨start', stop', code', message', ⟨x', y'⟩⟩ := b
  obtain ⟨rfl, rfl, rfl, rfl, hspan⟩ := Diagnostic.mk.inj h
  obtain ⟨hx, hy⟩ := Span.mk.inj hspan
  have hmove (c : Nat → Prop) [DecidablePred c] (hc : ∀ x y, x ≤ y → c y → c x) (x y : Nat)
      (h : (if c x then x else x + n) = if c y then y else y + n) : x = y := by
    have hxy := hc x y
    have hyx := hc y x
    grind
  rw [hmove (· < p) (fun _ _ => Nat.lt_of_le_of_lt) x x' hx,
    hmove (· ≤ p) (fun _ _ => Nat.le_trans) y y' hy]

end Diagnostic

/-! ## The report -/

section

variable {cs : List Char} {k : Nat} {head line behind : List Char}
  (hline : Text.IsLine cs k head line behind)

include hline

/-- A diagnostic that is let through is the one before, moved. -/
theorem ofSpan_suppressed {code : Code} {span : Span} {message : String}
    (h : (Diagnostic.ofSpan cs code span message).offLine k = true) :
    Diagnostic.ofSpan (suppressed head line behind) code
        ((Relocation.suppression head line).span span) message
      = (Diagnostic.ofSpan cs code span message).moved (.suppression head line) := by
  obtain ⟨hstart, hstop⟩ := Bool.and_eq_true_iff.1 h
  have hstart' := (start_suppressed hline span.start).2 (bne_iff_ne.1 hstart)
  have hstop' := (stop_suppressed hline span.stop).2 (bne_iff_ne.1 hstop)
  exact congr (congrArg (fun p q => Diagnostic.mk p q code message _) hstart') hstop'

/-- Besides what was not let through before, the comment excludes the line. -/
theorem admits_suppressed (hmark : Text.contains suppressionMark line = false)
    (options : CheckerOptions) (code : Code) (span : Span) (message : String) :
    options.admits (suppressed head line behind) (Diagnostic.ofSpan (suppressed head line behind)
        code ((Relocation.suppression head line).span span) message)
      = (options.admits cs (Diagnostic.ofSpan cs code span message) &&
          (Diagnostic.ofSpan cs code span message).offLine k) := by
  have hstart := (start_suppressed hline span.start).1
  have hstop := (stop_suppressed hline span.stop).1
  unfold CheckerOptions.admits Diagnostic.offLine
  rw [isSuppressed_suppressed hline hmark, isSuppressed_suppressed hline hmark]
  simp only [Diagnostic.ofSpan, Relocation.span, hstart, hstop, Diagnostic.severity, bne]
  cases (Position.ofOffset cs span.start).line == k <;>
    cases (Position.ofOffset cs span.stop).line == k <;> simp

/-- The diagnostics before the report, without those of the line. -/
theorem raised_suppressed (hmark : Text.contains suppressionMark line = false)
    (options : CheckerOptions) (found : List Finding) :
    SourceUnit.raised (suppressed head line behind) options
        (found.map (Finding.respan (Relocation.suppression head line).span))
      = ((SourceUnit.raised cs options found).filter (Diagnostic.offLine k)).map
          (Diagnostic.moved (.suppression head line)) := by
  induction found with
  | nil => rfl
  | cons x found ih =>
    unfold SourceUnit.raised at ih ⊢
    simp only [List.map_cons, List.filter_cons, Finding.respan, admits_suppressed hline hmark]
    cases hadmits : options.admits cs (Diagnostic.ofSpan cs x.code x.span x.message) with
    | false => exact ih
    | true =>
      rw [Bool.true_and, if_pos rfl, List.filter_cons]
      cases hoff : (Diagnostic.ofSpan cs x.code x.span x.message).offLine k with
      | false => exact ih
      | true => exact congrArg₂ List.cons (ofSpan_suppressed hline hoff) ih

end

/-- The tokens of a text with a line suppressed are those of the text, moved. -/
theorem Token.scan_suppressed {text : String} {k : Nat} {head line behind : List Char}
    (hline : Text.IsLine text.toList k head line behind) {ts : List Token}
    (h : Token.scan text = .ok ts)
    (hout : ∀ t ∈ ts, t.span.start < byteLength (head ++ line) →
      t.span.stop ≤ byteLength (head ++ line)) :
    Token.scan (String.ofList (suppressed head line behind))
      = .ok (Token.relocateAll (.suppression head line) ts) := by
  rw [← text.ofList_toList] at h
  obtain ⟨p, rest, hcode⟩ := Token.scan_eq_ok_iff.1 h
  rw [hline.split, ← List.append_assoc] at hcode
  have hinsert := hcode.insert isNote_suppression hline.ends (head ++ line) (Nat.zero_add _).symm hout
  rw [← suppression_eq, List.append_assoc] at hinsert
  exact Token.scan_eq_ok_iff.2 ⟨_, _, hinsert⟩

/-- The report on a text with a line suppressed is that on the text without the diagnostics that
start or end in the line, each at offsets that moved with the comment. The line has no mark of its
own, and it does not end inside of a token. -/
theorem analyze_suppressed {text : String} {k : Nat} {head line behind : List Char}
    (hline : Text.IsLine text.toList k head line behind)
    (hmark : Text.contains suppressionMark line = false)
    (hout : ∀ ts, Token.scan text = .ok ts → ∀ t ∈ ts,
      t.span.start < byteLength (head ++ line) → t.span.stop ≤ byteLength (head ++ line))
    (options : CheckerOptions) {ds : List Diagnostic} (h : analyze text options = .ok ds) :
    analyze (String.ofList (suppressed head line behind)) options
      = .ok ((ds.filter (Diagnostic.offLine k)).map
          (Diagnostic.moved (.suppression head line))) := by
  unfold analyze SourceUnit.ofText at h ⊢
  cases hts : Token.scan text with
  | error e =>
    rw [hts] at h
    cases h
  | ok ts =>
  rw [hts] at h
  rw [Token.scan_suppressed hline hts (hout ts hts)]
  simp only [Except.map, SourceUnit.check_eq, SourceUnit.ofTokens_relocateAll,
    SourceUnit.found_respan, String.toList_ofList] at h ⊢
  cases hfound : (SourceUnit.ofTokens ts).found options with
  | none =>
    rw [hfound] at h
    cases h
  | some found =>
    rw [hfound] at h
    obtain rfl := Except.ok.inj h
    have hraised := SourceUnit.raised_at_tokens text.toList hfound
    have hdistinguished := Diagnostic.distinguished_of_ofSpan fun d hd => (hraised d hd).ofSpan
    refine congrArg Except.ok ?_
    show Diagnostic.report _ = _
    rw [raised_suppressed hline hmark]
    refine (Diagnostic.report_map (fun a _ b _ => Diagnostic.order_moved a b)
      fun a _ b _ => Diagnostic.moved_inj).trans ?_
    rw [Diagnostic.report_filter hdistinguished]
    rfl

/-- A frame whose missing columns are read in two lines. -/
def missesText : String := "val a = dataFrameOf(\"x\" to 1)\nval b = a.y\nval c = a.z\n"

/-- With its second line suppressed the text has only the report on its third line. -/
theorem analyze_suppressed_missesText : ∃ head line behind ds d d',
    Text.IsLine missesText.toList 2 head line behind ∧ analyze missesText {} = .ok ds ∧
      d ∈ ds ∧ d.offLine 2 = false ∧ d' ∈ ds ∧ d'.offLine 2 = true ∧
        analyze (String.ofList (suppressed head line behind)) {}
          = .ok ((ds.filter (Diagnostic.offLine 2)).map
              (Diagnostic.moved (.suppression head line))) := by
  let head := "val a = dataFrameOf(\"x\" to 1)\n".toList
  let line := "val b = a.y".toList
  let behind := "\nval c = a.z\n".toList
  have hline : Text.IsLine missesText.toList 2 head line behind := by
    refine ⟨by decide +kernel, by decide +kernel, fun c hc => ?_, by decide +kernel, fun c hc => ?_⟩
    · exact (Option.some.inj hc).symm
    · exact (Option.some.inj hc).symm
  have hmark : Text.contains suppressionMark line = false := by decide +kernel
  have hspelled : missesText = String.ofList _ := rfl
  have hmarkText : Text.contains suppressionMark missesText.toList = false := by
    rw [hspelled, String.toList_ofList]
    decide +kernel
  obtain ⟨ts, hts, hscan⟩ : ∃ ts, Token.scan missesText = .ok ts ∧
      ((ts.all fun t => t.span.stop ≤ byteLength (head ++ line)
        || byteLength (head ++ line) ≤ t.span.start) &&
        ((SourceUnit.ofTokens ts).found {}).any fun found =>
          let raised := found.map fun x => Diagnostic.ofSpan missesText.toList x.code x.span x.message
          raised.any (fun d => !d.offLine 2) && raised.any (Diagnostic.offLine 2)) = true := by
    rw [hspelled, String.toList_ofList]
    refine Token.exists_scan rfl ?_
    decide +kernel
  rw [Bool.and_eq_true, Option.any_eq_true] at hscan
  obtain ⟨hout, found, hfound, hraised⟩ := hscan
  simp only [Bool.and_eq_true, List.any_eq_true, Bool.not_eq_true'] at hraised
  obtain ⟨⟨d, hd, hoff⟩, d', hd', hoff'⟩ := hraised
  have hds : analyze missesText {}
      = .ok (Diagnostic.report (SourceUnit.raised missesText.toList {} found)) := by
    unfold analyze SourceUnit.ofText
    rw [hts]
    simp only [Except.map, SourceUnit.check_eq, hfound]
    rfl
  have hmem {x : Diagnostic} (hx : x ∈ found.map fun x =>
      Diagnostic.ofSpan missesText.toList x.code x.span x.message) :
      x ∈ Diagnostic.report (SourceUnit.raised missesText.toList {} found) := by
    refine Diagnostic.mem_report.2 (List.mem_filter.2 ⟨hx, ?_⟩)
    rw [CheckerOptions.admits_of_not_contains {} hmarkText]
    rfl
  refine ⟨head, line, behind, _, d, d', hline, hds, hmem hd, hoff, hmem hd', hoff', ?_⟩
  refine analyze_suppressed hline hmark (fun ts' hts' t ht hstart => ?_) {} hds
  obtain rfl := Except.ok.inj (hts.symm.trans hts')
  have ht := List.all_eq_true.1 hout t ht
  simp only [Bool.or_eq_true, decide_eq_true_eq] at ht
  omega

/-- The token is a string, with templates or without. -/
def TokenKind.isString : TokenKind → Bool
  | .text _ | .template _ => true
  | _ => false

/-- A character that is a line break, in quotes. -/
def brokenText : String := "val c = '\n'\n"

/-- It is not enough that the line ends outside of all strings: the first line of this text ends in
another token. The report on the text is empty, but with the comment there it is no text at all. -/
theorem not_analyze_suppressed_brokenText : ∃ head line behind ts e,
    Text.IsLine brokenText.toList 1 head line behind ∧
      Text.contains suppressionMark line = false ∧ Token.scan brokenText = .ok ts ∧
        (∀ t ∈ ts, t.kind.isString = true → t.span.start < byteLength (head ++ line) →
          t.span.stop ≤ byteLength (head ++ line)) ∧
            analyze brokenText {} = .ok [] ∧
              analyze (String.ofList (suppressed head line behind)) {} = .error (.scan e) := by
  let line := "val c = '".toList
  let behind := "\n'\n".toList
  have hline : Text.IsLine brokenText.toList 1 [] line behind := by
    refine ⟨by decide +kernel, by decide +kernel, nofun, by decide +kernel, fun c hc => ?_⟩
    exact (Option.some.inj hc).symm
  have hmark : Text.contains suppressionMark line = false := by decide +kernel
  obtain ⟨ts, hts, hscan⟩ : ∃ ts, Token.scan brokenText = .ok ts ∧
      ((ts.all fun t => !t.kind.isString) && ((SourceUnit.ofTokens ts).found {}).any List.isEmpty) =
        true := by
    refine Token.exists_scan rfl ?_
    decide +kernel
  have herror : (Token.scan (String.ofList (suppressed [] line behind))).toOption.isNone = true := by
    decide +kernel
  rw [Bool.and_eq_true, Option.any_eq_true] at hscan
  obtain ⟨hstrings, found, hfound, hempty⟩ := hscan
  cases he : Token.scan (String.ofList (suppressed [] line behind)) with
  | ok ts' => simp [he, Except.toOption] at herror
  | error e =>
  refine ⟨[], line, behind, ts, e, hline, hmark, hts, fun t ht hstring => ?_, ?_, ?_⟩
  · have hnot := List.all_eq_true.1 hstrings t ht
    rw [hstring] at hnot
    exact absurd hnot Bool.false_ne_true
  · unfold analyze SourceUnit.ofText
    rw [hts]
    have hnil : Diagnostic.report (SourceUnit.raised brokenText.toList {} []) = [] := by
      rw [SourceUnit.raised, List.map_nil, List.filter_nil, Diagnostic.report, List.mergeSort_nil]
      rfl
    simp only [Except.map, SourceUnit.check_eq, hfound, List.isEmpty_iff.1 hempty, Option.map_some,
      hnil]
  · unfold analyze SourceUnit.ofText
    rw [he]
    rfl

end FrameCheck
