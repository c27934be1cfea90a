import FrameCheck.Checker.Basic
import FrameCheck.Text.Search

/-!
# Expectations in a fixture

A fixture is a source with markers, comments of the form `/*!CODE*/` or `/*!CODE: text*/`. A
marker expects a diagnostic with its code, and with its text in the message, whose span ends
where the text before the marker ends: blanks and earlier markers in between do not count, so
that several markers can follow one expression (`anchored`).

* `Expectation.ofText` : the expectations of a fixture, or its first marker that cannot be read.
* `fixtureOptions` : the options that a fixture asks for.
-/

namespace FrameCheck

def markerOpen : List Char := "/*!".toList
def markerClose : List Char := "*/".toList

structure Expectation where
  /-- The line of the marker, counted from one. -/
  line : Nat
  /-- The offset at which the span of the diagnostic ends. -/
  anchor : Nat
  code : Code
  /-- What the message contains. -/
  message : Option String
  marker : Span
deriving DecidableEq, Repr

/-- A marker that is not closed or does not name a code. -/
structure MarkerError where
  line : Nat
  text : String
deriving DecidableEq, Repr

def MarkerError.message (e : MarkerError) : String :=
  s!"malformed expectation marker at line {e.line}: {e.text}"

namespace Expectation

/-- Whether a diagnostic is the expected one. -/
def isMetBy (e : Expectation) (d : Diagnostic) : Bool :=
  d.span.stop == e.anchor && d.code == e.code &&
    match e.message with
    | some text => Text.contains text.toList d.message.toList
    | none => true

def display (e : Expectation) : String :=
  match e.message with
  | some text => s!"line {e.line}: {e.code.name}: {text}"
  | none => s!"line {e.line}: {e.code.name}"

/-- What is left of a text, given from its end, without the blanks and markers at its end. -/
def anchored (reversed : List Char) : List Char :=
  let trimmed := reversed.dropWhile Text.isBlank
  match h : trimmed with
  | '/' :: '*' :: rest =>
    match hc : Text.cut? markerOpen.reverse rest with
    | some (inside, before) =>
      if Text.contains markerClose.reverse inside then trimmed
      else
        have : before.length < reversed.length := by
          have hl := (List.dropWhile_suffix (l := reversed) Text.isBlank).length_le
          rw [show reversed.dropWhile Text.isBlank = _ from h, Text.cut?_eq_some hc] at hl
          simp at hl
          omega
        anchored before
    | none => trimmed
  | _ => trimmed
termination_by reversed.length

/-- The code and the text that a marker holds. -/
def readMarker? (inside : List Char) : Option (Code × Option String) :=
  let (name, text) := (Text.cut? [':'] inside).getD (inside, [])
  (Code.ofName? (String.ofList (Text.trim name))).map fun code =>
    let text := Text.trim text
    (code, if text.isEmpty then none else some (String.ofList text))

/-- The expectations in `text`, when what stands before it is `reversed` read from its end. -/
def ofTextAfter (reversed text : List Char) : Except MarkerError (List Expectation) :=
  match h : Text.cut? markerOpen text with
  | none => .ok []
  | some (skipped, behind) =>
    let reversed := skipped.reverse ++ reversed
    let line := reversed.count '\n' + 1
    match hc : Text.cut? markerClose behind with
    | none => .error ⟨line, String.ofList ((Text.lines (markerOpen ++ behind)).headD [])⟩
    | some (inside, rest) =>
      let marker := markerOpen ++ inside ++ markerClose
      match readMarker? inside with
      | none => .error ⟨line, String.ofList marker⟩
      | some (code, message) =>
        have : rest.length < text.length := by
          rw [Text.cut?_eq_some h, Text.cut?_eq_some hc]
          simp [markerOpen, markerClose]
          omega
        let start := byteLength reversed
        (ofTextAfter (marker.reverse ++ reversed) rest).map fun later =>
          ⟨line, byteLength (anchored reversed), code, message,
            ⟨start, start + byteLength marker⟩⟩ :: later
termination_by text.length

/-- The expectations of a fixture, in the order of their markers. -/
def ofText (text : List Char) : Except MarkerError (List Expectation) := ofTextAfter [] text

end Expectation

/-- The line by which a fixture asks for reports on frames without a marker. -/
def reportUntrackedLine : List Char := "// REPORT_UNTRACKED".toList

/-- The options that a fixture asks for. -/
def fixtureOptions (text : List Char) : CheckerOptions :=
  { reportUntracked := (Text.lines text).any fun line => Text.trim line == reportUntrackedLine }

end FrameCheck
