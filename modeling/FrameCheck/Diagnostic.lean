import FrameCheck.Text.Blank
import FrameCheck.Text.Position
import FrameCheck.Text.Search

/-!
# Diagnostics

A diagnostic has a code, which fixes its severity, a message, and its place as a span and as
positions. A report lists diagnostics in the order of their spans, codes and messages, each
once. A comment on a line of the source can suppress the diagnostics of that line.

* `Diagnostic.report` : the canonical list.
* `isSuppressed` : whether a line carries a comment that suppresses a code.
-/

namespace FrameCheck

inductive Severity where
  | error | warning | info
deriving DecidableEq, Repr

def Severity.name : Severity → String
  | error => "error"
  | warning => "warning"
  | info => "info"

inductive Code where
  | unknownColumn | duplicateColumn | columnTypeMismatch | schemaError
  | columnNameShadowsMember | untrackedDataframe
deriving DecidableEq, Repr

namespace Code

/-- All codes, in the order in which diagnostics of one span are reported. -/
def all : List Code :=
  [unknownColumn, duplicateColumn, columnTypeMismatch, schemaError, columnNameShadowsMember,
   untrackedDataframe]

def rank (c : Code) : Nat := all.idxOf c

def name : Code → String
  | unknownColumn => "UNKNOWN_COLUMN"
  | duplicateColumn => "DUPLICATE_COLUMN"
  | columnTypeMismatch => "COLUMN_TYPE_MISMATCH"
  | schemaError => "SCHEMA_ERROR"
  | columnNameShadowsMember => "COLUMN_NAME_SHADOWS_MEMBER"
  | untrackedDataframe => "UNTRACKED_DATAFRAME"

def ofName? (s : String) : Option Code := all.find? fun c => c.name == s

def severity : Code → Severity
  | unknownColumn | duplicateColumn | columnTypeMismatch | schemaError => .error
  | columnNameShadowsMember => .warning
  | untrackedDataframe => .info

end Code

structure Diagnostic where
  start : Position
  stop : Position
  code : Code
  message : String
  span : Span
deriving DecidableEq, Repr

namespace Diagnostic

/-- A diagnostic at a span of a text. -/
def ofSpan (text : List Char) (code : Code) (span : Span) (message : String) : Diagnostic :=
  ⟨Position.ofOffset text span.start, Position.ofOffset text span.stop, code, message, span⟩

def severity (d : Diagnostic) : Severity := d.code.severity

def display (d : Diagnostic) : String :=
  s!"{d.start.line}:{d.start.column}: {d.severity.name} [{d.code.name}] {d.message}"

/-- The order of reports: by span, then code, then message. -/
def order (a b : Diagnostic) : Ordering :=
  (compare a.span.start b.span.start).then <|
    (compare a.span.stop b.span.stop).then <|
      (compare a.code.rank b.code.rank).then (compare a.message b.message)

/-- The list without those that equal the one before. -/
def withoutRepeats : List Diagnostic → List Diagnostic
  | a :: b :: rest => if a = b then withoutRepeats (b :: rest) else a :: withoutRepeats (b :: rest)
  | short => short

/-- The diagnostics in order, each once. -/
def report (ds : List Diagnostic) : List Diagnostic :=
  withoutRepeats (ds.mergeSort fun a b => (order a b).isLE)

end Diagnostic

/-! ## Suppression -/

/-- The comment that suppresses the diagnostics of its line. -/
def suppressionMark : List Char := "// dataframe: ignore".toList

/-- Whether what stands behind the mark covers a code: nothing or a blank covers all codes,
and a list in brackets those that it names. -/
def coversCode (code : Code) (rest : List Char) : Bool :=
  match rest with
  | [] => true
  | c :: more =>
    if Text.isBlank c then true
    else if c = '[' then
      more.contains ']' && ((Text.splitAt ',' (more.takeWhile (· != ']'))).any fun piece =>
        Text.trim piece == code.name.toList)
    else false

/-- Whether the line, counted from one, suppresses a code. -/
def isSuppressed (text : List Char) (line : Nat) (code : Code) : Bool :=
  match line with
  | 0 => false
  | n + 1 =>
    match ((Text.lines text)[n]?).bind (Text.after? suppressionMark) with
    | some rest => coversCode code rest
    | none => false

end FrameCheck
