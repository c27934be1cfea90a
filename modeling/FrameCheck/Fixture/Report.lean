import FrameCheck.Files.Basic
import FrameCheck.Fixture.Expectation

/-!
# Reports on fixtures

A fixture is checked with the options that it asks for, and its expectations are compared with
the diagnostics. Each expectation takes the first diagnostic that meets it and that no earlier
one has taken; the fixture passes when nothing is left on either side. The report also has the
source as it would have to be: without its markers, and with a marker for each diagnostic at the
end of its span.

* `unpaired` : the expectations and diagnostics that are left.
* `rewritten` : the source with other markers.
* `runFixture` : the report on the text of a fixture.
-/

namespace FrameCheck

/-! ## Comparing -/

/-- The expectations that no diagnostic meets, and the diagnostics that none has taken. -/
def unpaired : List Expectation → List Diagnostic → List Expectation × List Diagnostic
  | [], ds => ([], ds)
  | e :: es, ds =>
    if ds.any e.isMetBy then unpaired es (ds.eraseP e.isMetBy)
    else
      let (missing, unexpected) := unpaired es ds
      (e :: missing, unexpected)

/-! ## Other markers -/

/-- The marker that expects a diagnostic, with all of its message. -/
def Diagnostic.marker (d : Diagnostic) : List Char :=
  markerOpen ++ d.code.name.toList ++ ": ".toList ++ d.message.toList ++ markerClose

/-- The text that is left from offset `pos` on when the spans are cut out, with the insertions,
which are in the order of their offsets. An insertion stands at its offset, and behind the span
if its offset is in a span that is cut out. -/
def rewrittenFrom (cuts : List Span) (insertions : List (Nat × List Char)) (pos : Nat) :
    List Char → List Char
  | [] => insertions.flatMap Prod.snd
  | c :: cs =>
    if cuts.any fun s => s.start ≤ pos && pos < s.stop then
      rewrittenFrom cuts insertions (pos + c.utf8Size) cs
    else
      (insertions.takeWhile (·.1 ≤ pos)).flatMap Prod.snd ++
        c :: rewrittenFrom cuts (insertions.dropWhile (·.1 ≤ pos)) (pos + c.utf8Size) cs

/-- Where the marker of a diagnostic goes : the end of its span, or of the text if that is before. -/
def Diagnostic.markerOffset (text : List Char) (d : Diagnostic) : Nat :=
  min d.span.stop (byteLength text)

/-- A source without its markers, and with a marker for each diagnostic. -/
def rewritten (text : List Char) (markers : List Span) (ds : List Diagnostic) : List Char :=
  rewrittenFrom markers
    ((ds.map fun d => (d.markerOffset text, d.marker)).mergeSort fun a b => a.1 ≤ b.1) 0 text

/-! ## Reports -/

structure FixtureReport where
  path : Path
  missing : List Expectation
  unexpected : List Diagnostic
  /-- The source with the markers that it would have to have. -/
  actual : String
deriving DecidableEq, Repr

namespace FixtureReport

def isSuccess (r : FixtureReport) : Bool := r.missing.isEmpty && r.unexpected.isEmpty

def display (r : FixtureReport) : String :=
  if r.isSuccess then s!"{r.path.text}: ok"
  else
    s!"{r.path.text}: diagnostics differ from expectations\n"
      ++ String.join (r.missing.map fun e => s!"  missing    {e.display}\n")
      ++ String.join (r.unexpected.map fun d => s!"  unexpected {d.display}\n")
      ++ "actual:\n" ++ r.actual

end FixtureReport

/-- Why there is no report on a fixture. -/
inductive FixtureError where
  | unreadable (path : Path) (error : FileError)
  | marker (error : MarkerError)
  | analysis (path : Path) (error : AnalysisError)
deriving DecidableEq, Repr

def FixtureError.message : FixtureError → String
  | unreadable path e => s!"failed to read fixture {path.text}: {e.message}"
  | marker e => e.message
  | analysis path e => s!"failed to analyze fixture {path.text}: {e.message}"

/-- The report on the text of a fixture. -/
def runFixture (path : Path) (text : String) : Except FixtureError FixtureReport := do
  let cs := text.toList
  let expectations ← (Expectation.ofText cs).mapError .marker
  let ds ← (analyze text (fixtureOptions cs)).mapError (.analysis path)
  let (missing, unexpected) := unpaired expectations ds
  return ⟨path, missing, unexpected,
    String.ofList (rewritten cs (expectations.map Expectation.marker) ds)⟩

/-- The report on the fixture in a file. -/
def runFixtureFile {m : Type → Type} [Monad m] (files : FileAccess m) (path : Path) :
    m (Except FixtureError FixtureReport) := do
  match ← files.readText path with
  | .error e => return .error (.unreadable path e)
  | .ok text => return runFixture path text

end FrameCheck
