import FrameCheck.CommandLine.Arguments
import FrameCheck.CommandLine.Json
import FrameCheck.Fixture.Discovery
import FrameCheck.Project.Basic

/-!
# Running a command

What the program writes and with which code it ends. The code is 0 if there is nothing to
complain of, 1 if there is an error among the diagnostics, a fixture that fails or a file that
cannot be checked, and 2 if the arguments are wrong. Diagnostics are written as text file by
file, so those of the files before one that cannot be checked are written too; as JSON they are
written all together or not at all.
-/

namespace FrameCheck

structure RunResult where
  output : String := ""
  /-- What is written to standard error. -/
  errors : Option String := none
  code : UInt8 := 0
deriving DecidableEq, Repr

/-- What is written about an error that ends a run. -/
def errorText (message : String) : String := s!"error: {message}\n"

/-! ## Checking files -/

/-- A diagnostic as JSON, with the keys in order. -/
def Diagnostic.json (d : Diagnostic) : Json :=
  .record [("code", .text d.code.name), ("column", .number d.start.column),
    ("end_column", .number d.stop.column), ("end_line", .number d.stop.line),
    ("line", .number d.start.line), ("message", .text d.message),
    ("severity", .text d.severity.name)]

/-- What was found in one file. -/
structure Checked where
  file : Path
  diagnostics : List Diagnostic

namespace Checked

def isClean (c : Checked) : Bool := !c.diagnostics.any fun d => d.severity == .error

def text (c : Checked) : String :=
  String.join (c.diagnostics.map fun d => s!"{c.file.text}:{d.display}\n")

def json (c : Checked) : Json :=
  .record [("diagnostics", .list (c.diagnostics.map Diagnostic.json)), ("file", .text c.file.text)]

end Checked

variable {m : Type → Type} [Monad m]

/-- What was found in files, up to the first that cannot be checked. -/
def checkFiles (files : FileAccess m) : List Path → m (List Checked × Option CheckError)
  | [] => return ([], none)
  | path :: rest => do
    match ← checkFile files path with
    | .error e => return ([], some e)
    | .ok ds =>
      let (later, error) ← checkFiles files rest
      return (⟨path, ds⟩ :: later, error)

/-- The result of checking files. -/
def checkResult (format : ReportFormat) (checked : List Checked) (error : Option CheckError) :
    RunResult :=
  let output := match format, error with
    | .text, _ => String.join (checked.map Checked.text)
    | .json, none => (Json.list (checked.map Checked.json)).render 0 ++ "\n"
    | .json, some _ => ""
  ⟨output, error.map fun e => errorText e.message,
    if error.isNone && checked.all Checked.isClean then 0 else 1⟩

/-! ## Verifying fixtures -/

/-- The message of an error and of its cause. -/
def FixtureError.chain : FixtureError → String
  | unreadable path e => s!"{(FixtureError.unreadable path e).message}: {e.message}"
  | e => e.message

/-- The result of verifying the fixtures of a directory. -/
def verifyResult (dir : Path) : Except FixtureError (List FixtureReport) → RunResult
  | .error e =>
    { errors := some (errorText s!"Failed to verify fixtures in {dir.text}: {e.chain}"), code := 1 }
  | .ok reports =>
    let failed := (reports.filter fun r => !r.isSuccess).length
    { output := String.join (reports.map fun r => r.display ++ "\n")
        ++ s!"{reports.length} fixtures, {failed} failed\n"
      code := if failed = 0 then 0 else 1 }

/-! ## Commands -/

def programName : String := "dataframe_schema_checker"

def versionText : String := programName ++ " 0.1.0\n"

def usageText : String :=
  s!"Usage: {programName} check <FILE>... [--format text|json]\n"
    ++ s!"       {programName} verify <DIR>\n"

def Command.run (files : FileAccess m) : Command → m RunResult
  | .version => return { output := versionText }
  | .help => return { output := usageText }
  | .check paths format => do
    let (checked, error) ← checkFiles files paths
    return checkResult format checked error
  | .verify dir => return verifyResult dir (← FrameCheck.verify files dir)

/-- The result of a run with some arguments. -/
def runArguments (files : FileAccess m) (arguments : List String) : m RunResult :=
  match Command.ofArguments? arguments with
  | some command => command.run files
  | none => return { errors := some usageText, code := 2 }

end FrameCheck
