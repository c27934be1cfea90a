import FrameCheck.Files.Basic
import FrameCheck.Project.Settings

/-!
# Projects

A project is a directory with a settings file or a build file in it. A file belongs to the
nearest project around it and is checked with the settings of that project.

* `projectRoot` : the directory of the project of a path.
* `checkFile` : the diagnostics for a file.
-/

namespace FrameCheck

def settingsFile : String := "dataframe-checker.toml"

/-- The files of which a project has at least one. -/
def projectFiles : List String := [settingsFile, "settings.gradle.kts", "build.gradle.kts"]

variable {m : Type → Type} [Monad m]

def isProjectRoot (files : FileAccess m) (dir : Path) : m Bool :=
  projectFiles.anyM fun name => return (← files.kind? (dir.join name)).isSome

/-- The first project among some directories. -/
def firstProject? (files : FileAccess m) : List Path → m (Option Path)
  | [] => return none
  | dir :: rest => do
    if ← isProjectRoot files dir then return some dir else firstProject? files rest

/-- The directory of the project of a path, and the path itself if it belongs to none. -/
def projectRoot (files : FileAccess m) (start : Path) : m Path := do
  let isFile := (← files.kind? start) == some .file
  let candidates := if isFile then start.ancestors.tail else start.ancestors
  return (← firstProject? files candidates).getD start

/-- The settings of the project in a directory. -/
def projectSettings (files : FileAccess m) (root : Path) : m Settings := do
  match ← files.readText (root.join settingsFile) with
  | .ok text => return Settings.ofText text
  | .error _ => return {}

/-- Why a file cannot be checked. -/
inductive CheckError where
  | unreadable (path : Path) (error : FileError)
  | analysis (path : Path) (error : AnalysisError)
deriving DecidableEq, Repr

def CheckError.message : CheckError → String
  | unreadable path e => s!"Failed to read {path.text}: {e.message}"
  | analysis path e => s!"Failed to check {path.text}: {e.message}"

/-- The diagnostics for a file, and none if its project does not want to be checked. -/
def checkFile (files : FileAccess m) (path : Path) : m (Except CheckError (List Diagnostic)) := do
  let settings ← projectSettings files (← projectRoot files path)
  if !settings.isEnabled then return .ok []
  match ← files.readText path with
  | .error e => return .error (.unreadable path e)
  | .ok text => return (analyze text settings.options).mapError (.analysis path)

end FrameCheck
