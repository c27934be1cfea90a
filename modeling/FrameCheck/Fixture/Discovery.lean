import FrameCheck.Fixture.Report
import FrameCheck.Text.Quoted

/-!
# Fixtures below a directory

The fixtures of a directory are the files at or below it with the extension `kt`, in the order
of the names that lead to them. Each has a test name, which is made of the path from the
directory to it (`testName`); a list of tests covers a directory if it names the tests of all
its fixtures and no others.

* `discover` : the fixtures of a directory.
* `verify` : the reports on them.
* `coverage` : whether a list of tests covers them.
-/

namespace FrameCheck

/-! ## Test names -/

/-- The name made of `name`, read from its end, and the characters of a component. A capital
behind a small letter or a digit (`afterSmall`) starts a new word, and characters other than
ASCII letters and digits part words. -/
def appendWords (name : List Char) (afterSmall : Bool) : List Char → List Char
  | [] => name
  | c :: cs =>
    if c.isAlphanum then
      let name := if c.isUpper && afterSmall then '_' :: name else name
      appendWords (c.toLower :: name) (c.isLower || c.isDigit) cs
    else appendWords (if name.head? = some '_' then name else '_' :: name) false cs

/-- The name of the test of the fixture at a path. -/
def testName (relative : Path) : String :=
  let parts := relative.withoutExtension.components.map fun c => c.text.toList
  String.ofList (parts.foldl (fun name cs => appendWords ('_' :: name) false cs)
    "test".toList.reverse).reverse

/-! ## Discovery -/

structure Fixture where
  name : String
  path : Path
deriving DecidableEq, Repr

/-- The fixture to which names lead from a directory, if it is one. -/
def Fixture.ofNames? (dir : Path) (names : List String) : Option Fixture :=
  let path := names.foldl Path.join dir
  if path.extension? = some "kt" then
    some ⟨testName (Path.ofText ("/".intercalate names)), path⟩
  else none

variable {m : Type → Type} [Monad m]

/-- The order of places: name by name, and a directory before what is in it. -/
def comesBefore (a b : List String) : Bool := !b.lex a fun x y => decide (x < y)

/-- The fixtures of a directory, in order. -/
def discover (files : FileAccess m) (dir : Path) : m (List Fixture) := do
  let found ← files.walk dir
  return (found.mergeSort comesBefore).filterMap (Fixture.ofNames? dir)

/-- The reports on the fixtures in files, up to the first that there is none on. -/
def runFixtureFiles (files : FileAccess m) :
    List Path → m (Except FixtureError (List FixtureReport))
  | [] => return .ok []
  | path :: rest => do
    match ← runFixtureFile files path with
    | .error e => return .error e
    | .ok report => return (← runFixtureFiles files rest).map fun later => report :: later

/-- The reports on the fixtures of a directory. -/
def verify (files : FileAccess m) (dir : Path) : m (Except FixtureError (List FixtureReport)) := do
  runFixtureFiles files ((← discover files dir).map Fixture.path)

/-! ## Coverage -/

/-- The texts in order, each once. -/
def sortedOnce (l : List String) : List String :=
  (l.mergeSort fun a b => decide (a ≤ b)).eraseDups

/-- Tests and fixtures without a partner. -/
structure CoverageError where
  missingTests : List String
  missingFixtures : List String
deriving DecidableEq, Repr

def CoverageError.message (e : CoverageError) : String :=
  s!"fixture coverage mismatch: missing tests for {Text.quotedList e.missingTests}, "
    ++ s!"missing fixtures for {Text.quotedList e.missingFixtures}"

/-- Whether the tests of that name are those of the fixtures. -/
def coverage (fixtures : List Fixture) (tests : List String) : Except CoverageError Unit :=
  let names := fixtures.map Fixture.name
  let missingTests := (sortedOnce names).filter fun n => !tests.contains n
  let missingFixtures := (sortedOnce tests).filter fun n => !names.contains n
  if missingTests.isEmpty && missingFixtures.isEmpty then .ok ()
  else .error ⟨missingTests, missingFixtures⟩

end FrameCheck
