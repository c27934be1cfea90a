import FrameCheck.Checker.Basic
import FrameCheck.Toml.Document

/-!
# Settings of a project

The settings of a project stand in the table `checker` of its settings file. What the file does
not set is left to the defaults, and so is everything when the file is not a document or a
setting in it has the wrong type. Other tables and keys are not looked at. In place of the table
there may be a list of all settings in their order.
-/

namespace FrameCheck

structure Settings where
  enabled : Option Bool := none
  warnings : Option Bool := none
  maxSuggestionDistance : Option Nat := none
  reportUntracked : Option Bool := none
deriving DecidableEq, Repr

namespace Settings

def isEnabled (s : Settings) : Bool := s.enabled.getD true

/-- The options of the checker, with the defaults where nothing is set. -/
def options (s : Settings) : CheckerOptions :=
  let standard : CheckerOptions := {}
  ⟨s.warnings.getD standard.warnings,
    s.maxSuggestionDistance.getD standard.maxSuggestionDistance,
    s.reportUntracked.getD standard.reportUntracked⟩

/-- A truth value as a setting. -/
def flag? : Toml.Item → Option Bool
  | .boolean b => some b
  | _ => none

/-- A natural number as a setting. -/
def count? : Toml.Item → Option Nat
  | .integer (.ofNat n) => some n
  | _ => none

/-- A setting of a table, which may be missing but must not have the wrong type. -/
def entry? {α : Type} (read? : Toml.Item → Option α) (es : Toml.Entries) (key : String) :
    Option (Option α) :=
  match es.lookup key with
  | none => some none
  | some item => (read? item).map some

def ofItem? : Toml.Item → Option Settings
  | .table _ es => do
    return ⟨← entry? flag? es "enabled", ← entry? flag? es "warnings",
      ← entry? count? es "max_suggestion_distance", ← entry? flag? es "report_untracked"⟩
  | .list (enabled :: warnings :: distance :: untracked :: _) => do
    return ⟨some (← flag? enabled), some (← flag? warnings), some (← count? distance),
      some (← flag? untracked)⟩
  | _ => none

/-- The settings in the text of a settings file. -/
def ofText (text : String) : Settings :=
  (((Toml.document? text).bind (·.lookup "checker")).bind ofItem?).getD {}

end Settings

end FrameCheck
