import FrameCheck.Operation.Catalog
import FrameCheck.Resolution.Basic

/-!
# What inference remembers

A `Memo` holds the bindings and marker schemas found so far, the failures met on the way,
and what is being worked on: an expression or a marker that is reached again from inside of
itself is unknown there. A `Query` reads and extends a memo. It has no answer where the
initializers of a program refer to each other without end.

* `Query` : a question that is asked of a memo.
* `Memo.failures` : the failures, in the order in which they are reported.
-/

namespace FrameCheck

/-- A schema failure, to be reported at a span. -/
structure Failure where
  span : Span
  error : SchemaError
  /-- The schema that the failure is about. -/
  subject : String
deriving DecidableEq

/-- The failure of the call at a span for an error of its operation; an error for want of
knowledge is none. -/
def Failure.ofError? (span : Span) (receiver : Binding) : TransformError → Option Failure
  | .schema e => some ⟨span, e, receiver.describe⟩
  | .operand subject e => some ⟨span, e, subject⟩
  | .notApplicable => none

structure Memo where
  bindings : Std.TreeMap ExprId Binding
  /-- The expressions being inferred, the innermost first. -/
  inProgress : List ExprId
  markers : Std.TreeMap String Schema
  /-- The markers whose schemas are being built, the innermost first. -/
  openMarkers : List String
  /-- At most one for each call. -/
  callFailures : Std.TreeMap ExprId Failure
  /-- In the order in which they were met. -/
  markerFailures : List Failure

namespace Memo

def empty : Memo := ⟨∅, [], ∅, [], ∅, []⟩

/-- Conflicts of markers, and then failed calls in the order of their expressions. -/
def failures (m : Memo) : List Failure := m.markerFailures ++ m.callFailures.values

end Memo

/-- A question to a memo, which has no answer where it leads on without end. -/
def Query (α : Type) : Type := Memo → Option (α × Memo)

namespace Query

variable {α β : Type}

instance : Monad Query where
  pure a := fun m => some (a, m)
  bind q f := fun m =>
    match q m with
    | some (a, m') => f a m'
    | none => none

/-- The question without an answer. -/
def endless : Query α := fun _ => none

instance : Inhabited (Query α) := ⟨endless⟩

def memo : Query Memo := fun m => some (m, m)

def modify (f : Memo → Memo) : Query Unit := fun m => some ((), f m)

/-! ### Expressions -/

def openExpr (id : ExprId) : Query Unit :=
  modify fun m => { m with inProgress := id :: m.inProgress }

/-- Remembers the binding of an expression that was being inferred. -/
def closeExpr (id : ExprId) (b : Binding) : Query Unit :=
  modify fun m => { m with
    inProgress := m.inProgress.erase id
    bindings := m.bindings.insert id b }

/-- Records why a call failed, unless a reason is known. -/
def recordCall (call : ExprId) (failure : Failure) : Query Unit :=
  modify fun m => { m with callFailures := m.callFailures.insertIfNew call failure }

/-! ### Markers -/

def openMarker (name : String) : Query Unit :=
  modify fun m => { m with openMarkers := name :: m.openMarkers }

/-- Remembers the schema of the marker that was opened last. -/
def closeMarker (name : String) (schema : Schema) : Query Unit :=
  modify fun m => { m with
    openMarkers := m.openMarkers.tail
    markers := m.markers.insert name schema }

def recordMarker (failure : Failure) : Query Unit :=
  modify fun m => { m with markerFailures := m.markerFailures ++ [failure] }

end Query

/-- What inference works on: the names of a unit and the operations that there are. -/
structure Program where
  names : Resolution
  operations : Catalog

def Program.ofUnit (u : SourceUnit) : Program := ⟨Resolution.ofUnit u, Catalog.standard⟩

end FrameCheck
