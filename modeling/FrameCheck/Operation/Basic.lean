import FrameCheck.Binding

/-!
# Operations on frames

An operation is recognized by its receiver, its name and its number of arguments, and has
one of a closed set of kinds; the kind says what becomes of the schema. Arguments are given
as far as they are known without running the program.
-/

namespace FrameCheck

/-- What an operation is called on. -/
inductive ReceiverKind where
  | dataFrame
  | groupBy
  /-- A call without a receiver. -/
  | topLevel
deriving DecidableEq, Repr

/-- The receiver kind of a binding; columns and rows have no operations. -/
def ReceiverKind.of (b : Binding) : Option ReceiverKind :=
  match b.shape? with
  | some .dataFrame => some .dataFrame
  | some .groupBy => some .groupBy
  | _ => none

/-- The numbers of arguments that an operation takes; a trailing lambda counts. -/
inductive Arity where
  | exact (count : Nat)
  | atLeast (least : Nat)
  | range (least most : Nat)
deriving DecidableEq, Repr

def Arity.accepts : Arity → Nat → Bool
  | exact n, count => count == n
  | atLeast n, count => n ≤ count
  | range least most, count => least ≤ count && count ≤ most

/-- What an operation does to the schema. -/
inductive OperationKind where
  | select | distinct | remove | rename | add | update | join | concat
  | groupBy | groupCount | groupToDataFrame | sortBy | dropNulls
  /-- The schema stays as it is. -/
  | passthrough
  /-- One row of the receiver. -/
  | row
  | cast | emptyDataFrame | dataFrameOf
deriving DecidableEq, Repr

structure OperationRule where
  receiver : ReceiverKind
  name : String
  arity : Arity
  kind : OperationKind
  output : Shape
deriving DecidableEq, Repr

/-- An argument, as far as it is known. -/
inductive OperationArg where
  | text (value : String)
  | int (value : Int)
  /-- A column name with the type of its values. -/
  | pair (name : String) (type : Option TypeRef)
  | frame (binding : Binding)
  /-- The new columns of an `add` block with the types of their values. -/
  | columns (added : List (String × Option TypeRef))
  /-- Any other value; a lambda has the type of its result. -/
  | value (type : Option TypeRef)

namespace OperationArg

def text? : OperationArg → Option String
  | text s => some s
  | _ => none

def valueType? : OperationArg → Option TypeRef
  | text _ => some (TypeRef.simple "String")
  | int _ => some (TypeRef.simple "Int")
  | value type => type
  | _ => none

end OperationArg

/-- A call of an operation; the receiver of a call without one is unknown. -/
structure OperationCall where
  receiver : Binding
  args : List OperationArg
  /-- The frames of the markers that are the type arguments. -/
  typeArgs : List Binding

/-- Why an operation gives no schema. -/
inductive TransformError where
  | schema (error : SchemaError)
  /-- A failure of an argument frame, which `subject` names, and not of the receiver. -/
  | operand (subject : String) (error : SchemaError)
  /-- Too little is known of the arguments to tell. -/
  | notApplicable
deriving DecidableEq, Repr

def TransformError.message : TransformError → String
  | schema e => e.message
  | operand subject e => s!"{subject}: {e.message}"
  | notApplicable => "arguments are not statically known"

end FrameCheck
