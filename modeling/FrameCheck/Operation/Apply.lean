import FrameCheck.Operation.Basic

/-!
# What operations do to schemas

`OperationCall.schemaOf` gives the schema that a call of some kind returns, one function for
each kind whose rule takes more than a line. The first fault in the order of the arguments
is the one that is reported.

* `OperationRule.apply` : the binding that a call returns.
-/

namespace FrameCheck

namespace OperationCall

/-- A result that may fail for the receiver, for an argument, or for want of knowledge. -/
abbrev Transformed (α : Type) : Type := Except TransformError α

/-- A failure of the receiver's schema. -/
def ofSchema {α : Type} : Except SchemaError α → Transformed α
  | .ok a => .ok a
  | .error e => .error (.schema e)

/-- The value, if it is known. -/
def known {α : Type} : Option α → Transformed α
  | some a => .ok a
  | none => .error .notApplicable

/-- The texts of the arguments, all of which must be texts. -/
def textsOf : List OperationArg → Transformed (List String)
  | [] => .ok []
  | arg :: args => do
    let text ← known arg.text?
    let texts ← textsOf args
    return text :: texts

variable (call : OperationCall)

def receiverSchema : Transformed Schema := known call.receiver.schema?

def columnNames : Transformed (List String) := textsOf call.args

/-- The name in the first argument. -/
def firstName : Transformed String := known (call.args.head?.bind OperationArg.text?)

/-- The type of the second argument. -/
def secondType : Option TypeRef := (call.args[1]?).bind OperationArg.valueType?

/-- The frame column that holds the rows of each group. -/
def groupColumn : String := "group"

def withoutAll (s : Schema) (names : List String) : Schema :=
  names.foldl Schema.withoutColumn s

/-! ### One schema in, one out -/

def select : Transformed Schema := do
  let names ← call.columnNames
  let input ← call.receiverSchema
  ofSchema (input.select names)

def distinct : Transformed Schema := do
  let input ← call.receiverSchema
  if call.args.isEmpty then return input
  let names ← call.columnNames
  ofSchema (input.select names)

def remove : Transformed Schema := do
  let names ← call.columnNames
  let input ← call.receiverSchema
  ofSchema (input.requireAll names)
  return withoutAll input names

def rename : Transformed Schema :=
  match call.args with
  | [.text old, .text new] => do
    let input ← call.receiverSchema
    ofSchema (input.rename old new)
  | _ => .error .notApplicable

/-- Adds a column of a new name; a type that is not known becomes the star type. -/
def addColumn (s : Schema) (name : String) (type : Option TypeRef) : Transformed Schema :=
  if s.contains name then .error (.schema (.duplicateColumn name))
  else .ok (s.withColumn (.ofValues name (type.getD .star)))

def addColumns : Schema → List (String × Option TypeRef) → Transformed Schema
  | s, [] => .ok s
  | s, (name, type) :: more => do
    let s ← addColumn s name type
    addColumns s more

def add : Transformed Schema :=
  match call.args with
  | [.columns added] => do
    let input ← call.receiverSchema
    addColumns input added
  | _ => do
    let input ← call.receiverSchema
    let name ← call.firstName
    addColumn input name call.secondType

def update : Transformed Schema := do
  let input ← call.receiverSchema
  let name ← call.firstName
  let _ ← ofSchema (input.require name)
  match call.secondType with
  | some type => return input.withColumn (.ofValues name type)
  | none => return input

/-- Only names are checked; sorting by a selector never changes the schema. -/
def sortBy : Transformed Schema := do
  let input ← call.receiverSchema
  ofSchema (input.requireAll (call.args.filterMap OperationArg.text?))
  return input

/-- Without names, nulls are dropped from every column. -/
def dropNulls : Transformed Schema := do
  let names ← call.columnNames
  let input ← call.receiverSchema
  ofSchema (input.requireAll names)
  return input.mapColumns fun c =>
    if names.isEmpty || names.contains c.name then c.withNullable false else c

/-! ### Groups -/

def groupBy : Transformed Schema := do
  let keys ← call.columnNames
  let input ← call.receiverSchema
  let keySchema ← ofSchema (input.select keys)
  let marker := (call.receiver.origin?.map TypeRef.simple).getD .star
  let rest := Column.ofFrames groupColumn marker (some (withoutAll input keys))
  ofSchema (Schema.ofColumns (keySchema.columns ++ [rest]))

def groupCount : Transformed Schema := do
  let input ← call.receiverSchema
  addColumn (input.withoutColumn groupColumn) "count" (some (.simple "Int"))

/-! ### Two frames -/

/-- The keys of a join: those given, or the names that both frames have. -/
def joinKeys (left right : Schema) (rightBinding : Binding) : List OperationArg →
    Transformed (List String)
  | [] =>
    let common := left.names.filter right.contains
    if common.isEmpty then
      .error (.schema (.noCommonColumns call.receiver.describe rightBinding.describe))
    else .ok common
  | keys => textsOf keys

/-- Fails for the first key that one side lacks. -/
def requireKeys (left right : Schema) (subject : String) : List String → Transformed Unit
  | [] => .ok ()
  | key :: keys =>
    match left.require key, right.require key with
    | .error e, _ => .error (.schema e)
    | .ok _, .error e => .error (.operand subject e)
    | .ok _, .ok _ => requireKeys left right subject keys

/-- The columns of the left frame, the keys as the right one has them, and then the other
columns of the right frame. -/
def joined (left right : Schema) (keys : List String) : Except SchemaError Schema := do
  let rightKeys ← right.select keys
  let merged ← left.merge rightKeys .overwrite
  merged.merge (withoutAll right keys) .error

def join : Transformed Schema := do
  let left ← call.receiverSchema
  match call.args with
  | .frame rightBinding :: keyArgs => do
    let right ← known rightBinding.schema?
    let keys ← call.joinKeys left right rightBinding keyArgs
    requireKeys left right rightBinding.describe keys
    ofSchema (joined left right keys)
  | _ => .error .notApplicable

/-- Two columns that can be stacked. -/
def stackable (a b : Column) : Bool :=
  a.kind == b.kind && decide (a.type = b.type)

/-- Fails for the first column that the other frame has with another kind or type. -/
def requireStackable (right : Schema) : List Column → Except SchemaError Unit
  | [] => .ok ()
  | c :: cs =>
    match right.lookup? c.name with
    | some other =>
      if stackable c other then requireStackable right cs
      else .error (.incompatibleColumns c.name c.displayType other.displayType)
    | none => requireStackable right cs

/-- A column of values that one of the frames lacks has nulls in its rows. -/
def stackedNullable (right : Schema) (c : Column) : Bool :=
  match right.lookup? c.name with
  | some other => c.nullable || other.nullable
  | none => c.kind == .value || c.nullable

def concat : Transformed Schema := do
  let left ← call.receiverSchema
  match call.args with
  | [.frame rightBinding] => do
    let right ← known rightBinding.schema?
    ofSchema (requireStackable right left.columns)
    let widened := left.mapColumns fun c => c.withNullable (stackedNullable right c)
    let extra := right.mapColumns fun c => c.withNullable (c.nullable || c.kind == .value)
    ofSchema (widened.merge extra .keep)
  | _ => .error .notApplicable

/-! ### New frames -/

/-- The frame of the marker that is the first type argument. -/
def markerArg : Transformed Binding :=
  match call.typeArgs with
  | .known shape schema origin :: _ => .ok (.known shape schema origin)
  | _ => .error .notApplicable

def pairColumns : List OperationArg → Transformed (List Column)
  | [] => .ok []
  | .pair name type :: args => do
    let columns ← pairColumns args
    return .ofValues name (type.getD .star) :: columns
  | _ => .error .notApplicable

def dataFrameOf : Transformed Schema := do
  let columns ← pairColumns call.args
  ofSchema (Schema.ofColumns columns)

end OperationCall

namespace OperationRule

open OperationCall

/-- The binding that the call returns. Only a cast keeps the name of a marker. -/
def apply (rule : OperationRule) (call : OperationCall) : Except TransformError Binding :=
  let inferred (schema : Transformed Schema) : Transformed Binding :=
    schema.map fun s => .known rule.output s none
  match rule.kind with
  | .select => inferred call.select
  | .distinct => inferred call.distinct
  | .remove => inferred call.remove
  | .rename => inferred call.rename
  | .add => inferred call.add
  | .update => inferred call.update
  | .join => inferred call.join
  | .concat => inferred call.concat
  | .groupBy => inferred call.groupBy
  | .groupCount => inferred call.groupCount
  | .groupToDataFrame | .passthrough | .row => inferred call.receiverSchema
  | .sortBy => inferred call.sortBy
  | .dropNulls => inferred call.dropNulls
  | .cast | .emptyDataFrame => call.markerArg.map (·.withShape rule.output)
  | .dataFrameOf => inferred call.dataFrameOf

end OperationRule

end FrameCheck
