import FrameCheck.Inference.Marker

/-!
# Bindings and types of expressions

Two questions are asked of an expression: which data it stands for (`binding`), and which
type its value has (`type`). The rules for one expression ask the same questions of others,
through a `Queries` value; `Queries.ofDepth` ties the knot, with a bound on how deep one
question may lead. Bindings are remembered by expression. What cannot be told is unknown,
and nothing follows from it.

* `Queries.bindingRule`, `Queries.typeRule` : the rules for one expression.
* `Program.bindingOf`, `Program.typeOf` : the questions.
-/

namespace FrameCheck

/-- The two questions. -/
structure Queries where
  binding : Expr → Query Binding
  type : Expr → Query (Option TypeRef)

/-- The operations whose lambda gets one row of the receiver. -/
def rowLambdaOperations : List String := ["filter", "add", "update", "first", "last"]

/-- The functions that collect their arguments. -/
def collectionFunctions : List String := ["listOf", "arrayOf", "columnOf", "listOfNotNull"]

namespace TypeRef

/-- The type of a value that has one of two types, if there is one. -/
def either (a b : TypeRef) : Option TypeRef :=
  if a.nonNull = b.nonNull then some (a.withNullable (a.nullable || b.nullable))
  else a.widenNumeric b

/-- The type of elements, of which some have the type `seen` and the next has `next`. -/
def element (seen : Option TypeRef) (next : TypeRef) : Option TypeRef :=
  match seen with
  | none => some next.nonNull
  | some t => if t = next.nonNull then some t else t.widenNumeric next

end TypeRef

namespace Queries

variable (p : Program) (q : Queries)

/-! ## Types -/

/-- The type of `receiver.name` and of `receiver["name"]` where they read a column. -/
def columnType (receiver : Expr) (name : String) : Query (Option TypeRef) := do
  match ← q.binding receiver with
  | .unknown => return none
  | .known shape schema _ =>
    match schema.lookup? name, shape with
    | none, _ | _, .groupBy => return none
    | some c, .dataRow => return some c.valueType
    | some c, .dataFrame | some c, .columnGroup =>
      if c.kind = .group then return some ⟨"ColumnGroup", [c.type], false⟩
      else return some ⟨"DataColumn", [c.valueType], false⟩

/-- The type of the data that an expression stands for. -/
def dataType (e : Expr) : Query (Option TypeRef) := do
  return (← q.binding e).frameType

def arithmeticType (isAdd : Bool) (left right : Expr) : Query (Option TypeRef) := do
  match ← q.type left with
  | none => return none
  | some a =>
    if isAdd && a.simpleName == "String" then return some (TypeRef.simple "String")
    match ← q.type right with
    | none => return none
    | some b => return (a.widenNumeric b).map (·.withNullable (a.nullable || b.nullable))

/-- The left type without null, and nullable again if the right type is. -/
def elvisType (left right : Expr) : Query (Option TypeRef) := do
  match ← q.type left with
  | none => return none
  | some a =>
    let b ← q.type right
    return some (a.nonNull.withNullable (b.any TypeRef.nullable))

def binaryType (op : BinaryOp) (left right : Expr) : Query (Option TypeRef) :=
  match op with
  | .add => q.arithmeticType true left right
  | .sub | .mul | .div | .rem => q.arithmeticType false left right
  | .eq | .notEq | .less | .lessEq | .greater | .greaterEq | .and | .or =>
    return some (TypeRef.simple "Boolean")
  | .elvis => q.elvisType left right
  | .range | .named _ => return none

def ifType (thenBranch elseBranch : Expr) : Query (Option TypeRef) := do
  match ← q.type thenBranch with
  | none => return none
  | some a =>
    match ← q.type elseBranch with
    | none => return none
    | some b => return a.either b

/-- The type of the branches, of which those before had the type `seen`. -/
def branchesType (seen : Option TypeRef) : List WhenBranch → Query (Option TypeRef)
  | [] => return seen
  | b :: rest => do
    match ← q.type b.body with
    | none => return none
    | some t =>
      match seen with
      | none => branchesType (some t) rest
      | some s =>
        match s.either t with
        | none => return none
        | some joined => branchesType (some joined) rest

def blockType (b : Block) : Query (Option TypeRef) :=
  match b.tail? with
  | some e => q.type e
  | none => return none

/-- The type of a name: as declared, or that of the initializer it always has. -/
def nameType (e : Expr) : Query (Option TypeRef) :=
  match p.names.typeOf? e, p.names.declaration? e with
  | some t, _ => return some t
  | none, none => return none
  | none, some d =>
    match d.kind with
    | .lambdaParam .. => q.dataType e
    | _ =>
      match p.names.isStable d, d.init.bind p.names.expr? with
      | true, some init => q.type init
      | _, _ => return none

/-- The type of an expression that is written, or that of its data. -/
def plainType (e : Expr) : Query (Option TypeRef) :=
  match p.names.typeOf? e with
  | some t => return some t
  | none => q.dataType e

/-- The rule for the type of an expression. -/
def typeRule (e : Expr) : Query (Option TypeRef) :=
  match e.kind with
  | .binary op left right => q.binaryType op left right
  | .unary .not _ => return some (TypeRef.simple "Boolean")
  | .unary _ operand => q.type operand
  | .notNull inner => do return (← q.type inner).map TypeRef.nonNull
  | .member receiver name _ _ => do
    match ← q.columnType receiver name with
    | some t => return some t
    | none => return p.names.typeOf? e
  | .index receiver [i] =>
    match i.stringLiteral? with
    | some name => q.columnType receiver name
    | none => return none
  | .index _ _ => return none
  | .ifElse _ thenBranch (some elseBranch) => q.ifType thenBranch elseBranch
  | .whenOf _ branches =>
    if branches.any WhenBranch.isElse then q.branchesType none branches else return none
  | .block b => q.blockType b
  | .lambda _ _ b => q.blockType b
  | .name _ => q.nameType p e
  | _ => q.plainType p e

/-! ## Arguments -/

/-- The element type of arguments, of which those before have the type `seen`; a null makes
it nullable. -/
def elementsType (seen : Option TypeRef) (nullable : Bool) :
    List Argument → Query (Option TypeRef)
  | [] => return seen.map (·.withNullable nullable)
  | arg :: rest => do
    if arg.value.isNullLiteral then elementsType seen true rest
    else
      match ← q.type arg.value with
      | none => return none
      | some t =>
        match TypeRef.element seen t with
        | none => return none
        | some joined => elementsType (some joined) (nullable || t.nullable) rest

/-- The element type of a collection that is written out. -/
def elementType (e : Expr) : Query (Option TypeRef) :=
  match e.kind with
  | .call ⟨_, _, .name f⟩ typeArgs args =>
    if f ∈ collectionFunctions then
      match typeArgs with
      | t :: _ => return some t
      | [] => q.elementsType none false args
    else return none
  | _ => return none

def columnsArg : List (String × Expr) → Query (List (String × Option TypeRef))
  | [] => return []
  | (name, value) :: rest => do
    let type ← q.type value
    return (name, type) :: (← columnsArg rest)

/-- An argument that is no literal, no pair and no lambda. -/
def dataArg (e : Expr) : Query OperationArg := do
  let b ← q.binding e
  if b.shape? = some .dataFrame then return .frame b
  else return .value (← q.type e)

/-- What is known of an argument. -/
def argument (e : Expr) : Query OperationArg :=
  match e.stringLiteral?, e.intLiteral? with
  | some s, _ => return .text s
  | none, some n => return .int n
  | none, none =>
    match e.kind with
    | .binary (.named "to") left right =>
      match left.stringLiteral? with
      | some name => do return .pair name (← q.elementType right)
      | none => return .value none
    | .lambda _ _ b =>
      match b.columnFroms? with
      | some columns => do return .columns (← q.columnsArg columns)
      | none => do return .value (← q.blockType b)
    | _ => q.dataArg e

/-! ## Bindings -/

/-- The binding of a type that is written, if it is a type of data. -/
def writtenBinding (type : TypeRef) : Query Binding := do
  return (← p.bindingOfType type).getD .unknown

/-- The receiver of the call that a lambda is passed to, if the lambda gets its rows. -/
def rowReceiver? (lambda : ExprId) (index : Nat) : Option Expr := do
  let call ← (p.names.lambdaCall? lambda).bind p.names.expr?
  let callee ← p.names.callee? call
  guard (index = 0 ∧ callee.name ∈ rowLambdaOperations)
  callee.receiver.bind p.names.expr?

/-- Whether a lambda is passed to an operation on frames. -/
def passedToOperation (lambda : ExprId) : Bool :=
  match ((p.names.lambdaCall? lambda).bind p.names.expr?).bind p.names.callee? with
  | some c => (p.operations.lookupCall .dataFrame c.name c.argCount c.userDefined).isOk
  | none => false

/-- A parameter of a lambda stands for one row of the frame that the operation is called on. -/
def rowParam (lambda : ExprId) (index : Nat) : Query Binding :=
  match rowReceiver? p lambda index with
  | none => return .unknown
  | some receiver => do
    let b ← q.binding receiver
    if b.shape? = some .dataFrame ∧ passedToOperation p lambda then
      return b.withShape .dataRow
    else return .unknown

def nameBinding (e : Expr) : Query Binding :=
  match p.names.declaration? e with
  | none => return .unknown
  | some d =>
    match d.kind with
    | .lambdaParam lambda index => q.rowParam p lambda index
    | _ =>
      match p.names.isStable d, d.init.bind p.names.expr? with
      | true, some init => q.binding init
      | _, _ => return .unknown

/-- The binding that all of them share up to origin, which is that of the first. -/
def shared : List Binding → Binding
  | [] => .unknown
  | b :: rest => if rest.all b.sameStructure then b else .unknown

def ifBinding (thenBranch elseBranch : Expr) : Query Binding := do
  let a ← q.binding thenBranch
  let b ← q.binding elseBranch
  return if a.sameStructure b then a else .unknown

def whenBinding (branches : List WhenBranch) : Query Binding := do
  if branches.any WhenBranch.isElse then
    let bindings ← branches.mapM fun b => q.binding b.body
    return shared bindings
  else return .unknown

def blockBinding (b : Block) : Query Binding :=
  match b.tail? with
  | some e => q.binding e
  | none => return .unknown

def navigated (receiver : Expr) (name : String) : Query Binding := do
  return (← q.binding receiver).navigate name

/-! ### Calls -/

/-- The binding of the receiver of a call with its kind. What is unknown may still be cast,
so it counts as a frame; columns and rows have no operations. -/
def callReceiver (callee : Callee) : Query (Option (Binding × ReceiverKind)) :=
  match callee.receiver with
  | none => return some (.unknown, .topLevel)
  | some id =>
    match p.names.expr? id with
    | none => return none
    | some receiver => do
      let b ← q.binding receiver
      match ReceiverKind.of b, b.isKnown with
      | some kind, _ => return some (b, kind)
      | none, false => return some (b, .dataFrame)
      | none, true => return none

/-- The frame of the marker that a type argument names. -/
def typeArgument (type : TypeRef) : Query Binding := do
  match ← p.markerSchema type.simpleName with
  | some schema => return .known .dataFrame schema (some type.simpleName)
  | none => return .unknown

/-- Applies an operation to a call, and records where it fails. A result that changes nothing
is the receiver itself, with the name of its marker. -/
def applied (call : Expr) (rule : OperationRule) (operation : OperationCall) : Query Binding :=
  match rule.apply operation with
  | .ok b =>
    return if b.origin?.isNone && b.sameStructure operation.receiver then operation.receiver else b
  | .error e =>
    match Failure.ofError? call.span operation.receiver e with
    | none => return .unknown
    | some failure => do
      Query.recordCall call.id failure
      return .unknown

/-- The operation that a call applies, with its rule, if it is one of the catalog. -/
def callOperation (call : Expr) (args : List Argument) :
    Query (Option (OperationRule × OperationCall)) :=
  match p.names.callee? call with
  | none => return none
  | some callee => do
    match ← q.callReceiver p callee with
    | none => return none
    | some (receiver, kind) =>
      match p.operations.lookupCall kind callee.name callee.argCount callee.userDefined with
      | .error _ => return none
      | .ok rule =>
        let args ← args.mapM fun a => q.argument a.value
        let typeArgs ← callee.typeArgs.mapM (typeArgument p)
        return some (rule, ⟨receiver, args, typeArgs⟩)

def callBinding (call : Expr) (args : List Argument) : Query Binding := do
  match ← q.callOperation p call args with
  | none => return .unknown
  | some (rule, operation) => applied call rule operation

/-! ### The rule -/

/-- What an expression stands for, by its form. -/
def newBinding (e : Expr) : Query Binding :=
  match p.names.typeOf? e with
  | some type => writtenBinding p type
  | none =>
    match e.kind with
    | .name _ => q.nameBinding p e
    | .notNull inner => q.binding inner
    | .block b => q.blockBinding b
    | .ifElse _ thenBranch (some elseBranch) => q.ifBinding thenBranch elseBranch
    | .whenOf _ branches => q.whenBinding branches
    | .member receiver name _ _ => q.navigated receiver name
    | .index receiver [i] =>
      match i.stringLiteral? with
      | some name => q.navigated receiver name
      | none => return .unknown
    | .call _ _ args => q.callBinding p e args
    | _ => return .unknown

/-- The rule for the binding of an expression: what is remembered, or unknown while it is
being inferred, or else what its form says. -/
def bindingRule (e : Expr) : Query Binding := do
  let m ← Query.memo
  match m.bindings[e.id]? with
  | some b => return b
  | none =>
    if m.inProgress.contains e.id then return .unknown
    Query.openExpr e.id
    let b ← q.newBinding p e
    Query.closeExpr e.id b
    return b

/-- The questions, where each may lead on to others up to some depth. -/
def ofDepth : Nat → Queries
  | 0 => ⟨fun _ => Query.endless, fun _ => Query.endless⟩
  | depth + 1 =>
    ⟨fun e => bindingRule p (ofDepth depth) e, fun e => typeRule p (ofDepth depth) e⟩

end Queries

namespace Program

variable (p : Program)

/-- A depth that questions stay below unless they have no end: a path of questions passes
through each expression at most once between two that are being inferred. -/
def depth : Nat := 2 * (p.names.exprs.size + 2) * (p.names.exprs.size + 2)

def queries : Queries := Queries.ofDepth p p.depth

/-- The data that an expression stands for. -/
def bindingOf (e : Expr) : Query Binding := p.queries.binding e

/-- The type of the value of an expression. -/
def typeOf (e : Expr) : Query (Option TypeRef) := p.queries.type e

end Program

end FrameCheck
