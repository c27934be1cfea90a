import FrameCheck.Resolution.Facts
import Std.Data.TreeMap

/-!
# Resolving names and types

A `Resolution` answers questions about one unit: what an expression refers to, which type it
is written or declared to have, what a call calls. It is built from the facts of the unit.
Of several functions or markers of one name the first counts.

* `Resolution.typeOf?` : the type of an expression, as far as the text says it.
* `Resolution.callee?` : what a call calls.
-/

namespace FrameCheck

/-- What a call calls. -/
structure Callee where
  name : String
  /-- The receiver, in a call of a member. -/
  receiver : Option ExprId
  /-- The arguments, a trailing lambda included. -/
  argCount : Nat
  typeArgs : List TypeRef
  /-- The function is declared in the unit. -/
  userDefined : Bool

structure Resolution where
  exprs : Std.TreeMap ExprId Expr
  declarations : Std.TreeMap DeclId Declaration
  references : Std.TreeMap ExprId DeclId
  assigned : Std.TreeMap DeclId Unit
  expected : Std.TreeMap ExprId TypeRef
  thisTypes : Std.TreeMap ExprId TypeRef
  functions : Std.TreeMap String FunDecl
  extensionProperties : Std.TreeMap String FunDecl
  lambdaCalls : Std.TreeMap ExprId ExprId
  markers : Std.TreeMap String ClassDecl

namespace Resolution

def empty : Resolution := ⟨∅, ∅, ∅, ∅, ∅, ∅, ∅, ∅, ∅, ∅⟩

def add (r : Resolution) : Fact → Resolution
  | .expr e => { r with exprs := r.exprs.insert e.id e }
  | .declares d => { r with declarations := r.declarations.insert d.id d }
  | .refers name decl => { r with references := r.references.insert name decl }
  | .assigns decl => { r with assigned := r.assigned.insert decl () }
  | .expects e type => { r with expected := r.expected.insert e type }
  | .thisType e type => { r with thisTypes := r.thisTypes.insert e type }
  | .function f =>
    if f.isProperty then
      { r with extensionProperties := r.extensionProperties.insertIfNew f.name f }
    else { r with functions := r.functions.insertIfNew f.name f }
  | .passed lambda call => { r with lambdaCalls := r.lambdaCalls.insert lambda call }

def addMarker (r : Resolution) (c : ClassDecl) : Resolution :=
  { r with markers := r.markers.insertIfNew c.name c }

def ofUnit (u : SourceUnit) : Resolution :=
  u.markers.foldl addMarker (u.facts.foldl add empty)

variable (r : Resolution)

def expr? (id : ExprId) : Option Expr := r.exprs[id]?

/-- What a name refers to. -/
def declaration? (e : Expr) : Option Declaration :=
  (r.references[e.id]?).bind fun d => r.declarations[d]?

/-- Whether a declaration keeps the value of its initializer. -/
def isStable (d : Declaration) : Bool := !r.assigned.contains d.id

/-- The type that the context expects of an expression. -/
def expected? (e : Expr) : Option TypeRef := r.expected[e.id]?

def marker? (name : String) : Option ClassDecl := r.markers[name]?

def extensionProperty? (name : String) : Option FunDecl := r.extensionProperties[name]?

/-- The call that a lambda is passed to. -/
def lambdaCall? (lambda : ExprId) : Option ExprId := r.lambdaCalls[lambda]?

/-- The function that a call by name calls, if it is one of the unit; it has no receiver. -/
def plainFunction? (name : String) : Option FunDecl :=
  (r.functions[name]?).filter fun f => f.receiver.isNone

/-- The function that a call of a member calls, if it is one of the unit. -/
def extensionFunction? (name : String) : Option FunDecl :=
  (r.functions[name]?).filter fun f => f.receiver.isSome

def callee? (e : Expr) : Option Callee :=
  match e.kind with
  | .call callee typeArgs args =>
    match callee.kind with
    | .name n => some ⟨n, none, args.length, typeArgs, r.functions.contains n⟩
    | .member receiver n _ _ =>
      some ⟨n, some receiver.id, args.length, typeArgs, (r.extensionFunction? n).isSome⟩
    | _ => none
  | _ => none

/-- The type of an expression, as far as it is written. -/
def typeOf? (e : Expr) : Option TypeRef :=
  match e.kind with
  | .literal value => some value.type
  | .template _ => some (TypeRef.simple "String")
  | .name _ => (r.declaration? e).bind Declaration.type
  | .member _ n _ _ => (r.extensionProperty? n).bind FunDecl.returnType
  | .this => r.thisTypes[e.id]?
  | .cast _ type safe => some (type.withNullable (type.nullable || safe))
  | .call callee _ _ =>
    match callee.kind with
    | .name n => (r.plainFunction? n).bind FunDecl.returnType
    | .member _ n _ _ => (r.extensionFunction? n).bind FunDecl.returnType
    | _ => none
  | _ => none

end Resolution

end FrameCheck
