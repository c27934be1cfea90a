import FrameCheck.Tree.Basic

/-!
# Parts of trees

`Expr.children` lists the expressions directly inside of an expression, in source order; the
expressions of the statements of a block count as inside of the block, those of a local
function included. Blocks have two readings beside that of a list of statements: their value
is their last expression, and a block of nothing but `"name" from value` statements lists
columns.
-/

namespace FrameCheck

/-- The default values of parameters. -/
def Param.defaults (params : List Param) : List Expr :=
  params.filterMap Param.default

mutual

/-- The expressions directly in the statements of a block. -/
def Block.exprs : Block → List Expr
  | ⟨stmts, _⟩ => Stmt.exprsOf stmts

def Stmt.exprsOf : List Stmt → List Expr
  | [] => []
  | s :: rest => s.exprs ++ Stmt.exprsOf rest

def Stmt.exprs : Stmt → List Expr
  | .val v => v.exprs
  | .function f => f.exprs
  | .expr e => [e]
  | .assign target value _ => [target, value]
  | .ret value _ => value.toList

def ValDecl.exprs : ValDecl → List Expr
  | ⟨_, _, _, _, _, _, init, getter, _⟩ => init.toList ++ getter.exprs

def FunDecl.exprs : FunDecl → List Expr
  | ⟨_, _, _, params, _, body, _, _⟩ => Param.defaults params ++ body.exprs

def Body.exprs : Body → List Expr
  | .absent => []
  | .expr e => [e]
  | .block b => b.exprs

end

namespace WhenBranch

def exprs (b : WhenBranch) : List Expr := b.conditions ++ [b.body]

end WhenBranch

namespace Expr

/-- The expressions directly inside, in source order. -/
def children (e : Expr) : List Expr :=
  match e.kind with
  | .literal _ | .name _ | .this => []
  | .member receiver _ _ _ => [receiver]
  | .call callee _ args => callee :: args.map Argument.value
  | .index receiver indices => receiver :: indices
  | .binary _ left right => [left, right]
  | .unary _ operand => [operand]
  | .notNull inner => [inner]
  | .cast operand _ _ => [operand]
  | .ifElse condition thenBranch elseBranch => condition :: thenBranch :: elseBranch.toList
  | .whenOf subject branches => subject.toList ++ branches.flatMap WhenBranch.exprs
  | .template parts => parts
  | .block body => body.exprs
  | .lambda _ _ body => body.exprs

/-- The value of a string literal without templates. -/
def stringLiteral? (e : Expr) : Option String :=
  match e.kind with
  | .literal (.string s) => some s
  | _ => none

/-- The value of an integer literal. -/
def intLiteral? (e : Expr) : Option Nat :=
  match e.kind with
  | .literal (.int n) | .literal (.long n) => some n
  | _ => none

def isNullLiteral (e : Expr) : Bool :=
  match e.kind with
  | .literal .null => true
  | _ => false

def isName (e : Expr) : Bool :=
  match e.kind with
  | .name _ => true
  | _ => false

def isLambda (e : Expr) : Bool :=
  match e.kind with
  | .lambda .. => true
  | _ => false

/-- The column that `"name" from value` stands for. -/
def columnFrom? (e : Expr) : Option (String × Expr) :=
  match e.kind with
  | .binary (.named "from") left right => left.stringLiteral?.map (·, right)
  | _ => none

end Expr

def Literal.type : Literal → TypeRef
  | int _ => TypeRef.simple "Int"
  | long _ => TypeRef.simple "Long"
  | float _ => TypeRef.simple "Float"
  | double _ => TypeRef.simple "Double"
  | string _ => TypeRef.simple "String"
  | char _ => TypeRef.simple "Char"
  | bool _ => TypeRef.simple "Boolean"
  | null => (TypeRef.simple "Nothing").withNullable true

/-- The expression that a statement consists of. -/
def Stmt.expr? : Stmt → Option Expr
  | .expr e => some e
  | _ => none

namespace Block

/-- The expression that is the value of the block. -/
def tail? (b : Block) : Option Expr := b.stmts.getLast?.bind Stmt.expr?

/-- The columns of a block that holds nothing but `"name" from value` statements. -/
def columnFroms? (b : Block) : Option (List (String × Expr)) :=
  if b.stmts.isEmpty then none
  else b.stmts.mapM fun s => s.expr?.bind Expr.columnFrom?

end Block

namespace AnnotationEntry

/-- The first argument, if it is a string. -/
def stringArg? (a : AnnotationEntry) : Option String := a.args.head?.bind Expr.stringLiteral?

def find? (annotations : List AnnotationEntry) (name : String) : Option AnnotationEntry :=
  annotations.find? fun a => a.name == name

end AnnotationEntry

/-- A property with a getter is computed and holds no column. -/
def PropertyDecl.isStored (p : PropertyDecl) : Bool :=
  match p.getter with
  | .absent => true
  | _ => false

/-- The annotation of the classes that declare schemas. -/
def markerAnnotationName : String := "DataSchema"

/-- The annotation that gives a property another column name. -/
def columnNameAnnotationName : String := "ColumnName"

def ClassDecl.isMarker (c : ClassDecl) : Bool :=
  (AnnotationEntry.find? c.annotations markerAnnotationName).isSome

/-- The column name of a property of a marker. -/
def PropertyDecl.columnName (p : PropertyDecl) : String :=
  let entry := AnnotationEntry.find? p.annotations columnNameAnnotationName
  (entry.bind AnnotationEntry.stringArg?).getD p.name

end FrameCheck
