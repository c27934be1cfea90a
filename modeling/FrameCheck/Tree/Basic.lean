import FrameCheck.Text.Span
import FrameCheck.TypeRef

/-!
# The tree of a source file

A source unit is a list of items: classes, functions and properties. Every expression
carries an `ExprId`, every declaration a `DeclId`; both are unique within one unit, and
expressions are compared and remembered by id. What lies outside the supported part of the
language is left out of the tree, and its spans are listed in `SourceUnit.skipped`.
-/

namespace FrameCheck

/-- The identity of an expression within its unit. -/
abbrev ExprId := Nat

/-- The identity of a declaration within its unit. -/
abbrev DeclId := Nat

inductive Literal where
  | int (value : Nat)
  | long (value : Nat)
  | float (value : Float)
  | double (value : Float)
  | string (value : String)
  | char (value : Char)
  | bool (value : Bool)
  | null

inductive BinaryOp where
  | add | sub | mul | div | rem
  | eq | notEq | less | lessEq | greater | greaterEq
  | and | or | elvis | range
  /-- A function called between its operands, such as `to`. -/
  | named (function : String)
deriving DecidableEq, Repr

inductive UnaryOp where
  | not | neg | plus
deriving DecidableEq, Repr

structure LambdaParam where
  decl : DeclId
  name : String
  type : Option TypeRef

mutual

structure Expr where
  id : ExprId
  span : Span
  kind : ExprKind

inductive ExprKind where
  | literal (value : Literal)
  | name (name : String)
  | this
  | member (receiver : Expr) (name : String) (nameSpan : Span) (safe : Bool)
  /-- A trailing lambda is the last argument. -/
  | call (callee : Expr) (typeArgs : List TypeRef) (args : List Argument)
  | index (receiver : Expr) (indices : List Expr)
  | binary (op : BinaryOp) (left right : Expr)
  | unary (op : UnaryOp) (operand : Expr)
  | notNull (inner : Expr)
  | cast (operand : Expr) (type : TypeRef) (safe : Bool)
  | ifElse (condition thenBranch : Expr) (elseBranch : Option Expr)
  | whenOf (subject : Option Expr) (branches : List WhenBranch)
  /-- The embedded expressions of a string with templates. -/
  | template (parts : List Expr)
  | block (body : Block)
  /-- Without parameters the lambda declares an `it`, by `implicitIt`. -/
  | lambda (params : List LambdaParam) (implicitIt : DeclId) (body : Block)

structure Argument where
  name : Option String
  value : Expr

/-- One arm of a `when`; an `else` arm has no conditions. -/
structure WhenBranch where
  conditions : List Expr
  isElse : Bool
  body : Expr

structure Block where
  stmts : List Stmt
  span : Span

inductive Stmt where
  | val (decl : ValDecl)
  | function (decl : FunDecl)
  | expr (value : Expr)
  | assign (target value : Expr) (span : Span)
  | ret (value : Option Expr) (span : Span)

inductive Body where
  | absent
  | expr (value : Expr)
  | block (body : Block)

structure Param where
  decl : DeclId
  name : String
  type : Option TypeRef
  default : Option Expr
  span : Span

structure FunDecl where
  decl : DeclId
  name : String
  receiver : Option TypeRef
  params : List Param
  returnType : Option TypeRef
  body : Body
  /-- The getter of an extension property. -/
  isProperty : Bool
  span : Span

structure ValDecl where
  decl : DeclId
  mutable : Bool
  /-- The receiver type of an extension property. -/
  receiver : Option TypeRef
  name : String
  nameSpan : Span
  type : Option TypeRef
  init : Option Expr
  getter : Body
  span : Span

end

structure AnnotationEntry where
  name : String
  args : List Expr
  span : Span

/-- A property of a class, declared in its body or its primary constructor. -/
structure PropertyDecl where
  decl : DeclId
  annotations : List AnnotationEntry
  mutable : Bool
  name : String
  nameSpan : Span
  type : Option TypeRef
  /-- The initializer, or the default of a constructor property. -/
  init : Option Expr
  getter : Body
  inConstructor : Bool
  span : Span

structure ClassDecl where
  annotations : List AnnotationEntry
  isInterface : Bool
  name : String
  nameSpan : Span
  supertypes : List TypeRef
  /-- The constructor parameters that are no properties. -/
  params : List Param
  properties : List PropertyDecl
  methods : List FunDecl
  span : Span

inductive Item where
  | classDecl (decl : ClassDecl)
  | function (decl : FunDecl)
  | property (decl : ValDecl)

structure SourceUnit where
  items : List Item
  /-- What the parser left out. -/
  skipped : List Span

end FrameCheck
