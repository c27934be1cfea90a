import FrameCheck.Tree.Children

/-!
# What a unit says about its names

Walking a unit in source order gives a list of facts: which expressions there are, what is
declared, which declaration a name refers to, which type the context expects. A name refers
to the newest declaration of its scope. A scope is passed down and never changed in place;
a `val` extends it for the statements behind, and its own initializer still sees the scope
before. Functions have a namespace of their own, so the name that a call starts with refers
to no declaration.

* `Scope` : the declarations in sight, and the type of `this`.
* `SourceUnit.facts` : all facts, those that hold for the whole unit first.
-/

namespace FrameCheck

inductive DeclarationKind where
  | localVal
  | param
  /-- Parameter `index` of a lambda; the implicit `it` is the first. -/
  | lambdaParam (lambda : ExprId) (index : Nat)
  | classMember
  | topLevel
deriving DecidableEq, Repr

structure Declaration where
  id : DeclId
  name : String
  /-- The type as written. -/
  type : Option TypeRef
  init : Option ExprId
  mutable : Bool
  kind : DeclarationKind

/-- What the walk meets. -/
inductive Fact where
  | expr (e : Expr)
  | declares (d : Declaration)
  | refers (name : ExprId) (decl : DeclId)
  | assigns (decl : DeclId)
  /-- The context expects a type of an expression. -/
  | expects (e : ExprId) (type : TypeRef)
  /-- The type of an expression `this`. -/
  | thisType (e : ExprId) (type : TypeRef)
  | function (f : FunDecl)
  /-- A lambda is an argument of a call. -/
  | passed (lambda call : ExprId)

/-- What is in sight at a place. -/
structure Scope where
  /-- The declared names, the newest first. -/
  names : List (String × DeclId)
  thisType : Option TypeRef

namespace Scope

def empty : Scope := ⟨[], none⟩

def lookup? (sc : Scope) (name : String) : Option DeclId := sc.names.lookup name

def declare (sc : Scope) (name : String) (decl : DeclId) : Scope :=
  { sc with names := (name, decl) :: sc.names }

def declareParams (sc : Scope) (params : List Param) : Scope :=
  params.foldl (fun sc p => sc.declare p.name p.decl) sc

def declareLambdaParams (sc : Scope) (params : List LambdaParam) : Scope :=
  params.foldl (fun sc p => sc.declare p.name p.decl) sc

/-- The parameters of a lambda, or its `it` if it has none. -/
def ofLambda (sc : Scope) (params : List LambdaParam) (implicitIt : DeclId) : Scope :=
  if params.isEmpty then sc.declare "it" implicitIt else sc.declareLambdaParams params

def withThis (sc : Scope) (type : Option TypeRef) : Scope := { sc with thisType := type }

/-- The scope of the statements behind a statement. -/
def afterStmt (sc : Scope) : Stmt → Scope
  | .val v => sc.declare v.name v.decl
  | _ => sc

end Scope

/-! ## Declarations -/

def Param.declaration (p : Param) : Declaration := ⟨p.decl, p.name, p.type, none, false, .param⟩

def ValDecl.declaration (v : ValDecl) (kind : DeclarationKind) : Declaration :=
  ⟨v.decl, v.name, v.type, v.init.map Expr.id, v.mutable, kind⟩

/-- The default of a constructor property is not its initializer: a caller may give another
value. -/
def PropertyDecl.declaration (p : PropertyDecl) : Declaration :=
  ⟨p.decl, p.name, p.type, if p.inConstructor then none else p.init.map Expr.id, p.mutable,
    .classMember⟩

/-- The declarations of the parameters of a lambda from `index` on. -/
def LambdaParam.declarations (lambda : ExprId) : Nat → List LambdaParam → List Declaration
  | _, [] => []
  | index, p :: rest =>
    ⟨p.decl, p.name, p.type, none, false, .lambdaParam lambda index⟩ ::
      LambdaParam.declarations lambda (index + 1) rest

/-- What a lambda declares: its parameters, or an `it`. -/
def LambdaParam.allDeclarations (lambda : ExprId) (params : List LambdaParam)
    (implicitIt : DeclId) : List Declaration :=
  if params.isEmpty then [⟨implicitIt, "it", none, none, false, .lambdaParam lambda 0⟩]
  else LambdaParam.declarations lambda 0 params

/-! ## The walk -/

/-- The type that the context expects of an expression, if there is one. -/
def expectedFacts (type : Option TypeRef) (e : ExprId) : List Fact :=
  (type.map (Fact.expects e)).toList

/-- A lambda belongs to the call it is an argument of, and so do the lambdas that give the
columns of an `add` block. -/
def passedFacts (call : ExprId) (e : Expr) : List Fact :=
  match e.kind with
  | .lambda _ _ body =>
    let columns := (body.columnFroms?.getD []).filter fun c => c.2.isLambda
    .passed e.id call :: columns.map fun c => .passed c.2.id call
  | _ => []

/-- An assignment to a name changes what the name refers to. -/
def assignedFacts (sc : Scope) (target : Expr) : List Fact :=
  match target.kind with
  | .name n => ((sc.lookup? n).map Fact.assigns).toList
  | _ => []

mutual

def Expr.facts (sc : Scope) : Expr → List Fact
  | ⟨id, span, kind⟩ => .expr ⟨id, span, kind⟩ :: kind.facts sc id

def ExprKind.facts (sc : Scope) (id : ExprId) : ExprKind → List Fact
  | .literal _ => []
  | .name n => ((sc.lookup? n).map (Fact.refers id)).toList
  | .this => (sc.thisType.map (Fact.thisType id)).toList
  | .member receiver _ _ _ => receiver.facts sc
  | .call callee _ args =>
    (if callee.isName then [.expr callee] else callee.facts sc) ++ Argument.facts sc id args
  | .index receiver indices => receiver.facts sc ++ Expr.factsOf sc indices
  | .binary _ left right => left.facts sc ++ right.facts sc
  | .unary _ operand => operand.facts sc
  | .notNull inner => inner.facts sc
  | .cast operand _ _ => operand.facts sc
  | .ifElse condition thenBranch elseBranch =>
    condition.facts sc ++ thenBranch.facts sc ++ Expr.factsOf? sc elseBranch
  | .whenOf subject branches => Expr.factsOf? sc subject ++ WhenBranch.facts sc branches
  | .template parts => Expr.factsOf sc parts
  | .block body => body.facts sc
  | .lambda params implicitIt body =>
    (LambdaParam.allDeclarations id params implicitIt).map .declares
      ++ body.facts (sc.ofLambda params implicitIt)

def Expr.factsOf (sc : Scope) : List Expr → List Fact
  | [] => []
  | e :: rest => e.facts sc ++ Expr.factsOf sc rest

def Expr.factsOf? (sc : Scope) : Option Expr → List Fact
  | none => []
  | some e => e.facts sc

/-- The facts of the arguments of a call. -/
def Argument.facts (sc : Scope) (call : ExprId) : List Argument → List Fact
  | [] => []
  | ⟨_, e⟩ :: rest => passedFacts call e ++ e.facts sc ++ Argument.facts sc call rest

def WhenBranch.facts (sc : Scope) : List WhenBranch → List Fact
  | [] => []
  | ⟨conditions, _, body⟩ :: rest =>
    Expr.factsOf sc conditions ++ body.facts sc ++ WhenBranch.facts sc rest

def Block.facts (sc : Scope) : Block → List Fact
  | ⟨stmts, _⟩ => Stmt.facts sc stmts

/-- The facts of statements, each in the scope that those before it leave. -/
def Stmt.facts (sc : Scope) : List Stmt → List Fact
  | [] => []
  | s :: rest => Stmt.factsOne sc s ++ Stmt.facts (sc.afterStmt s) rest

def Stmt.factsOne (sc : Scope) : Stmt → List Fact
  | .val v => v.facts sc ++ [.declares (v.declaration .localVal)]
  | .function f => .function f :: f.facts sc f.receiver
  | .expr e => e.facts sc
  | .assign target value _ => target.facts sc ++ value.facts sc ++ assignedFacts sc target
  | .ret value _ => Expr.factsOf? sc value

/-- The facts of an expression of which the context expects a type. -/
def Expr.factsTyped (sc : Scope) (type : Option TypeRef) : Option Expr → List Fact
  | none => []
  | some e => expectedFacts type e.id ++ e.facts sc

def Body.facts (sc : Scope) (type : Option TypeRef) : Body → List Fact
  | .absent => []
  | .expr e => expectedFacts type e.id ++ e.facts sc
  | .block b => b.facts sc

/-- The initializer and the getter; the declaration itself is left to the caller. -/
def ValDecl.facts (sc : Scope) : ValDecl → List Fact
  | ⟨_, _, _, _, _, type, init, getter, _⟩ =>
    Expr.factsTyped sc type init ++ getter.facts sc type

/-- The facts of parameters; a default sees the parameters before it. -/
def Param.facts (sc : Scope) : List Param → List Fact
  | [] => []
  | ⟨decl, name, type, default, span⟩ :: rest =>
    Expr.factsTyped sc type default
      ++ .declares (Param.declaration ⟨decl, name, type, default, span⟩)
      :: Param.facts (sc.declare name decl) rest

/-- The facts of a function in which `this` has the given type. -/
def FunDecl.facts (sc : Scope) (thisType : Option TypeRef) : FunDecl → List Fact
  | ⟨_, _, _, params, returnType, body, _, _⟩ =>
    let inner := sc.withThis thisType
    Param.facts inner params ++ body.facts (inner.declareParams params) returnType

end

/-! ## Units -/

namespace ClassDecl

/-- The type of `this` in a class. -/
def thisType (c : ClassDecl) : TypeRef := TypeRef.simple c.name

/-- The scope of a class body: its properties, in all of its members. -/
def scope (c : ClassDecl) (sc : Scope) : Scope :=
  c.properties.foldl (fun sc p => sc.declare p.name p.decl) (sc.withThis c.thisType)

/-- Plain constructor parameters are in sight of initializers and getters, and of no method. -/
def facts (c : ClassDecl) (sc : Scope) : List Fact :=
  let members := c.scope sc
  let inner := members.declareParams c.params
  c.properties.map (fun p => .declares p.declaration)
    ++ Param.facts members c.params
    ++ c.properties.flatMap (fun p =>
      Expr.factsTyped inner p.type p.init ++ p.getter.facts inner p.type)
    ++ c.methods.flatMap (fun m => m.facts members (m.receiver.or c.thisType))

end ClassDecl

namespace Item

/-- What holds in the whole unit: its functions and its top-level properties. -/
def globalFacts : Item → List Fact
  | classDecl c => (c.methods.filter FunDecl.isProperty).map .function
  | function f => [.function f]
  | property v => [.declares (v.declaration .topLevel)]

def facts (sc : Scope) : Item → List Fact
  | classDecl c => c.facts sc
  | function f => f.facts sc f.receiver
  | property v => v.facts sc

end Item

namespace SourceUnit

/-- The scope of the top level. -/
def scope (u : SourceUnit) : Scope :=
  u.items.foldl (fun sc i =>
    match i with
    | .property v => sc.declare v.name v.decl
    | _ => sc) Scope.empty

def facts (u : SourceUnit) : List Fact :=
  u.items.flatMap Item.globalFacts ++ u.items.flatMap (Item.facts u.scope)

/-- The classes that declare schemas. -/
def markers (u : SourceUnit) : List ClassDecl :=
  (u.items.filterMap fun i =>
    match i with
    | .classDecl c => some c
    | _ => none).filter ClassDecl.isMarker

end SourceUnit

end FrameCheck
