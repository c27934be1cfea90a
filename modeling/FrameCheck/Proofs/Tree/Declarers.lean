import FrameCheck.Proofs.Tree.Nodes
import FrameCheck.Resolution.Facts

/-!
# What declares in a tree

Functions, parameters, properties, `val`s and lambdas declare, and each of them has an id of its
own. `Expr.declarers` are those that stand directly in the statements of an expression that is a
block or a lambda, and `Item.declarers` those of an item that stand in no expression, so all the
declarers of a tree are found node by node.

* `Declarer` : what declares, with its id and what the walk over a unit declares for it.
* `SourceUnit.declarers` : the declarers in the bodies of a unit.
-/

namespace FrameCheck

/-- A part of a tree that has an id as a declaration. -/
inductive Declarer where
  | topLevel (v : ValDecl)
  | localVal (v : ValDecl)
  | classMember (p : PropertyDecl)
  | param (p : Param)
  /-- A parameter of a primary constructor that is no property. -/
  | plainParam (p : Param)
  /-- The parameter `index` of a lambda. -/
  | lambdaParam (lambda : ExprId) (index : Nat) (p : LambdaParam)
  /-- The `it` of a lambda. It is in sight if the lambda has no parameters, and has an id in any
  case. -/
  | implicitIt (lambda : ExprId) (inSight : Bool) (decl : DeclId)
  | function (f : FunDecl)
  | method (f : FunDecl)

namespace Declarer

def id : Declarer → DeclId
  | topLevel v | localVal v => v.decl
  | classMember p => p.decl
  | param p | plainParam p => p.decl
  | lambdaParam _ _ p => p.decl
  | implicitIt _ _ d => d
  | function f | method f => f.decl

/-- What a name may refer to. Functions have a namespace of their own. -/
def declaration? : Declarer → Option Declaration
  | topLevel v => some (v.declaration .topLevel)
  | localVal v => some (v.declaration .localVal)
  | classMember p => some p.declaration
  | param p | plainParam p => some p.declaration
  | lambdaParam lambda index p =>
    some ⟨p.decl, p.name, p.type, none, false, .lambdaParam lambda index⟩
  | implicitIt lambda inSight d =>
    if inSight then some ⟨d, "it", none, none, false, .lambdaParam lambda 0⟩ else none
  | function _ | method _ => none

/-- The expression whose value is that of the declaration. -/
def init? : Declarer → Option Expr
  | topLevel v | localVal v => v.init
  | classMember p => if p.inConstructor then none else p.init
  | _ => none

theorem id_of_declaration? {x : Declarer} {d : Declaration} (h : x.declaration? = some d) :
    d.id = x.id := by
  cases x with
  | implicitIt lambda inSight decl =>
    cases inSight <;> cases h
    rfl
  | function | method => cases h
  | _ =>
    cases h
    rfl

theorem init_of_declaration? {x : Declarer} {d : Declaration} (h : x.declaration? = some d) :
    d.init = x.init?.map Expr.id := by
  cases x with
  | implicitIt lambda inSight decl =>
    cases inSight <;> cases h
    rfl
  | classMember p =>
    cases h
    cases hp : p.inConstructor <;> simp [PropertyDecl.declaration, init?, hp]
  | function | method => cases h
  | _ =>
    cases h
    rfl

end Declarer

/-! ## Statements -/

/-- The parameters of a lambda from `index` on. -/
def LambdaParam.declarers (lambda : ExprId) : Nat → List LambdaParam → List Declarer
  | _, [] => []
  | index, p :: rest => .lambdaParam lambda index p :: LambdaParam.declarers lambda (index + 1) rest

mutual

/-- What declares in the statements of a block, and in no expression of theirs. -/
def Block.declarers : Block → List Declarer
  | ⟨stmts, _⟩ => Stmt.declarersOf stmts

def Stmt.declarersOf : List Stmt → List Declarer
  | [] => []
  | s :: rest => s.declarers ++ Stmt.declarersOf rest

def Stmt.declarers : Stmt → List Declarer
  | .val v => v.declarers ++ [.localVal v]
  | .function f => .function f :: f.declarers
  | .expr _ | .assign .. | .ret .. => []

/-- What declares in the getter. -/
def ValDecl.declarers : ValDecl → List Declarer
  | ⟨_, _, _, _, _, _, _, getter, _⟩ => getter.declarers

/-- The parameters of a function, and what declares in its body. -/
def FunDecl.declarers : FunDecl → List Declarer
  | ⟨_, _, _, params, _, body, _, _⟩ => params.map .param ++ body.declarers

def Body.declarers : Body → List Declarer
  | .absent | .expr _ => []
  | .block b => b.declarers

end

namespace Expr

/-- What declares directly in an expression. -/
def declarers (e : Expr) : List Declarer :=
  match e.kind with
  | .block b => b.declarers
  | .lambda params it b =>
    LambdaParam.declarers e.id 0 params ++ .implicitIt e.id params.isEmpty it :: b.declarers
  | _ => []

end Expr

/-! ## Units -/

namespace PropertyDecl

/-- A property of a class, and what declares in its getter. -/
def declarers (p : PropertyDecl) : List Declarer := .classMember p :: p.getter.declarers

end PropertyDecl

/-- What declares in an item, and in none of its expressions. -/
def Item.declarers : Item → List Declarer
  | classDecl c =>
    c.params.map .plainParam ++ c.properties.flatMap PropertyDecl.declarers
      ++ c.methods.flatMap fun m => .method m :: m.declarers
  | function f => .function f :: f.declarers
  | property v => .topLevel v :: v.declarers

/-- What declares in the bodies of a unit. -/
def SourceUnit.declarers (u : SourceUnit) : List Declarer :=
  u.items.flatMap Item.declarers ++ u.exprs.flatMap Expr.declarers

end FrameCheck
