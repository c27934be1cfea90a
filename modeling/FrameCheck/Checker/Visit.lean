import FrameCheck.Tree.Children

/-!
# What there is to check

Walking a unit gives, in order, the places that are checked: each marker, each call, and each
access to a column. A member that a call starts with names a function and is no access; its
receiver is walked all the same.

* `SourceUnit.visits` : all places of a unit.
-/

namespace FrameCheck

inductive Visit where
  | marker (c : ClassDecl)
  | call (e : Expr)
  /-- The expression `access` reads the column `name` of the receiver, by index or as a member. -/
  | column (access receiver : Expr) (name : String) (indexed : Bool)

/-- The access that an index stands for, if its only index is a string. -/
def indexVisits (access receiver : Expr) : List Expr → List Visit
  | [i] =>
    match i.stringLiteral? with
    | some name => [.column access receiver name true]
    | none => []
  | _ => []

mutual

/-- The places in an expression; `called` says that it is what a call starts with. -/
def Expr.visits (called : Bool) : Expr → List Visit
  | ⟨id, span, kind⟩ => kind.visits called ⟨id, span, kind⟩

/-- The places in the expression `e` of this kind. -/
def ExprKind.visits (called : Bool) (e : Expr) : ExprKind → List Visit
  | .literal _ | .name _ | .this => []
  | .member receiver name _ _ =>
    receiver.visits false ++ if called then [] else [.column e receiver name false]
  | .call callee _ args => .call e :: (callee.visits true ++ Argument.visits args)
  | .index receiver indices =>
    receiver.visits false ++ Expr.visitsOf indices ++ indexVisits e receiver indices
  | .binary _ left right => left.visits false ++ right.visits false
  | .unary _ operand => operand.visits false
  | .notNull inner => inner.visits false
  | .cast operand _ _ => operand.visits false
  | .ifElse condition thenBranch elseBranch =>
    condition.visits false ++ thenBranch.visits false ++ Expr.visitsOf? elseBranch
  | .whenOf subject branches => Expr.visitsOf? subject ++ WhenBranch.visits branches
  | .template parts => Expr.visitsOf parts
  | .block body => body.visits
  | .lambda _ _ body => body.visits

def Expr.visitsOf : List Expr → List Visit
  | [] => []
  | e :: rest => e.visits false ++ Expr.visitsOf rest

def Expr.visitsOf? : Option Expr → List Visit
  | none => []
  | some e => e.visits false

def Argument.visits : List Argument → List Visit
  | [] => []
  | ⟨_, e⟩ :: rest => e.visits false ++ Argument.visits rest

def WhenBranch.visits : List WhenBranch → List Visit
  | [] => []
  | ⟨conditions, _, body⟩ :: rest =>
    Expr.visitsOf conditions ++ body.visits false ++ WhenBranch.visits rest

def Block.visits : Block → List Visit
  | ⟨stmts, _⟩ => Stmt.visits stmts

def Stmt.visits : List Stmt → List Visit
  | [] => []
  | s :: rest => s.visitsOne ++ Stmt.visits rest

def Stmt.visitsOne : Stmt → List Visit
  | .val v => v.visits
  | .function f => f.visits
  | .expr e => e.visits false
  | .assign target value _ => target.visits false ++ value.visits false
  | .ret value _ => Expr.visitsOf? value

def Body.visits : Body → List Visit
  | .absent => []
  | .expr e => e.visits false
  | .block b => b.visits

def ValDecl.visits : ValDecl → List Visit
  | ⟨_, _, _, _, _, _, init, getter, _⟩ => Expr.visitsOf? init ++ getter.visits

def Param.visits : List Param → List Visit
  | [] => []
  | ⟨_, _, _, default, _⟩ :: rest => Expr.visitsOf? default ++ Param.visits rest

def FunDecl.visits : FunDecl → List Visit
  | ⟨_, _, _, params, _, body, _, _⟩ => Param.visits params ++ body.visits

end

namespace PropertyDecl

def visits (p : PropertyDecl) : List Visit := Expr.visitsOf? p.init ++ p.getter.visits

end PropertyDecl

def ClassDecl.visits (c : ClassDecl) : List Visit :=
  (if c.isMarker then [.marker c] else []) ++ Param.visits c.params
    ++ c.properties.flatMap PropertyDecl.visits ++ c.methods.flatMap FunDecl.visits

def Item.visits : Item → List Visit
  | classDecl c => c.visits
  | function f => f.visits
  | property v => v.visits

def SourceUnit.visits (u : SourceUnit) : List Visit := u.items.flatMap Item.visits

end FrameCheck
