import FrameCheck.Proofs.Tree.Respan

/-!
# Trees without ids

`unnumbered` replaces the ids of the expressions and declarations of a tree by one and the same,
and keeps all else. Two trees with the same unnumbered tree are equal up to ids. Without its spans
as well, an expression is what it is built from (`Expr.shape`).

* `Expr.unnumbered`, `Stmt.unnumbered` : expressions and statements.
* `Expr.shape_eq_shape` : the shape of an expression is that of its kind.
-/

namespace FrameCheck

/-- The parameter of a lambda, without its id. -/
def LambdaParam.unnumbered (p : LambdaParam) : LambdaParam := { p with decl := 0 }

mutual

def Expr.unnumbered : Expr → Expr
  | ⟨_, span, kind⟩ => ⟨0, span, kind.unnumbered⟩

def ExprKind.unnumbered : ExprKind → ExprKind
  | .literal value => .literal value
  | .name n => .name n
  | .this => .this
  | .member receiver n nameSpan safe => .member receiver.unnumbered n nameSpan safe
  | .call callee typeArgs args => .call callee.unnumbered typeArgs (Argument.unnumberedAll args)
  | .index receiver indices => .index receiver.unnumbered (Expr.unnumberedAll indices)
  | .binary op left right => .binary op left.unnumbered right.unnumbered
  | .unary op operand => .unary op operand.unnumbered
  | .notNull inner => .notNull inner.unnumbered
  | .cast operand type safe => .cast operand.unnumbered type safe
  | .ifElse condition thenBranch elseBranch =>
    .ifElse condition.unnumbered thenBranch.unnumbered (Expr.unnumbered? elseBranch)
  | .whenOf subject branches =>
    .whenOf (Expr.unnumbered? subject) (WhenBranch.unnumberedAll branches)
  | .template parts => .template (Expr.unnumberedAll parts)
  | .block body => .block body.unnumbered
  | .lambda params _ body => .lambda (params.map LambdaParam.unnumbered) 0 body.unnumbered

def Expr.unnumberedAll : List Expr → List Expr
  | [] => []
  | e :: rest => e.unnumbered :: Expr.unnumberedAll rest

def Expr.unnumbered? : Option Expr → Option Expr
  | none => none
  | some e => some e.unnumbered

def Argument.unnumbered : Argument → Argument
  | ⟨name, value⟩ => ⟨name, value.unnumbered⟩

def Argument.unnumberedAll : List Argument → List Argument
  | [] => []
  | a :: rest => a.unnumbered :: Argument.unnumberedAll rest

def WhenBranch.unnumbered : WhenBranch → WhenBranch
  | ⟨conditions, isElse, body⟩ => ⟨Expr.unnumberedAll conditions, isElse, body.unnumbered⟩

def WhenBranch.unnumberedAll : List WhenBranch → List WhenBranch
  | [] => []
  | b :: rest => b.unnumbered :: WhenBranch.unnumberedAll rest

def Block.unnumbered : Block → Block
  | ⟨stmts, span⟩ => ⟨Stmt.unnumberedAll stmts, span⟩

def Stmt.unnumbered : Stmt → Stmt
  | .val v => .val v.unnumbered
  | .function f => .function f.unnumbered
  | .expr e => .expr e.unnumbered
  | .assign target value span => .assign target.unnumbered value.unnumbered span
  | .ret value span => .ret (Expr.unnumbered? value) span

def Stmt.unnumberedAll : List Stmt → List Stmt
  | [] => []
  | s :: rest => s.unnumbered :: Stmt.unnumberedAll rest

def Body.unnumbered : Body → Body
  | .absent => .absent
  | .expr e => .expr e.unnumbered
  | .block b => .block b.unnumbered

def Param.unnumbered : Param → Param
  | ⟨_, name, type, default, span⟩ => ⟨0, name, type, Expr.unnumbered? default, span⟩

def Param.unnumberedAll : List Param → List Param
  | [] => []
  | p :: rest => p.unnumbered :: Param.unnumberedAll rest

def FunDecl.unnumbered : FunDecl → FunDecl
  | ⟨_, name, receiver, params, returnType, body, isProperty, span⟩ =>
    ⟨0, name, receiver, Param.unnumberedAll params, returnType, body.unnumbered, isProperty, span⟩

def ValDecl.unnumbered : ValDecl → ValDecl
  | ⟨_, mutable, receiver, name, nameSpan, type, init, getter, span⟩ =>
    ⟨0, mutable, receiver, name, nameSpan, type, Expr.unnumbered? init, getter.unnumbered, span⟩

end

example : Expr.unnumbered ⟨3, ⟨0, 1⟩, .name "a"⟩ = ⟨0, ⟨0, 1⟩, .name "a"⟩ := by cbv

/-! ## Lists and parts -/

@[simp] theorem Expr.unnumberedAll_eq_map (es : List Expr) :
    unnumberedAll es = es.map unnumbered := by
  induction es with
  | nil => rfl
  | cons e rest ih => rw [unnumberedAll, ih, List.map_cons]

@[simp] theorem Expr.unnumbered?_eq_map (e : Option Expr) : unnumbered? e = e.map unnumbered := by
  cases e <;> rfl

@[simp] theorem Argument.unnumberedAll_eq_map (as : List Argument) :
    unnumberedAll as = as.map unnumbered := by
  induction as with
  | nil => rfl
  | cons a rest ih => rw [unnumberedAll, ih, List.map_cons]

@[simp] theorem WhenBranch.unnumberedAll_eq_map (bs : List WhenBranch) :
    unnumberedAll bs = bs.map unnumbered := by
  induction bs with
  | nil => rfl
  | cons b rest ih => rw [unnumberedAll, ih, List.map_cons]

@[simp] theorem Stmt.unnumberedAll_eq_map (ss : List Stmt) :
    unnumberedAll ss = ss.map unnumbered := by
  induction ss with
  | nil => rfl
  | cons s rest ih => rw [unnumberedAll, ih, List.map_cons]

@[simp] theorem Param.unnumberedAll_eq_map (ps : List Param) :
    unnumberedAll ps = ps.map unnumbered := by
  induction ps with
  | nil => rfl
  | cons p rest ih => rw [unnumberedAll, ih, List.map_cons]

/-! ## Shapes -/

/-- What the expression is built from, without ids and spans. -/
def Expr.shape (e : Expr) : Expr := (e.respan fun _ => ⟨0, 0⟩).unnumbered

def ExprKind.shape (k : ExprKind) : ExprKind := (k.respan fun _ => ⟨0, 0⟩).unnumbered

def Argument.shape (a : Argument) : Argument := ⟨a.name, a.value.shape⟩

namespace Expr

theorem shape_mk (id : ExprId) (span : Span) (kind : ExprKind) :
    shape ⟨id, span, kind⟩ = ⟨0, ⟨0, 0⟩, kind.shape⟩ := by
  rw [shape, respan, unnumbered, ExprKind.shape]

theorem shape_eq_shape {e f : Expr} : e.shape = f.shape ↔ e.kind.shape = f.kind.shape := by
  obtain ⟨_, _, kind⟩ := e
  obtain ⟨_, _, kind'⟩ := f
  rw [shape_mk, shape_mk, Expr.mk.injEq]
  exact ⟨fun h => h.2.2, fun h => ⟨rfl, rfl, h⟩⟩

/-- Other spans leave the shape as it is. -/
theorem shape_respan (f : Span → Span) (e : Expr) : (e.respan f).shape = e.shape := by
  rw [shape, respan_respan, shape]
  rfl

end Expr

theorem Argument.unnumbered_respan (a : Argument) :
    (a.respan fun _ => ⟨0, 0⟩).unnumbered = a.shape := by
  obtain ⟨name, value⟩ := a
  rw [respan, unnumbered, shape, Expr.shape]

namespace ExprKind

@[simp] theorem shape_literal (value : Literal) : (literal value).shape = .literal value := rfl

@[simp] theorem shape_name (n : String) : (name n).shape = .name n := rfl

@[simp] theorem shape_this : this.shape = .this := rfl

@[simp] theorem shape_member (receiver : Expr) (n : String) (nameSpan : Span) (safe : Bool) :
    (member receiver n nameSpan safe).shape = .member receiver.shape n ⟨0, 0⟩ safe := by
  rw [shape, respan, unnumbered, Expr.shape]

@[simp] theorem shape_call (callee : Expr) (typeArgs : List TypeRef) (args : List Argument) :
    (call callee typeArgs args).shape = .call callee.shape typeArgs (args.map Argument.shape) := by
  rw [shape, respan, unnumbered, Expr.shape, Argument.respanAll_eq_map,
    Argument.unnumberedAll_eq_map, List.map_map]
  exact congrArg _ (List.map_congr_left fun a _ => a.unnumbered_respan)

@[simp] theorem shape_index (receiver : Expr) (indices : List Expr) :
    (index receiver indices).shape = .index receiver.shape (indices.map Expr.shape) := by
  rw [shape, respan, unnumbered, Expr.shape, Expr.respanAll_eq_map, Expr.unnumberedAll_eq_map,
    List.map_map]
  rfl

@[simp] theorem shape_binary (op : BinaryOp) (left right : Expr) :
    (binary op left right).shape = .binary op left.shape right.shape := by
  rw [shape, respan, unnumbered, Expr.shape, Expr.shape]

@[simp] theorem shape_unary (op : UnaryOp) (operand : Expr) :
    (unary op operand).shape = .unary op operand.shape := by
  rw [shape, respan, unnumbered, Expr.shape]

@[simp] theorem shape_notNull (inner : Expr) : (notNull inner).shape = .notNull inner.shape := by
  rw [shape, respan, unnumbered, Expr.shape]

@[simp] theorem shape_cast (operand : Expr) (type : TypeRef) (safe : Bool) :
    (cast operand type safe).shape = .cast operand.shape type safe := by
  rw [shape, respan, unnumbered, Expr.shape]

@[simp] theorem shape_ifElse (condition thenBranch : Expr) (elseBranch : Option Expr) :
    (ifElse condition thenBranch elseBranch).shape =
      .ifElse condition.shape thenBranch.shape (elseBranch.map Expr.shape) := by
  rw [shape, respan, unnumbered, Expr.shape, Expr.shape]
  cases elseBranch <;> rfl

@[simp] theorem shape_template (parts : List Expr) :
    (template parts).shape = .template (parts.map Expr.shape) := by
  rw [shape, respan, unnumbered, Expr.respanAll_eq_map, Expr.unnumberedAll_eq_map, List.map_map]
  rfl

@[simp] theorem shape_lambda (params : List LambdaParam) (it : DeclId) (es : List Expr)
    (span : Span) :
    (lambda params it ⟨es.map Stmt.expr, span⟩).shape =
      .lambda (params.map LambdaParam.unnumbered) 0
        ⟨(es.map Expr.shape).map Stmt.expr, ⟨0, 0⟩⟩ := by
  rw [shape, respan, unnumbered, Block.respan, Block.unnumbered, Stmt.respanAll_eq_map,
    Stmt.unnumberedAll_eq_map, List.map_map, List.map_map, List.map_map]
  refine congrArg _ (congrArg (Block.mk · ⟨0, 0⟩) (List.map_congr_left fun e _ => ?_))
  rw [Function.comp, Function.comp, Stmt.respan, Stmt.unnumbered, Function.comp, Expr.shape]

end ExprKind

end FrameCheck
