import FrameCheck.Proofs.Parse.Cursors
import FrameCheck.Proofs.Tree.Unnumbered
import Mathlib.Data.List.Basic

/-!
# Printing expressions

`Expr.render` prints an expression as tokens. Every part stands in parentheses of its own, so no
precedence and no line break matters, and what has no part is one token. Printed are literals,
names, `this`, accesses, calls without type arguments, indices, operators, casts to a plain type,
branches, templates and lambdas of expressions (`Expr.Printable`); a template holds the tokens of
each of its parts and their end.

* `Expr.render` : the tokens.
* `BinaryOp.ofToken?_kind`, `Literal.ofToken?_kind` : one token stands for what it was printed from.
-/

namespace FrameCheck

/-! ## Single tokens -/

/-- A token of this kind, at no place. -/
def TokenKind.token (k : TokenKind) : Token := ⟨k, ⟨0, 0⟩⟩

def Mark.token (m : Mark) : Token := (TokenKind.mark m).token

def Token.named (name : String) : Token := (TokenKind.name name).token

namespace Literal

/-- The kind of token that the literal is read from. -/
def kind : Literal → TokenKind
  | int n => .integer n
  | long n => .long n
  | float x => .single x
  | double x => .double x
  | string s => .text s
  | char c => .character c
  | bool true => .keyword .trueKw
  | bool false => .keyword .falseKw
  | null => .keyword .nullKw

theorem ofToken?_kind (value : Literal) : ofToken? value.kind = some value := by
  cases value with
  | bool b => cases b <;> rfl
  | _ => rfl

end Literal

namespace BinaryOp

/-- The kind of token that the operator is read from. -/
def kind : BinaryOp → TokenKind
  | add => .mark .plus
  | sub => .mark .minus
  | mul => .mark .star
  | div => .mark .slash
  | rem => .mark .percent
  | eq => .mark .doubleEqual
  | notEq => .mark .bangEqual
  | less => .mark .less
  | lessEq => .mark .lessEqual
  | greater => .mark .greater
  | greaterEq => .mark .greaterEqual
  | and => .mark .ampersands
  | or => .mark .pipePipe
  | elvis => .mark .elvis
  | range => .mark .dotDot
  | named function => .name function

theorem ofToken?_kind (op : BinaryOp) : ofToken? op.kind = some op := by
  cases op <;> rfl

end BinaryOp

namespace UnaryOp

/-- The kind of token that the operator is read from. -/
def kind : UnaryOp → TokenKind
  | not => .mark .bang
  | neg => .mark .minus
  | plus => .mark .plus

theorem ofToken?_kind (op : UnaryOp) : ofToken? op.kind = some op := by
  cases op <;> rfl

end UnaryOp

/-! ## Expressions -/

namespace Token

/-- Tokens in parentheses. -/
def wrapped (ts : List Token) : List Token :=
  Mark.leftParen.token :: (ts ++ [Mark.rightParen.token])

/-- Lists of tokens with the mark between them. -/
def joined (between : TokenKind) (tss : List (List Token)) : List Token :=
  [between.token].intercalate tss

end Token

/-- The name of a named argument, with the sign behind it. -/
def Argument.renderName : Option String → List Token
  | none => []
  | some name => [.named name, Mark.equal.token]

/-- The parameters of a lambda with the arrow behind them; without parameters there is none. -/
def LambdaParam.render (params : List LambdaParam) : List Token :=
  if params.isEmpty then []
  else Token.joined (.mark .comma) (params.map fun p => [Token.named p.name]) ++ [Mark.arrow.token]

mutual

/-- The tokens of an expression. -/
def Expr.render : Expr → List Token
  | ⟨_, _, kind⟩ => kind.render

def ExprKind.render : ExprKind → List Token
  | .literal value => [value.kind.token]
  | .name n => [.named n]
  | .this => [(TokenKind.keyword .thisKw).token]
  | .member receiver n _ safe =>
    Token.wrapped receiver.render ++ [if safe then Mark.safeDot.token else Mark.dot.token, .named n]
  | .call callee _ args =>
    Token.wrapped callee.render ++
      Token.wrapped (Token.joined (.mark .comma) (Argument.renders args))
  | .index receiver indices =>
    Token.wrapped receiver.render ++ Mark.leftBracket.token ::
      (Token.joined (.mark .comma) ((Expr.renders indices).map Token.wrapped) ++
        [Mark.rightBracket.token])
  | .binary op left right =>
    Token.wrapped left.render ++ op.kind.token :: Token.wrapped right.render
  | .unary op operand => op.kind.token :: Token.wrapped operand.render
  | .notNull inner => Token.wrapped inner.render ++ [Mark.bangBang.token]
  | .cast operand type safe =>
    Token.wrapped operand.render ++ (TokenKind.keyword .asKw).token ::
      ((if safe then [Mark.question.token] else []) ++ [.named type.name])
  | .ifElse condition thenBranch elseBranch =>
    (TokenKind.keyword .ifKw).token :: (Token.wrapped (Token.wrapped condition.render) ++
      (Token.wrapped thenBranch.render ++ Expr.renderElse elseBranch))
  | .template parts =>
    [(TokenKind.template ((Expr.renders parts).map (· ++ [TokenKind.eof.token]))).token]
  | .lambda params _ body =>
    Mark.leftBrace.token :: (LambdaParam.render params ++ (body.render ++ [Mark.rightBrace.token]))
  | .whenOf .. | .block _ => []

def Expr.renders : List Expr → List (List Token)
  | [] => []
  | e :: rest => e.render :: Expr.renders rest

def Expr.renderElse : Option Expr → List Token
  | none => []
  | some e => (TokenKind.keyword .elseKw).token :: Token.wrapped e.render

def Argument.renders : List Argument → List (List Token)
  | [] => []
  | ⟨name, value⟩ :: rest =>
    (Argument.renderName name ++ Token.wrapped value.render) :: Argument.renders rest

/-- The statements of a block, one on a line. -/
def Block.render : Block → List Token
  | ⟨stmts, _⟩ => Token.joined .newline (Stmt.renders stmts)

def Stmt.renders : List Stmt → List (List Token)
  | [] => []
  | .expr e :: rest => Token.wrapped e.render :: Stmt.renders rest
  | _ :: rest => Stmt.renders rest

end

example : Expr.render ⟨0, ⟨0, 0⟩, .member ⟨0, ⟨0, 0⟩, .name "a"⟩ "b" ⟨0, 0⟩ true⟩ =
    Token.wrapped [.named "a"] ++ [Mark.safeDot.token, .named "b"] := by cbv

/-- The expressions that are printed. -/
inductive Expr.Printable : Expr → Prop
  | literal {id span} (value) : Printable ⟨id, span, .literal value⟩
  | name {id span} (n) : Printable ⟨id, span, .name n⟩
  | this {id span} : Printable ⟨id, span, .this⟩
  | member {id span receiver} (n nameSpan safe) :
    Printable receiver → Printable ⟨id, span, .member receiver n nameSpan safe⟩
  | call {id span callee} {args : List Argument} :
    Printable callee → (∀ a ∈ args, Printable a.value) → Printable ⟨id, span, .call callee [] args⟩
  | index {id span receiver indices} : Printable receiver → indices ≠ [] →
    (∀ i ∈ indices, Printable i) → Printable ⟨id, span, .index receiver indices⟩
  | binary {id span left right} (op) :
    Printable left → Printable right → Printable ⟨id, span, .binary op left right⟩
  | unary {id span operand} (op) : Printable operand → Printable ⟨id, span, .unary op operand⟩
  | notNull {id span inner} : Printable inner → Printable ⟨id, span, .notNull inner⟩
  | cast {id span operand} (typeName safe) :
    Printable operand → Printable ⟨id, span, .cast operand (TypeRef.simple typeName) safe⟩
  | ifElse {id span condition thenBranch elseBranch} : Printable condition → Printable thenBranch →
    (∀ e, elseBranch = some e → Printable e) →
      Printable ⟨id, span, .ifElse condition thenBranch elseBranch⟩
  | template {id span parts} :
    (∀ p ∈ parts, Printable p) → Printable ⟨id, span, .template parts⟩
  | lambda {id span} {params : List LambdaParam} {it bodySpan} {es : List Expr} :
    (∀ p ∈ params, p.type = none) → (∀ e ∈ es, Printable e) →
      Printable ⟨id, span, .lambda params it ⟨es.map Stmt.expr, bodySpan⟩⟩

/-! ## Lists and parts -/

@[simp] theorem Expr.renders_eq_map (es : List Expr) : renders es = es.map render := by
  induction es with
  | nil => rfl
  | cons e rest ih => rw [renders, ih, List.map_cons]

/-- The tokens of an argument. -/
def Argument.render (a : Argument) : List Token :=
  Argument.renderName a.name ++ Token.wrapped a.value.render

@[simp] theorem Argument.renders_eq_map : ∀ as : List Argument, renders as = as.map render
  | [] => rfl
  | ⟨name, value⟩ :: rest => by rw [renders, renders_eq_map rest, List.map_cons, render]

@[simp] theorem Stmt.renders_map_expr (es : List Expr) :
    renders (es.map expr) = es.map fun e => Token.wrapped e.render := by
  induction es with
  | nil => rfl
  | cons e rest ih => rw [List.map_cons, renders, ih, List.map_cons]

namespace Token

theorem wrapped_append (ts us : List Token) :
    wrapped ts ++ us = Mark.leftParen.token :: (ts ++ Mark.rightParen.token :: us) := by
  simp [wrapped]

theorem joined_singleton (between : TokenKind) (ts : List Token) : joined between [ts] = ts :=
  List.intercalate_singleton

theorem joined_cons (between : TokenKind) (ts us : List Token) (tss : List (List Token)) :
    joined between (ts :: us :: tss) = ts ++ between.token :: joined between (us :: tss) := by
  rw [joined, List.intercalate_cons_cons, List.append_assoc, List.singleton_append, joined]

/-! ## Weights -/

theorem listWeight_wrapped (ts : List Token) : listWeight (wrapped ts) = listWeight ts + 2 := by
  simp [wrapped, listWeight, listWeight_append, Mark.token, TokenKind.token, weight,
    TokenKind.weight]
  omega

theorem listWeight_le_joined (between : TokenKind) {ts : List Token} {tss : List (List Token)}
    (h : ts ∈ tss) : listWeight ts ≤ listWeight (joined between tss) := by
  induction tss with
  | nil => exact absurd h List.not_mem_nil
  | cons us tss ih =>
    cases tss with
    | nil =>
      obtain rfl := List.mem_singleton.1 h
      exact Nat.le_of_eq (congrArg listWeight (joined_singleton between ts).symm)
    | cons vs tss =>
      rw [joined_cons, listWeight_append, listWeight]
      rcases List.mem_cons.1 h with rfl | h
      · omega
      · have := ih h
        omega

end Token

end FrameCheck
