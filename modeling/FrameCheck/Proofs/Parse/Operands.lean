import FrameCheck.Proofs.Parse.Printing
import FrameCheck.Proofs.Parse.Reading

/-!
# Reading operands

An operand is read by levels : a primary, its suffixes, its signs, its casts, and the chains of
operators from tight to loose. Each level takes over what the level below has read, unless a token
of its own stands there. So where an expression ends (`Token.Closing`) what a primary reads is
what an expression reads, and an operator is taken by the chain of its precedence.

* `suffixed_one`, `signed_one`, `castChain_one`, `chain_one` : one token of a level's own.
* `binary_lift`, `binary_append` : the chains above and below that of an operator.
-/

namespace FrameCheck

namespace TokenKind

/-- The kinds of tokens at which a printed expression ends. -/
def ends : List TokenKind :=
  [.mark .rightParen, .mark .rightBracket, .mark .rightBrace, .mark .comma, .keyword .elseKw, .eof]

/-- A token that starts a suffix, at least of a callable expression. -/
def startsSuffix (k : TokenKind) : Bool :=
  k.isAccess || k.isMark .less || k.isMark .leftParen || k.isMark .leftBrace
    || k.isMark .leftBracket || k.isMark .bangBang

end TokenKind

/-- Tokens at which an expression ends: an end, or a line break before a parenthesis. -/
inductive Token.Closing : List Token → Prop
  | token {t : Token} {ts} (h : t.kind ∈ TokenKind.ends) : Closing (t :: ts)
  | line {ts} : Closing (TokenKind.newline.token :: Mark.leftParen.token :: ts)

open Token (Closing wrapped joined)

namespace Token.Closing

variable {ts : List Token} (h : Closing ts) {c : Cursor} (hc : c.rest = ts)

include h hc

/-- A test that no end and no line break passes. -/
theorem test_eq_false {p : TokenKind → Bool}
    (hp : (TokenKind.newline :: TokenKind.ends).all (fun k => !p k) = true) :
    p c.kind = false := by
  have hall {k : TokenKind} (hk : k ∈ TokenKind.newline :: TokenKind.ends) : p k = false := by
    simpa using List.all_eq_true.1 hp k hk
  cases h with
  | token ht => exact Cursor.kind_of_rest hc ▸ hall (List.mem_cons_of_mem _ ht)
  | line => exact Cursor.kind_of_rest hc ▸ hall List.mem_cons_self

/-- A test past line breaks that no end and no parenthesis passes. -/
theorem test_past_eq_false {p : TokenKind → Bool}
    (hp : (TokenKind.mark .leftParen :: TokenKind.ends).all (fun k => !p k) = true) :
    p c.pastNewlines.kind = false := by
  have hall {k : TokenKind} (hk : k ∈ TokenKind.mark .leftParen :: TokenKind.ends) :
      p k = false := by
    simpa using List.all_eq_true.1 hp k hk
  cases h with
  | token ht =>
    have hline : ∀ k ∈ TokenKind.ends, k.isNewline = false := by simp [TokenKind.ends,
      TokenKind.isNewline]
    rw [Cursor.kind_of_rest (Cursor.rest_pastNewlines (hline _ ht) hc)]
    exact hall (List.mem_cons_of_mem _ ht)
  | line =>
    have hpast : c.pastNewlines.kind = .mark .leftParen := by
      refine Cursor.kind_of_rest (Cursor.rest_skipWhile (t := Mark.leftParen.token) rfl
        [TokenKind.newline.token] (fun u hu => ?_) hc)
      rw [List.mem_singleton.1 hu]
      rfl
    exact hpast ▸ hall List.mem_cons_self

theorem at?_eq_none : BinaryOp.at? c = none := by
  have hpast : (BinaryOp.ofToken? c.pastNewlines.kind).isSome = false :=
    test_past_eq_false (p := fun k => (BinaryOp.ofToken? k).isSome) h hc rfl
  have hhere : (BinaryOp.ofToken? c.kind).isSome = false :=
    test_eq_false (p := fun k => (BinaryOp.ofToken? k).isSome) h hc rfl
  rw [Option.isSome_eq_false_iff, Option.isNone_iff_eq_none] at hpast hhere
  rw [BinaryOp.at?, hpast, hhere]
  split <;> rfl

end Token.Closing

namespace Token

theorem Closing.ne_nil {ts : List Token} (h : Closing ts) : ts ≠ [] := by
  cases h <;> exact List.cons_ne_nil _ _

theorem Closing.comma (ts : List Token) : Closing (Mark.comma.token :: ts) :=
  .token (by simp [TokenKind.ends, Mark.token, TokenKind.token])

theorem Closing.rightParen (ts : List Token) : Closing (Mark.rightParen.token :: ts) :=
  .token (by simp [TokenKind.ends, Mark.token, TokenKind.token])

theorem Closing.rightBrace (ts : List Token) : Closing (Mark.rightBrace.token :: ts) :=
  .token (by simp [TokenKind.ends, Mark.token, TokenKind.token])

theorem Closing.rightBracket (ts : List Token) : Closing (Mark.rightBracket.token :: ts) :=
  .token (by simp [TokenKind.ends, Mark.token, TokenKind.token])

end Token

/-- The chains of operators that are looser than one, and those that are tighter. -/
theorem BinaryOp.precedence_split (op : BinaryOp) : ∃ looser tighter,
    Precedence.all = looser ++ op.precedence :: tighter ∧ op.precedence ∉ tighter := by
  cases op.precedence
  · exact ⟨[], _, rfl, by decide⟩
  · exact ⟨[_], _, rfl, by decide⟩
  · exact ⟨[_, _], _, rfl, by decide⟩
  · exact ⟨[_, _, _], _, rfl, by decide⟩
  · exact ⟨[_, _, _, _], _, rfl, by decide⟩
  · exact ⟨[_, _, _, _, _], _, rfl, by decide⟩
  · exact ⟨[_, _, _, _, _, _], _, rfl, by decide⟩
  · exact ⟨[_, _, _, _, _, _, _], _, rfl, by decide⟩
  · exact ⟨[_, _, _, _, _, _, _, _], _, rfl, by decide⟩

namespace Parser.Takes

variable {g : Grammar} {before mid after : List Token} {P Q R : Expr → Prop}

/-! ## Operands -/

/-- No suffix stands at these tokens. -/
def Unsuffixed (g : Grammar) (ts : List Token) : Prop :=
  ∀ e, Takes (suffix g e) ts ts (· = none)

theorem unsuffixed_of_kind (h : ∀ c : Cursor, c.rest = after →
    c.pastNewlines.kind.isAccess = false ∧ c.kind.startsSuffix = false) : Unsuffixed g after :=
  fun e => ofCursor fun c hc => by
    obtain ⟨haccess, hstart⟩ := h c hc
    simp only [TokenKind.startsSuffix, Bool.or_eq_false_iff] at hstart
    obtain ⟨⟨⟨⟨⟨-, hless⟩, hparen⟩, hbrace⟩, hbracket⟩, hbang⟩ := hstart
    simp only [haccess, hless, hparen, hbrace, hbracket, hbang, Bool.false_and, Bool.or_self,
      Bool.false_eq_true, if_false]
    exact answer rfl

theorem unsuffixed_of_closing (h : Closing after) : Unsuffixed g after :=
  unsuffixed_of_kind fun _ hc => ⟨h.test_past_eq_false hc rfl, h.test_eq_false hc rfl⟩

theorem suffixed_end (hp : Takes (primary g) before after P) (hend : Unsuffixed g after) :
    Takes (suffixed g) before after P :=
  hp.next fun e he => loop_stop ((hend e).known (answer ⟨e, rfl, he⟩))

/-- A primary with one suffix. -/
theorem suffixed_one (hp : Takes (primary g) before mid P)
    (hone : ∀ e, P e → Takes (suffix g e) mid after fun o => ∃ f, o = some f ∧ Q f)
    (hshort : after.length < mid.length) (hend : Unsuffixed g after) :
    Takes (suffixed g) before after Q := by
  refine hp.next fun e he => loop_next (S := Q) ((hone e he).next ?_) hshort fun f hf => ?_
  · rintro _ ⟨f, rfl, hf⟩
    exact answer ⟨f, rfl, hf⟩
  · exact loop_stop ((hend f).known (answer ⟨f, rfl, hf⟩))

variable {operand : Parser Expr} {t : Token} {ts : List Token}

theorem signed_none (ht : UnaryOp.ofToken? t.kind = none)
    (h : Takes operand (t :: ts) after P) : Takes (signed operand) (t :: ts) after P := by
  refine next (P := (· = [])) (m := t :: ts) (loop_stop (kind.known ?_)) ?_
  · rw [ht]
    exact answer ⟨[], rfl, rfl⟩
  · rintro _ rfl
    exact h.next fun e he => answer he

theorem signed_one {op : UnaryOp} {u : Token} (ht : UnaryOp.ofToken? t.kind = some op)
    (hu : UnaryOp.ofToken? u.kind = none) (h : Takes operand (u :: ts) after P)
    (hQ : ∀ e f, P e → f.kind = .unary op e → Q f) :
    Takes (signed operand) (t :: u :: ts) after Q := by
  let one (ops : List (UnaryOp × Span)) : Prop := ∃ start, ops = [(op, start)]
  refine next (P := one) (m := u :: ts)
    (loop_next (S := one) (m := u :: ts) (kind.known ?_) (Nat.lt_succ_self _) ?_) ?_
  · rw [ht]
    exact (advance (List.cons_ne_nil u ts)).known (answer ⟨_, rfl, _, rfl⟩)
  · rintro _ ⟨start, rfl⟩
    refine loop_stop (kind.known ?_)
    rw [hu]
    exact answer ⟨_, rfl, _, rfl⟩
  · rintro _ ⟨start, rfl⟩
    refine h.next fun e he => ?_
    exact (newExpr _ _).next fun f hf => answer (hQ e f he hf)

theorem castChain_none (h : Takes operand before after P)
    (hend : ∀ c : Cursor, c.rest = after → c.kind.isKeyword .asKw = false) :
    Takes (castChain g operand) before after P :=
  h.next fun e he => loop_stop ((eatIf_not hend).known (answer ⟨e, rfl, he⟩))

/-- A name that no dot follows is the name of a type. -/
theorem typeRef_head {n : String} {P : TypeRef → Prop} (ht : t.kind = .name n) (hne : mid ≠ [])
    (hdot : ∀ c : Cursor, c.rest = mid → c.kind.isMark .dot = false)
    (h : Takes (do
      let args ← if ← eat .less then typeArgs g else pure []
      let nullable ← eat .question
      return ⟨n, args, nullable⟩) mid after P) : Takes (typeRef g) (t :: mid) after P := by
  refine (eat_not (by rw [ht]; rfl)).known ((expectName (by rw [ht]; rfl) hne).next ?_)
  rintro ⟨first, span⟩ (rfl : first = n)
  refine known (a := first) (loop_stop (ofCursor fun c hc => ?_)) h
  simp only [hdot c hc, Bool.false_and, Bool.false_eq_true, if_false]
  exact answer ⟨_, rfl, rfl⟩

/-- A type that is a plain name. -/
theorem typeRef_name (n : String) (h : Closing after) (hne : after ≠ []) :
    Takes (typeRef g) (.named n :: after) after (· = TypeRef.simple n) := by
  refine typeRef_head rfl hne (fun c hc => h.test_eq_false hc rfl) ?_
  refine (eatIf_not fun c hc => h.test_eq_false hc rfl).known ?_
  refine (answer (a := []) (P := (· = [])) rfl).known ?_
  exact (eatIf_not fun c hc => h.test_eq_false hc rfl).known (answer rfl)

theorem castChain_one {safe : Bool} {n : String}
    (h : Takes operand before ((TokenKind.keyword .asKw).token ::
      ((if safe then [Mark.question.token] else []) ++ .named n :: after)) P)
    (hend : Closing after) (hne : after ≠ [])
    (hQ : ∀ e f, P e → f.kind = .cast e (TypeRef.simple n) safe → Q f) :
    Takes (castChain g operand) before after Q := by
  refine h.next fun e he => loop_next (S := Q) (m := after) ?_ ?_ fun f hf => loop_stop ?_
  · refine (eatIf rfl (by simp)).known ?_
    refine next (P := (· = safe)) (m := .named n :: after) ?_ ?_
    · cases safe with
      | true => exact eatIf rfl (List.cons_ne_nil _ _)
      | false => exact eat_not rfl
    · rintro _ rfl
      refine (typeRef_name n hend hne).known (lastSpan.next fun _ _ => ?_)
      exact (newExpr _ _).next fun f hf => answer ⟨f, rfl, hQ e f he hf⟩
  · simp only [List.length_cons, List.length_append]
    omega
  · exact (eatIf_not fun c hc => hend.test_eq_false hc rfl).known (answer ⟨f, rfl, hf⟩)

/-! ## Operator chains -/

/-- Operators of other precedences are left to the looser chains. -/
theorem binary_lift {ps : List Precedence} (h : Takes operand before after P)
    (hops : ∀ c : Cursor, c.rest = after → ∀ op, BinaryOp.at? c = some op → op.precedence ∉ ps) :
    Takes (binary operand ps) before after P := by
  induction ps with
  | nil => exact h
  | cons p tighter ih =>
    refine (ih fun c hc op hop hmem => hops c hc op hop (List.mem_cons_of_mem p hmem)).next
      fun e he => loop_stop (ofCursor fun c hc => ?_)
    cases hop : BinaryOp.at? c with
    | none => exact answer ⟨e, rfl, he⟩
    | some op =>
      have hne : op.precedence ≠ p := fun hp => hops c hc op hop (hp ▸ List.mem_cons_self)
      exact ite_neg hne (answer ⟨e, rfl, he⟩)

/-- One operator between two operands. -/
theorem chain_one {op : BinaryOp} {u : Token}
    (hleft : Takes operand before (t :: u :: ts) P) (ht : BinaryOp.ofToken? t.kind = some op)
    (hline : t.kind.isNewline = false) (hline' : u.kind.isNewline = false)
    (hright : Takes operand (u :: ts) after Q) (hend : Closing after)
    (hshort : after.length < ts.length)
    (hR : ∀ e f x, P e → Q f → x.kind = .binary op e f → R x) :
    Takes (chain op.precedence operand) before after R := by
  refine hleft.next fun e he => loop_next (S := R) (m := after) (ofCursor fun c hc => ?_) ?_
    fun x hx => loop_stop (ofCursor fun c hc => ?_)
  · have hop : BinaryOp.at? c = some op := by
      rw [BinaryOp.at?, Cursor.kind_of_rest hc, hline, ht]
      rfl
    rw [hop]
    refine ite_pos rfl ((skipNewlines hline).next fun _ _ => ?_)
    refine (advance (List.cons_ne_nil u ts)).known ((skipNewlines hline').next fun _ _ => ?_)
    refine hright.next fun f hf => (newExpr _ _).next fun x hx => ?_
    exact answer ⟨x, rfl, hR e f x he hf hx⟩
  · simp only [List.length_cons]
    omega
  · rw [hend.at?_eq_none hc]
    exact answer ⟨x, rfl, hx⟩

theorem binary_append {looser tighter : List Precedence}
    (h : Takes (binary operand tighter) before after P) (hend : Closing after) :
    Takes (binary operand (looser ++ tighter)) before after P := by
  induction looser with
  | nil => exact h
  | cons p looser ih =>
    refine ih.next fun e he => loop_stop (ofCursor fun c hc => ?_)
    rw [hend.at?_eq_none hc]
    exact answer ⟨e, rfl, he⟩

theorem expression_of_castChain (h : Takes (castChain g (signed (suffixed g))) before after P)
    (hend : Closing after) : Takes (expression g) before after P :=
  binary_lift h fun c hc op hop => by
    rw [hend.at?_eq_none hc] at hop
    cases hop

theorem expression_of_suffixed (ht : UnaryOp.ofToken? t.kind = none)
    (h : Takes (suffixed g) (t :: ts) after P) (hend : Closing after) :
    Takes (expression g) (t :: ts) after P :=
  expression_of_castChain (castChain_none (signed_none ht h)
    fun _ hc => hend.test_eq_false hc rfl) hend

end Parser.Takes

end FrameCheck
