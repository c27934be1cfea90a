import FrameCheck.Proofs.Parse.PrintedParts
import FrameCheck.Proofs.Parse.RelocatedUnits
import FrameCheck.Proofs.Token.Places

/-!
# Parsing undoes printing

A printed expression is read again as what it was printed from, up to ids and spans, and exactly
its tokens are read (`Parser.expression_render`). The induction is on what is printed; each part
has fewer tokens than the whole, so the tokens bound how deep the parser goes. The tokens may
stand at any places, for a parser decides by their kinds.

* `Parser.parsesDeep` : all printed expressions, from tokens at no place.
-/

namespace FrameCheck

open Token (Closing wrapped joined)

namespace Parser

namespace Takes

variable {g : Grammar} {after : List Token} {e : Expr}

/-! ### Operators -/

section

variable {x l r : Expr}

/-- An operand in parentheses, up to a token that is no suffix and no cast. -/
theorem castChain_wrapped (hx : x.Printable) (hpx : Parses g.expr x) (hne : after ≠ [])
    (hsuffix : Unsuffixed g after)
    (hcast : ∀ c : Cursor, c.rest = after → c.kind.isKeyword .asKw = false) :
    Takes (castChain g (signed (suffixed g))) (wrapped x.render ++ after) after
      (·.shape = x.shape) := by
  have hsuffixed := suffixed_end (primary_wrapped hx hpx hne) hsuffix
  rw [Token.wrapped_append] at hsuffixed ⊢
  exact castChain_none (signed_none rfl hsuffixed) hcast

theorem expression_binary (op : BinaryOp) (hl : l.Printable) (hr : r.Printable)
    (hpl : Parses g.expr l) (hpr : Parses g.expr r) (h : Closing after) :
    Takes (expression g) ((ExprKind.binary op l r).render ++ after) after
      fun e => e.kind.shape = (ExprKind.binary op l r).shape := by
  obtain ⟨looser, tighter, hall, htighter⟩ := op.precedence_split
  have hline : op.kind.token.kind.isNewline = false := by cases op <;> rfl
  have hleft := castChain_wrapped hl hpl (List.cons_ne_nil _ _)
    (unsuffixed_operator (g := g) op (r.render ++ Mark.rightParen.token :: after)) fun c hc => by
      rw [Cursor.kind_of_rest hc]
      cases op <;> rfl
  have hright := castChain_wrapped hr hpr h.ne_nil (unsuffixed_of_closing h)
    fun c hc => h.test_eq_false hc rfl
  rw [Token.wrapped_append] at hright
  rw [expression, hall, ExprKind.render, List.append_assoc, List.cons_append,
    Token.wrapped_append r.render]
  refine binary_append (chain_one (binary_lift hleft fun c hc op' hop => ?_) op.ofToken?_kind hline
    rfl (binary_lift hright fun c hc op' hop => ?_) h ?_ fun e f y he hf hy => ?_) h
  · rw [BinaryOp.at?, Cursor.kind_of_rest hc, hline] at hop
    obtain rfl : op = op' := Option.some.inj (op.ofToken?_kind.symm.trans hop)
    exact htighter
  · rw [h.at?_eq_none hc] at hop
    cases hop
  · simp
    omega
  · rw [hy, ExprKind.shape_binary, ExprKind.shape_binary, he, hf]

theorem expression_unary (op : UnaryOp) (hx : x.Printable) (hpx : Parses g.expr x)
    (h : Closing after) :
    Takes (expression g) ((ExprKind.unary op x).render ++ after) after
      fun e => e.kind.shape = (ExprKind.unary op x).shape := by
  have hoperand := suffixed_end (primary_wrapped hx hpx h.ne_nil) (unsuffixed_of_closing h)
  rw [ExprKind.render, List.cons_append]
  rw [Token.wrapped_append] at hoperand ⊢
  refine expression_of_castChain (castChain_none (signed_one op.ofToken?_kind rfl hoperand
    fun e f he hf => ?_) fun c hc => h.test_eq_false hc rfl) h
  rw [hf, ExprKind.shape_unary, ExprKind.shape_unary, he]

theorem expression_cast (n : String) (safe : Bool) (hx : x.Printable) (hpx : Parses g.expr x)
    (h : Closing after) :
    Takes (expression g) ((ExprKind.cast x (TypeRef.simple n) safe).render ++ after) after
      fun e => e.kind.shape = (ExprKind.cast x (TypeRef.simple n) safe).shape := by
  have hsuffix (rest : List Token) : Unsuffixed g ((TokenKind.keyword .asKw).token :: rest) :=
    unsuffixed_of_kind fun c hc => by
      rw [Cursor.kind_of_rest (Cursor.rest_pastNewlines rfl hc), Cursor.kind_of_rest hc]
      exact ⟨rfl, rfl⟩
  have hoperand := suffixed_end (primary_wrapped hx hpx (List.cons_ne_nil _ _)) (hsuffix
    ((if safe then [Mark.question.token] else []) ++ .named n :: after))
  rw [Token.wrapped_append] at hoperand
  rw [ExprKind.render, List.append_assoc, List.cons_append, List.append_assoc, Token.wrapped_append]
  refine expression_of_castChain (castChain_one (signed_none rfl hoperand) h h.ne_nil
    fun e f he hf => ?_) h
  rw [hf, ExprKind.shape_cast, ExprKind.shape_cast, he]

/-- A part in parentheses with one suffix. -/
theorem expression_suffix {suffixTokens : List Token} {Q : Expr → Prop} (hx : x.Printable)
    (hpx : Parses g.expr x) (h : Closing after) (hshort : after.length < suffixTokens.length)
    (hone : ∀ e, e.shape = x.shape →
      Takes (suffix g e) suffixTokens after fun o => ∃ f, o = some f ∧ Q f) :
    Takes (expression g) (wrapped x.render ++ suffixTokens) after Q := by
  have hprimary := primary_wrapped hx hpx (List.ne_nil_of_length_pos (Nat.zero_lt_of_lt hshort))
  rw [Token.wrapped_append] at hprimary ⊢
  exact expression_of_suffixed rfl
    (suffixed_one hprimary hone hshort (unsuffixed_of_closing h)) h

theorem expression_member (n : String) (span : Span) (safe : Bool) (hx : x.Printable)
    (hpx : Parses g.expr x) (h : Closing after) :
    Takes (expression g) ((ExprKind.member x n span safe).render ++ after) after
      fun e => e.kind.shape = (ExprKind.member x n span safe).shape := by
  rw [ExprKind.render, List.append_assoc]
  refine expression_suffix hx hpx h (by simp only [List.length_append, List.length_cons]; omega) fun e he => ?_
  refine (suffix_member e n safe h.ne_nil).mono ?_
  rintro _ ⟨f, rfl, nameSpan, hf⟩
  refine ⟨f, rfl, ?_⟩
  rw [hf, ExprKind.shape_member, ExprKind.shape_member, he]

theorem expression_notNull (hx : x.Printable) (hpx : Parses g.expr x) (h : Closing after) :
    Takes (expression g) ((ExprKind.notNull x).render ++ after) after
      fun e => e.kind.shape = (ExprKind.notNull x).shape := by
  rw [ExprKind.render, List.append_assoc]
  refine expression_suffix hx hpx h (Nat.lt_succ_self _) fun e he => ?_
  refine (suffix_notNull e h.ne_nil).mono ?_
  rintro _ ⟨f, rfl, hf⟩
  refine ⟨f, rfl, ?_⟩
  rw [hf, ExprKind.shape_notNull, ExprKind.shape_notNull, he]

theorem expression_call {args : List Argument} (hx : x.Printable) (hpx : Parses g.expr x)
    (hargs : ∀ a ∈ args, ParsesWrapped g.expr a.value) (h : Closing after) :
    Takes (expression g) ((ExprKind.call x [] args).render ++ after) after
      fun e => e.kind.shape = (ExprKind.call x [] args).shape := by
  rw [ExprKind.render, Argument.renders_eq_map, List.append_assoc]
  refine expression_suffix hx hpx h (by simp [wrapped]; omega) fun e he => ?_
  refine (suffix_call e hargs h).mono ?_
  rintro _ ⟨f, rfl, read, hf, hread⟩
  refine ⟨f, rfl, ?_⟩
  rw [hf, ExprKind.shape_call, ExprKind.shape_call, he, hread]

theorem expression_index {indices : List Expr} (hx : x.Printable) (hpx : Parses g.expr x)
    (hne : indices ≠ []) (hindices : ∀ i ∈ indices, ParsesWrapped g.expr i) (h : Closing after) :
    Takes (expression g) ((ExprKind.index x indices).render ++ after) after
      fun e => e.kind.shape = (ExprKind.index x indices).shape := by
  have hrender : (ExprKind.index x indices).render ++ after = wrapped x.render ++
      Mark.leftBracket.token :: (joined (.mark .comma)
        (indices.map fun i => wrapped i.render) ++ Mark.rightBracket.token :: after) := by
    simp [ExprKind.render, Function.comp_def]
  rw [hrender]
  refine expression_suffix hx hpx h (by simp; omega) fun e he => ?_
  refine (suffix_index e hne hindices h.ne_nil).mono ?_
  rintro _ ⟨f, rfl, read, hf, hread⟩
  refine ⟨f, rfl, ?_⟩
  rw [hf, ExprKind.shape_index, ExprKind.shape_index, he, hread]

/-- A primary alone. -/
theorem expression_primary {t : Token} {ts : List Token} {Q : Expr → Prop}
    (ht : UnaryOp.ofToken? t.kind = none) (hp : Takes (primary g) (t :: ts) after Q)
    (h : Closing after) : Takes (expression g) (t :: ts) after Q :=
  expression_of_suffixed ht (suffixed_end hp (unsuffixed_of_closing h)) h

theorem parsesWrapped (hx : x.Printable) (hpx : Parses g.expr x) :
    ParsesWrapped (expression g) x := by
  intro after h
  have hprimary := primary_wrapped hx hpx h.ne_nil
  rw [Token.wrapped_append] at hprimary ⊢
  exact expression_primary rfl hprimary h

end

end Takes

/-! ## All printed expressions -/

/-- What is printed of an expression is read with parts that are nested no deeper than it has
tokens. -/
def ParsesDeep (e : Expr) : Prop :=
  ∀ n, Token.listWeight e.render ≤ n → Parses (expression (Grammar.ofDepth n)) e

namespace ParsesDeep

variable {e : Expr} {n : ℕ} (h : ParsesDeep e)

include h

theorem parses (hn : Token.listWeight e.render < n) : Parses (Grammar.ofDepth n).expr e := by
  cases n with
  | zero => exact absurd hn (Nat.not_lt_zero _)
  | succ m => exact h m (Nat.le_of_lt_succ hn)

theorem parsesWrapped (hprint : e.Printable) (hn : Token.listWeight e.render + 1 < n) :
    ParsesWrapped (Grammar.ofDepth n).expr e := by
  cases n with
  | zero => exact absurd hn (Nat.not_lt_zero _)
  | succ m => exact Takes.parsesWrapped hprint (h.parses (Nat.lt_of_succ_lt_succ hn))

end ParsesDeep

theorem parsesDeep_of_kind {id : ExprId} {span : Span} {kind : ExprKind}
    (h : ∀ n t ts, t.kind = .mark .rightParen ∨ t.kind = .eof → Token.listWeight kind.render ≤ n →
      Takes (expression (Grammar.ofDepth n)) (kind.render ++ t :: ts) (t :: ts)
        fun e => e.kind.shape = kind.shape) : ParsesDeep ⟨id, span, kind⟩ :=
  fun n hn t ts ht => (h n t ts ht hn).mono fun _ he => Expr.shape_eq_shape.2 he

theorem closing_of_kind {t : Token} {ts : List Token}
    (ht : t.kind = .mark .rightParen ∨ t.kind = .eof) : Closing (t :: ts) :=
  .token (by rcases ht with ht | ht <;> simp [ht, TokenKind.ends])

theorem parsesDeep {e : Expr} (h : e.Printable) : ParsesDeep e := by
  induction h with
  | literal value =>
    refine parsesDeep_of_kind fun n t ts ht _ => ?_
    refine Takes.expression_primary ?_ ((Takes.primary_literal value (List.cons_ne_nil t ts)).mono
      fun e he => congrArg ExprKind.shape he) (closing_of_kind ht)
    cases value with
    | bool b => cases b <;> rfl
    | _ => rfl
  | name x =>
    refine parsesDeep_of_kind fun n t ts ht _ => ?_
    exact Takes.expression_primary rfl ((Takes.primary_name x (List.cons_ne_nil t ts)).mono
      fun e he => congrArg ExprKind.shape he) (closing_of_kind ht)
  | this =>
    refine parsesDeep_of_kind fun n t ts ht _ => ?_
    exact Takes.expression_primary rfl ((Takes.primary_this (List.cons_ne_nil t ts)).mono
      fun e he => congrArg ExprKind.shape he) (closing_of_kind ht)
  | member x nameSpan safe hr ih =>
    refine parsesDeep_of_kind fun n t ts ht hn => ?_
    rw [ExprKind.render, Token.listWeight_append, Token.listWeight_wrapped] at hn
    exact Takes.expression_member x nameSpan safe hr (ih.parses (by omega)) (closing_of_kind ht)
  | call hc hargs ihc ihargs =>
    rename_i args
    refine parsesDeep_of_kind fun n t ts ht hn => ?_
    rw [ExprKind.render, Argument.renders_eq_map, Token.listWeight_append, Token.listWeight_wrapped,
      Token.listWeight_wrapped] at hn
    refine Takes.expression_call hc (ihc.parses (by omega)) (fun a ha => ?_) (closing_of_kind ht)
    have hweight := Token.listWeight_le_joined (.mark .comma)
      (List.mem_map_of_mem ha (f := Argument.render))
    rw [Argument.render, Token.listWeight_append, Token.listWeight_wrapped] at hweight
    exact (ihargs a ha).parsesWrapped (hargs a ha) (by omega)
  | index hr hne hindices ihr ihindices =>
    refine parsesDeep_of_kind fun n t ts ht hn => ?_
    simp only [ExprKind.render, Expr.renders_eq_map, Token.listWeight_append, Token.listWeight,
      Token.listWeight_wrapped] at hn
    refine Takes.expression_index hr (ihr.parses (by omega)) hne (fun i hi => ?_)
      (closing_of_kind ht)
    have hweight := Token.listWeight_le_joined (.mark .comma)
      (List.mem_map_of_mem (List.mem_map_of_mem hi (f := Expr.render)) (f := wrapped))
    rw [Token.listWeight_wrapped] at hweight
    exact (ihindices i hi).parsesWrapped (hindices i hi) (by omega)
  | binary op hl hr ihl ihr =>
    refine parsesDeep_of_kind fun n t ts ht hn => ?_
    rw [ExprKind.render, Token.listWeight_append, Token.listWeight, Token.listWeight_wrapped,
      Token.listWeight_wrapped] at hn
    exact Takes.expression_binary op hl hr (ihl.parses (by omega)) (ihr.parses (by omega))
      (closing_of_kind ht)
  | unary op hx ih =>
    refine parsesDeep_of_kind fun n t ts ht hn => ?_
    rw [ExprKind.render, Token.listWeight, Token.listWeight_wrapped] at hn
    exact Takes.expression_unary op hx (ih.parses (by omega)) (closing_of_kind ht)
  | notNull hx ih =>
    refine parsesDeep_of_kind fun n t ts ht hn => ?_
    rw [ExprKind.render, Token.listWeight_append, Token.listWeight_wrapped] at hn
    exact Takes.expression_notNull hx (ih.parses (by omega)) (closing_of_kind ht)
  | cast x safe hx ih =>
    refine parsesDeep_of_kind fun n t ts ht hn => ?_
    rw [ExprKind.render, Token.listWeight_append, Token.listWeight_wrapped] at hn
    exact Takes.expression_cast x safe hx (ih.parses (by omega)) (closing_of_kind ht)
  | ifElse hc ht ho ihc iht iho =>
    refine parsesDeep_of_kind fun n u us hu hn => ?_
    simp only [ExprKind.render, Token.listWeight_append, Token.listWeight,
      Token.listWeight_wrapped] at hn
    refine Takes.expression_primary rfl (Takes.ofCursor fun d hd => ?_) (closing_of_kind hu)
    obtain ⟨here, ahead, last⟩ := d
    obtain ⟨rfl, -⟩ := List.cons.inj hd
    refine Takes.ifElse_render (ihc.parsesWrapped hc (by omega))
      (iht.parsesWrapped ht (by omega)) (fun e he => ?_) hu
    subst he
    rw [Expr.renderElse, Token.listWeight, Token.listWeight_wrapped] at hn
    exact (iho e rfl).parsesWrapped (ho e rfl) (by omega)
  | template hparts ih =>
    refine parsesDeep_of_kind fun n t ts ht hn => ?_
    simp only [ExprKind.render, Expr.renders_eq_map, Token.listWeight, TokenKind.token,
      Token.weight, TokenKind.weight] at hn
    refine Takes.expression_primary rfl (Takes.primary_template hparts (fun p hp => ?_)
      (List.cons_ne_nil t ts)) (closing_of_kind ht)
    have hweight := Token.listWeight_le_partsWeight (List.mem_map_of_mem
      (List.mem_map_of_mem hp (f := Expr.render)) (f := (· ++ [TokenKind.eof.token])))
    rw [Token.listWeight_append] at hweight
    exact (ih p hp).parses (by simp only [TokenKind.token] at hweight; omega)
  | lambda htypes hes ih =>
    rename_i params it bodySpan es
    refine parsesDeep_of_kind fun n t ts ht hn => ?_
    have hrender : (ExprKind.lambda params it ⟨es.map Stmt.expr, bodySpan⟩).render =
        Mark.leftBrace.token :: (LambdaParam.render params ++ (joined .newline
          (es.map fun e => wrapped e.render) ++ [Mark.rightBrace.token])) := by
      rw [ExprKind.render, Block.render, Stmt.renders_map_expr]
    rw [hrender] at hn ⊢
    simp only [Token.listWeight_append, Token.listWeight] at hn
    simp only [List.cons_append, List.append_assoc, List.nil_append]
    refine Takes.expression_primary rfl (Takes.ofCursor fun d hd => ?_) (closing_of_kind ht)
    obtain ⟨here, ahead, last⟩ := d
    obtain ⟨rfl, -⟩ := List.cons.inj hd
    refine Takes.lambda_render htypes (fun after hafter => ?_) it bodySpan (List.cons_ne_nil t ts)
    cases n with
    | zero => simp [Mark.token, TokenKind.token, Token.weight] at hn
    | succ m =>
      refine Takes.statements_render (fun e he => ?_) hafter
      have hweight := Token.listWeight_le_joined .newline
        (List.mem_map_of_mem he (f := fun e : Expr => wrapped e.render))
      rw [Token.listWeight_wrapped] at hweight
      exact Takes.parsesWrapped (hes e he) ((ih e he).parses (by omega))

end Parser

/-! ## Tokens at any places -/

/-- Without places, a token does not tell whether it is the last. -/
theorem Token.bareAll_eq_map (ts : List Token) :
    relocateAll .bare ts = ts.map (relocate .bare false) := by
  induction ts with
  | nil => rw [relocateAll, List.map_nil]
  | cons t ts ih =>
    rw [relocateAll, ih, List.map_cons]
    obtain ⟨kind, span⟩ := t
    rw [relocate, relocate]
    split <;> rfl

theorem Cursor.rest_bare (c : Cursor) :
    (c.relocate .bare).rest = c.rest.map (Token.relocate .bare false) := by
  rw [← Token.bareAll_eq_map, rest, rest, Token.relocateAll]
  rfl

namespace Parser

/-- Parsing undoes printing. From tokens which, but for their places, are those of a printed
expression and an end, the expression is read, up to ids and spans, and nothing but the end is
left. -/
theorem expression_render {e : Expr} (h : e.Printable) {ts : List Token} {last : Token}
    (hts : Token.relocateAll .bare ts = e.render) (hlast : last.kind = .eof) {n : ℕ}
    (hn : Token.listWeight ts ≤ n) {s : ParseState} (hs : s.cursor.rest = ts ++ [last]) :
    ∃ e' t, expression (Grammar.ofDepth n) s = .done e' t ∧ t.cursor.rest = [last] ∧
      e'.shape = e.shape := by
  have hweight : Token.listWeight e.render ≤ n := by
    rwa [← hts, Token.listWeight_relocateAll]
  have hrest : (s.relocate .bare).cursor.rest = e.render ++ [last.relocate .bare false] := by
    rw [← hts, Token.bareAll_eq_map]
    refine (s.cursor.rest_bare).trans ?_
    rw [hs, List.map_append]
    rfl
  obtain ⟨f, u, hd, hu, hf⟩ := parsesDeep h n hweight (last.relocate .bare false) []
    (.inr (by rw [Token.kind_relocate, hlast]; rfl)) _ hrest
  have hfollows := Follows.expression (r := .bare) (Grammar.ofDepth n) s
  rw [Follows, hd] at hfollows
  cases hdone : expression (Grammar.ofDepth n) s with
  | failed t =>
    rw [hdone] at hfollows
    cases hfollows
  | done e' t =>
    rw [hdone] at hfollows
    obtain ⟨rfl, rfl⟩ := Outcome.done.inj hfollows
    refine ⟨e', t, rfl, ?_, ?_⟩
    · -- what is left is a part of what was there, and as long as an end
      have hforward : Forward (expression (Grammar.ofDepth n)) := inferInstance
      have hsuffix := (hforward.reaches_of_done hdone).rest_suffix
      have hlength : t.cursor.rest.length = 1 := by
        have := congrArg List.length ((t.cursor.rest_bare).symm.trans hu)
        simpa using this
      obtain ⟨before, hbefore⟩ := hsuffix
      rw [hs] at hbefore
      exact (List.append_inj' hbefore (by simpa using hlength)).2
    · rwa [Expr.shape_respan] at hf

end Parser

/-- The expression `a < f(this, n = { x -> x })`. -/
def comparison : Expr :=
  let expr (kind : ExprKind) : Expr := ⟨0, ⟨0, 0⟩, kind⟩
  let body : Block := ⟨[expr (.name "x")].map Stmt.expr, ⟨0, 0⟩⟩
  expr (.binary .less (expr (.name "a")) (expr (.call (expr (.name "f")) []
    [⟨none, expr .this⟩, ⟨some "n", expr (.lambda [⟨0, "x", none⟩] 0 body)⟩])))

theorem comparison_printable : comparison.Printable := by
  refine .binary _ (.name _) (.call (.name _) fun a ha => ?_)
  rcases List.mem_cons.1 ha with rfl | ha
  · exact .this
  · rw [List.mem_singleton.1 ha]
    refine .lambda (fun p hp => ?_) fun e he => ?_
    · rw [List.mem_singleton.1 hp]
    · rw [List.mem_singleton.1 he]
      exact .name _

/-- The comparison is read from its tokens, and nothing of them is left. -/
theorem Parser.expression_render_comparison : ∃ e t,
    Parser.expression (Grammar.ofDepth 40)
        (SourceUnit.start (comparison.render ++ [TokenKind.eof.token])) = .done e t ∧
      t.cursor.rest = [TokenKind.eof.token] ∧ e.shape = comparison.shape :=
  Parser.expression_render comparison_printable (show Token.relocateAll .bare comparison.render = _
    from rfl) (show TokenKind.eof.token.kind = _ from rfl) (by decide) rfl

end FrameCheck
