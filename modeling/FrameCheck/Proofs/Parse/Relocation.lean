import FrameCheck.Proofs.Parse.Outcomes
import FrameCheck.Proofs.Token.Relocation
import FrameCheck.Proofs.Tree.Respan
import Mathlib.Data.List.Basic

/-!
# Parsing tokens at other places

A parser decides by the kinds of tokens alone, and makes spans by joining those of tokens
that are no ends. So from relocated tokens it makes the relocated tree, leaves the relocated
cursor, and fails where it failed before (`Parser.Follows`).

An end of tokens has no span that a relocation could follow. A rule that starts with the span
of its first token therefore needs to know that this is no end, or fails there.

* `Follows.next`, `Follows.loop`, `Follows.attempt` : the rules for combined parsers.
* `Follows.expression` : expressions.
-/

namespace FrameCheck

/-- The outcome at other places, with its value changed by `g`. -/
def Outcome.relocate {α β : Type} (r : Relocation) (g : α → β) : Outcome α → Outcome β
  | .done a s => .done (g a) (s.relocate r)
  | .failed s => .failed (s.relocate r)

namespace Parser

variable {α β γ δ σ σ' : Type} {r : Relocation}

/-- From the state `s` at other places `p'` comes to where `p` comes from `s`, with the value
changed by `g`. -/
def Follows (r : Relocation) (g : α → β) (p : Parser α) (p' : Parser β) (s : ParseState) : Prop :=
  p' (s.relocate r) = (p s).relocate r g

/-- A round of a loop, with its state and its result changed. -/
@[simp] def Round.map (state : σ → σ') (g : α → β) : Round σ α → Round σ' β
  | .next a => .next (state a)
  | .stop b => .stop (g b)

theorem bind_failed {p : Parser α} {f : α → Parser β} {s t : ParseState} (h : p s = .failed t) :
    (p >>= f) s = .failed t := by
  show (match p s with | .done a t => f a t | .failed t => .failed t) = _
  rw [h]

namespace Follows

variable {g : α → β} {p : Parser α} {p' : Parser β} {s : ParseState}

/-! ### Combined parsers -/

theorem done {a : α} {b : β} (h : b = g a) : Follows r g (pure a) (pure b) s := by
  subst h
  rfl

theorem fail : Follows r g Parser.fail Parser.fail s := rfl

theorem next {f : α → Parser γ} {f' : β → Parser δ} {h : γ → δ} (hp : Follows r g p p' s)
    (hf : ∀ a t, p s = .done a t → Follows r h (f a) (f' (g a)) t) :
    Follows r h (p >>= f) (p' >>= f') s := by
  show (match p' (s.relocate r) with | .done a t => f' a t | .failed t => .failed t) =
    Outcome.relocate r h (match p s with | .done a t => f a t | .failed t => .failed t)
  rw [show p' (s.relocate r) = (p s).relocate r g from hp]
  cases hs : p s with
  | done a t => exact hf a t hs
  | failed t => rfl

/-- A parser whose value holds no span, and then one that goes on. -/
theorem same {p p' : Parser α} {f : α → Parser γ} {f' : α → Parser δ} {h : γ → δ}
    (hp : Follows r id p p' s)
    (hf : ∀ a t, p s = .done a t → Follows r h (f a) (f' a) t) :
    Follows r h (p >>= f) (p' >>= f') s :=
  next hp hf

theorem map {f : α → γ} {f' : β → δ} {h : γ → δ} (hp : Follows r g p p' s)
    (hf : ∀ a, f' (g a) = h (f a)) : Follows r h (f <$> p) (f' <$> p') s :=
  next hp fun a _ _ => done (hf a)

theorem ite {c c' : Prop} [Decidable c] [Decidable c'] {q : Parser α} {q' : Parser β}
    (hc : c' = c) (h : c → Follows r g p p' s) (h' : ¬c → Follows r g q q' s) :
    Follows r g (if c then p else q) (if c' then p' else q') s :=
  rel_ite (R := fun p p' => Follows r g p p' s) hc.to_iff h h'

theorem attempt (hp : Follows r g p p' s) :
    Follows r (Option.map g) (attempt p) (attempt p') s := by
  unfold Follows Parser.attempt
  rw [show p' (s.relocate r) = (p s).relocate r g from hp]
  cases p s <;> rfl

/-- Other tokens, at their other places. -/
theorem within {tokens tokens' : List Token}
    (ht : Cursor.ofTokens tokens' = (Cursor.ofTokens tokens).relocate r)
    (hp : Follows r g p p' { s with cursor := Cursor.ofTokens tokens }) :
    Follows r g (within tokens p) (within tokens' p') s := by
  have h : p' { s.relocate r with cursor := Cursor.ofTokens tokens' }
      = (p { s with cursor := Cursor.ofTokens tokens }).relocate r g := by
    rw [ht]
    exact hp
  unfold Follows Parser.within
  rw [h]
  cases p { s with cursor := Cursor.ofTokens tokens } <;> rfl

theorem rounds {step : σ → Parser (Round σ α)} {step' : σ' → Parser (Round σ' β)}
    {state : σ → σ'}
    (h : ∀ a s, Follows r (Round.map state g) (step a) (step' (state a)) s) :
    ∀ n a s, Follows r g (rounds step n a) (rounds step' n (state a)) s
  | 0, _, _ => fail
  | n + 1, a, s => by
    refine next (h a s) fun round t _ => ?_
    cases round with
    | next b => exact rounds h n b t
    | stop b => exact done rfl

/-- A loop follows if each of its rounds does. -/
theorem loop (state : σ → σ') (g : α → β) {step : σ → Parser (Round σ α)}
    {step' : σ' → Parser (Round σ' β)}
    (h : ∀ a s, Follows r (Round.map state g) (step a) (step' (state a)) s) (start : σ)
    (s : ParseState) : Follows r g (loop step start) (loop step' (state start)) s := by
  have hn : (s.relocate r).cursor.ahead.length = s.cursor.ahead.length :=
    s.cursor.length_ahead_relocate r
  unfold Follows Parser.loop
  rw [hn]
  exact rounds h _ start s

theorem foldlM {step : β → α → Parser β} {step' : γ → δ → Parser γ} (state : β → γ)
    (item : α → δ) (h : ∀ b a s, Follows r state (step b a) (step' (state b) (item a)) s) :
    ∀ (l : List α) (b : β) (s : ParseState),
      Follows r state (l.foldlM step b) ((l.map item).foldlM step' (state b)) s
  | [], _, _ => done rfl
  | a :: l, b, s => by
    rw [List.map_cons, List.foldlM_cons, List.foldlM_cons]
    exact next (h b a s) fun b' t _ => foldlM state item h l b' t

theorem mapM {f : α → Parser γ} {f' : β → Parser δ} {made : γ → δ} (item : α → β)
    (h : ∀ a s, Follows r made (f a) (f' (item a)) s) :
    ∀ (l : List α) (s : ParseState),
      Follows r (List.map made) (l.mapM f) ((l.map item).mapM f') s
  | [], _ => done rfl
  | a :: l, s => by
    rw [List.map_cons, List.mapM_cons, List.mapM_cons]
    refine next (h a s) fun b t _ => next (mapM item h l t) fun bs t _ => done ?_
    rw [List.map_cons]

/-! ### Places and ids -/

variable (s)

theorem cursor : Follows r (Cursor.relocate r) cursor cursor s := rfl

theorem moveTo (c : Cursor) : Follows r id (moveTo c) (moveTo (c.relocate r)) s := rfl

theorem kind : Follows r (TokenKind.relocate r) kind kind s :=
  congrArg (Outcome.done · _) (s.cursor.kind_relocate r)

theorem lastSpan : Follows r r.span lastSpan lastSpan s := rfl

theorem advance : Follows r (Token.relocate r s.cursor.ahead.isEmpty) advance advance s := by
  unfold Follows Parser.advance Outcome.relocate ParseState.relocate
  rw [Cursor.advance_relocate]
  rfl

theorem skipWhile {skipped : TokenKind → Bool}
    (h : ∀ k, skipped (k.relocate r) = skipped k) :
    Follows r id (fun s => .done () { s with cursor := s.cursor.skipWhile skipped })
      (fun s => .done () { s with cursor := s.cursor.skipWhile skipped }) s :=
  congrArg (fun c => Outcome.done () ⟨c, s.nextExpr, s.nextDecl, s.skipped.map r.span⟩)
    (s.cursor.skipWhile_relocate r h)

theorem skipNewlines : Follows r id skipNewlines skipNewlines s :=
  skipWhile s fun k => k.isNewline_relocate r

theorem skipSeparators : Follows r id skipSeparators skipSeparators s :=
  skipWhile s fun k => k.isSeparator_relocate r

theorem newDecl : Follows r id newDecl newDecl s := rfl

theorem newExpr {span span' : Span} {kind kind' : ExprKind} (hs : span' = r.span span)
    (hk : kind' = kind.respan r.span) :
    Follows r (Expr.respan r.span) (newExpr span kind) (newExpr span' kind') s := by
  subst hs hk
  show Outcome.done _ _ = Outcome.done (Expr.respan r.span ⟨s.nextExpr, span, kind⟩) _
  rw [Expr.respan]
  rfl

variable {s}

/-- A token that is no end. -/
theorem advance_of (h : s.cursor.kind.isEof = false) :
    Follows r (Token.relocate r false) Parser.advance Parser.advance s := by
  have ht : s.cursor.here.relocate r s.cursor.ahead.isEmpty
      = s.cursor.here.relocate r false := by
    rcases hh : s.cursor.here with ⟨kind, span⟩
    have hk : kind.isEof = false := by
      rw [← h, Cursor.kind, hh]
    simp [Token.relocate, hk]
  have := advance (r := r) s
  unfold Follows at this ⊢
  rw [this]
  show Outcome.done _ _ = Outcome.done _ _
  rw [ht]

/-- The span of the token, of which nothing is known at an end. -/
theorem span_next {f f' : Span → Parser γ} {h : γ → γ}
    (hf : ∀ span, (s.cursor.kind.isEof = false → span = r.span s.cursor.here.span) →
      Follows r h (f s.cursor.here.span) (f' span) s) :
    Follows r h (Parser.span >>= f) (Parser.span >>= f') s :=
  hf _ fun hend => s.cursor.span_here_relocate r hend

variable (s)

theorem eatIf {test : TokenKind → Bool} (h : ∀ k, test (k.relocate r) = test k) :
    Follows r id (eatIf test) (eatIf test) s := by
  have hk : test (s.relocate r).cursor.kind = test s.cursor.kind := by
    rw [← h s.cursor.kind, ← s.cursor.kind_relocate r]
    rfl
  unfold Follows Parser.eatIf
  rw [hk]
  split
  · unfold Outcome.relocate ParseState.relocate
    rw [Cursor.advance_relocate]
    rfl
  · rfl

theorem eat (m : Mark) : Follows r id (eat m) (eat m) s :=
  eatIf s fun k => k.isMark_relocate r m

theorem eatKeyword (w : Keyword) : Follows r id (eatKeyword w) (eatKeyword w) s :=
  eatIf s fun k => k.isKeyword_relocate r w

theorem atMark (m : Mark) : Follows r id (atMark m) (atMark m) s := by
  have hk : (s.relocate r).cursor.kind.isMark m = s.cursor.kind.isMark m := by
    rw [← s.cursor.kind.isMark_relocate r m, ← s.cursor.kind_relocate r]
    rfl
  unfold Follows Parser.atMark
  rw [hk]
  rfl

theorem isEof_of_unary {k : TokenKind} {op : UnaryOp} (h : UnaryOp.ofToken? k = some op) :
    k.isEof = false := by
  cases k <;> first | rfl | exact nomatch h

theorem isEof_of_literal {k : TokenKind} {value : Literal}
    (h : Literal.ofToken? k = some value) : k.isEof = false := by
  cases k <;> first | rfl | exact nomatch h

theorem isEof_of_asName? {k : TokenKind} {name : String} (h : k.asName? = some name) :
    k.isEof = false := by
  cases k <;> first | rfl | exact nomatch h

theorem expect (m : Mark) : Follows r (Token.relocate r false) (expect m) (expect m) s := by
  have hk : (s.relocate r).cursor.kind.isMark m = s.cursor.kind.isMark m := by
    rw [← s.cursor.kind.isMark_relocate r m, ← s.cursor.kind_relocate r]
    rfl
  unfold Follows Parser.expect
  rw [hk]
  split
  · next h => exact advance_of (TokenKind.isEof_of_isMark h)
  · rfl

theorem expectName : Follows r (Prod.map id r.span) expectName expectName s := by
  refine next (advance s) fun token t ht => ?_
  simp only [Token.kind_relocate, TokenKind.asName?_relocate]
  cases h : token.kind.asName? with
  | none => exact fail
  | some name =>
    refine done (Prod.ext rfl (Token.span_relocate r ?_))
    rw [isEof_of_asName? h, Bool.and_false]

theorem orFail (o : Option α) : Follows r id (orFail o) (orFail o) s := by
  cases o
  · exact fail
  · exact done rfl

end Follows

end Parser

/-! ## Types -/

/-- The parsers for nested parts follow relocated tokens. At an end there is no expression. -/
class Grammar.Follows (g : Grammar) (r : Relocation) : Prop where
  type : ∀ s, Parser.Follows r id g.type g.type s
  expr : ∀ s, Parser.Follows r (Expr.respan r.span) g.expr g.expr s
  stmts : ∀ s, Parser.Follows r (List.map (Stmt.respan r.span)) g.stmts g.stmts s
  expr_eof : ∀ s, s.cursor.kind.isEof = true → g.expr s = .failed s

namespace Parser.Follows

variable {r : Relocation}

theorem typeSegments (name : String) (s : ParseState) :
    Follows r id (typeSegments name) (typeSegments name) s := by
  refine loop id id (fun name s => ?_) name s
  refine next (cursor s) fun c t _ => ite (by simp) (fun _ => ?_) fun _ => done rfl
  exact next (advance t) fun _ t _ => next (expectName t) fun (segment, _) t _ => done rfl

theorem skipVariance (s : ParseState) : Follows r id skipVariance skipVariance s := by
  refine next (cursor s) fun c t _ => ite (by simp) (fun _ => ?_) fun _ => done rfl
  exact next (advance t) fun _ _ _ => done rfl

variable (g : Grammar) [hg : g.Follows r]

theorem typeArgs (s : ParseState) : Follows r id (typeArgs g) (typeArgs g) s := by
  refine same (loop id id (fun args s => ?_) [] s) fun args t _ => ?_
  · refine same (skipVariance s) fun _ t _ => same (hg.type t) fun arg t _ => ?_
    exact same (eat t .comma) fun more t _ => ite rfl (fun _ => done rfl) fun _ => done rfl
  · exact next (expect t .greater) fun _ _ _ => done rfl

theorem typeRef (s : ParseState) : Follows r id (typeRef g) (typeRef g) s := by
  refine same (eat s .star) fun star t _ => ite rfl (fun _ => done rfl) fun _ => ?_
  refine next (expectName t) fun (first, _) t _ => same (typeSegments first t) fun name t _ => ?_
  refine same (eat t .less) fun more t _ => ?_
  extract_lets made
  have hmade (args t) : Follows r id (made args) (made args) t :=
    same (eat t .question) fun nullable t _ => done rfl
  exact ite rfl (fun _ => same (typeArgs g t) fun args t _ => hmade args t)
    fun _ => same (done rfl) fun args t _ => hmade args t

theorem callTypeArgs (s : ParseState) : Follows r id (callTypeArgs g) (callTypeArgs g) s := by
  refine next (cursor s) fun start t _ => ?_
  refine next (attempt (g := id) (next (advance t) fun _ t _ => ?_)) fun args t _ => ?_
  · refine loop id id (fun args s => ?_) [] t
    refine same (typeRef g s) fun arg t _ => same (eat t .comma) fun more t _ => ?_
    refine ite rfl (fun _ => done rfl) fun _ => next (expect t .greater) fun _ t _ => ?_
    exact next (kind t) fun k t _ => ite (by simp) (fun _ => done rfl) fun _ => fail
  · rw [Option.map_id]
    exact ite rfl (fun _ => same (moveTo t start) fun _ t _ => done rfl) fun _ => done rfl

/-! ## Expressions -/

/-! ### Operator chains -/

section

variable {operand : Parser Expr}
  (h : ∀ s, Follows r (Expr.respan r.span) operand operand s)

include h

theorem chain (p : Precedence) (s : ParseState) :
    Follows r (Expr.respan r.span) (chain p operand) (chain p operand) s := by
  refine next (h s) fun first t _ => loop (Expr.respan r.span) _ (fun left s => ?_) first t
  refine next (cursor s) fun c t _ => ?_
  rw [BinaryOp.at?_relocate]
  cases BinaryOp.at? c with
  | none => exact done rfl
  | some op =>
    refine ite rfl (fun _ => ?_) fun _ => done rfl
    refine same (skipNewlines t) fun _ t _ => next (advance t) fun _ t _ => ?_
    refine same (skipNewlines t) fun _ t _ => next (h t) fun right t _ => ?_
    refine next (newExpr t ?_ ?_) fun e t _ => done rfl
    · simp [Relocation.span_join]
    · simp [ExprKind.respan]

theorem binary : ∀ (ps : List Precedence) (s : ParseState),
    Follows r (Expr.respan r.span) (binary operand ps) (binary operand ps) s
  | [] => h
  | p :: tighter => chain (binary tighter) p

theorem signed (s : ParseState) :
    Follows r (Expr.respan r.span) (signed operand) (signed operand) s := by
  refine next (loop (List.map (Prod.map id r.span)) (List.map (Prod.map id r.span))
    (fun ops s => ?_) [] s) fun ops t _ => next (h t) fun inner t _ => ?_
  · refine next (kind s) fun k t hk => ?_
    cases hk
    rw [UnaryOp.ofToken?_relocate]
    cases hop : UnaryOp.ofToken? s.cursor.kind with
    | none => exact done rfl
    | some op => exact next (advance_of (isEof_of_unary hop)) fun token t _ => done (by simp)
  · refine foldlM (Expr.respan r.span) (Prod.map id r.span) (fun e (op, start) s => ?_) ops inner t
    exact newExpr s (by simp [Relocation.span_join]) (by simp [ExprKind.respan])

theorem castChain (g : Grammar) [g.Follows r] (s : ParseState) :
    Follows r (Expr.respan r.span) (castChain g operand) (castChain g operand) s := by
  refine next (h s) fun first t _ => loop (Expr.respan r.span) _ (fun e s => ?_) first t
  refine same (eatKeyword s .asKw) fun isCast t _ => ite rfl (fun _ => ?_) fun _ => done rfl
  refine same (eat t .question) fun safe t _ => same (typeRef g t) fun type t _ => ?_
  refine next (lastSpan t) fun last t _ => next (newExpr t ?_ ?_) fun e t _ => done rfl
  · simp [Relocation.span_join]
  · simp [ExprKind.respan]

end

/-! ### Calls and blocks -/

variable (g : Grammar) [hg : g.Follows r]

theorem argumentName (s : ParseState) : Follows r id argumentName argumentName s := by
  refine next (cursor s) fun c t _ => ?_
  simp only [Cursor.kind_relocate, TokenKind.plainName?_relocate]
  cases c.kind.plainName? with
  | none => exact done rfl
  | some name =>
    refine ite (by simp) (fun _ => ?_) fun _ => done rfl
    refine next (advance t) fun _ t _ => next (advance t) fun _ t _ => ?_
    exact same (skipNewlines t) fun _ t _ => done rfl

theorem arguments (s : ParseState) :
    Follows r (List.map (Argument.respan r.span)) (arguments g) (arguments g) s := by
  refine next (expect s .leftParen) fun _ t _ =>
    loop (List.map (Argument.respan r.span)) _ (fun args s => ?_) [] t
  refine same (skipNewlines s) fun _ t _ => same (eat t .rightParen) fun closed t _ => ?_
  refine ite rfl (fun _ => done rfl) fun _ => same (argumentName t) fun name t _ => ?_
  refine same (eat t .star) fun _ t _ => next (hg.expr t) fun value t _ => ?_
  refine same (skipNewlines t) fun _ t _ => same (eat t .comma) fun more t _ => ?_
  have hvalue : Argument.mk name (value.respan r.span)
      = (Argument.mk name value).respan r.span := by rw [Argument.respan]
  refine ite rfl (fun _ => done ?_) fun _ => ?_
  · simp [hvalue]
  · exact same (skipNewlines t) fun _ t _ => next (expect t .rightParen) fun _ t _ =>
      done (by simp [hvalue])

theorem block (s : ParseState) :
    Follows r (Block.respan r.span) (block g) (block g) s := by
  refine next (expect s .leftBrace) fun start t _ => next (hg.stmts t) fun stmts t _ => ?_
  exact next (lastSpan t) fun last t _ => done (by simp [Block.respan, Relocation.span_join])

theorem lambdaParams (s : ParseState) : Follows r id (lambdaParams g) (lambdaParams g) s := by
  refine next (cursor s) fun start t _ => ?_
  refine next (attempt (g := id) (same (skipNewlines t) fun _ t _ => ?_)) fun params t _ => ?_
  · refine loop id id (fun params s => ?_) [] t
    refine next (kind s) fun k t _ => ?_
    rw [TokenKind.plainName?_relocate]
    refine same (orFail t _) fun name t _ => next (advance t) fun _ t _ => ?_
    refine same (eat t .colon) fun typed t _ => ?_
    extract_lets declare
    have hdeclare (type t) : Follows r (Round.map id id) (declare type) (declare type) t :=
      same (newDecl t) fun decl t _ => same (eat t .comma) fun more t _ =>
        ite rfl (fun _ => done rfl) fun _ => next (expect t .arrow) fun _ t _ => done rfl
    refine ite rfl (fun _ => ?_) fun _ => same (done rfl) fun type t _ => hdeclare type t
    exact same (map (typeRef g t) fun _ => rfl) fun type t _ => hdeclare type t
  · rw [Option.map_id]
    cases params with
    | none => exact same (moveTo t start) fun _ t _ => done rfl
    | some params => exact done rfl

theorem lambda (s : ParseState) :
    Follows r (Expr.respan r.span) (lambda g) (lambda g) s := by
  refine next (expect s .leftBrace) fun start t _ => same (lambdaParams g t) fun params t _ => ?_
  refine same (newDecl t) fun it t _ => next (hg.stmts t) fun stmts t _ => ?_
  refine next (lastSpan t) fun last t _ => newExpr t ?_ ?_
  · simp [Relocation.span_join]
  · simp [ExprKind.respan, Block.respan, Relocation.span_join]

theorem call (callee : Expr) (typeArgs : List TypeRef) (s : ParseState) :
    Follows r (Expr.respan r.span) (call g callee typeArgs)
      (call g (callee.respan r.span) typeArgs) s := by
  refine same (atMark s .leftParen) fun paren t _ => ?_
  extract_lets made trailing made' trailing'
  have hmade (args t) : Follows r (Expr.respan r.span) (made args)
      (made' (args.map (Argument.respan r.span))) t :=
    next (lastSpan t) fun last t _ =>
      newExpr t (by simp [Relocation.span_join]) (by simp [ExprKind.respan])
  have htrailing (args t) : Follows r (Expr.respan r.span) (trailing args)
      (trailing' (args.map (Argument.respan r.span))) t := by
    refine same (atMark t .leftBrace) fun brace t _ => ite rfl (fun _ => ?_) fun _ => ?_
    · refine next (lambda g t) fun f t _ => ?_
      refine next (g := List.map (Argument.respan r.span)) (done ?_) fun args t _ => hmade args t
      simp [Argument.respan]
    · exact next (g := List.map (Argument.respan r.span)) (done rfl) fun args t _ => hmade args t
  refine ite rfl (fun _ => next (arguments g t) fun args t _ => htrailing args t) fun _ => ?_
  exact next (g := List.map (Argument.respan r.span)) (done rfl) fun args t _ => htrailing args t

/-! ### Suffixes -/

theorem memberOf (receiver : Expr) (s : ParseState) :
    Follows r (Expr.respan r.span) (memberOf receiver) (memberOf (receiver.respan r.span)) s := by
  refine same (skipNewlines s) fun _ t _ => next (advance t) fun access t _ => ?_
  refine next (expectName t) fun (name, nameSpan) t _ => newExpr t ?_ ?_
  · simp [Relocation.span_join]
  · simp [ExprKind.respan]

theorem indexOf (receiver : Expr) (s : ParseState) :
    Follows r (Expr.respan r.span) (indexOf g receiver) (indexOf g (receiver.respan r.span)) s := by
  refine next (advance s) fun _ t _ => next (loop (List.map (Expr.respan r.span))
    (List.map (Expr.respan r.span)) (fun indices s => ?_) [] t) fun indices t _ => ?_
  · refine same (skipNewlines s) fun _ t _ => next (hg.expr t) fun index t _ => ?_
    refine same (skipNewlines t) fun _ t _ => same (eat t .comma) fun more t _ => ?_
    exact ite rfl (fun _ => done (by simp)) fun _ => done (by simp)
  · refine next (expect t .rightBracket) fun _ t _ => next (lastSpan t) fun last t _ => ?_
    exact newExpr t (by simp [Relocation.span_join]) (by simp [ExprKind.respan])

theorem isCallable_respan (f : Span → Span) (k : ExprKind) :
    (k.respan f).isCallable = k.isCallable := by
  cases k <;> rfl

theorem suffix (e : Expr) (s : ParseState) :
    Follows r (Option.map (Expr.respan r.span)) (suffix g e) (suffix g (e.respan r.span)) s := by
  refine next (cursor s) fun c t _ => ?_
  have hcall (typeArgs t) : Follows r (Option.map (Expr.respan r.span))
      (some <$> Parser.call g e typeArgs) (some <$> Parser.call g (e.respan r.span) typeArgs) t :=
    map (call g e typeArgs t) fun _ => rfl
  refine ite (by simp) (fun _ => map (memberOf e t) fun _ => rfl) fun _ => ?_
  refine ite (by simp [isCallable_respan]) (fun _ => ?_) fun _ => ?_
  · refine same (callTypeArgs g t) fun typeArgs t _ => ?_
    cases typeArgs with
    | none => exact done rfl
    | some typeArgs => exact hcall typeArgs t
  refine ite (by simp [isCallable_respan]) (fun _ => hcall [] t) fun _ => ?_
  refine ite (by simp) (fun _ => map (indexOf g e t) fun _ => rfl) fun _ => ?_
  refine ite (by simp) (fun _ => ?_) fun _ => done rfl
  refine next (advance t) fun _ t _ => next (lastSpan t) fun last t _ => ?_
  refine map (newExpr t ?_ ?_) fun _ => rfl
  · simp [Relocation.span_join]
  · simp [ExprKind.respan]

/-! ### Branches -/

theorem branch (s : ParseState) : Follows r (Expr.respan r.span) (branch g) (branch g) s := by
  refine same (skipNewlines s) fun _ t _ => same (atMark t .leftBrace) fun braced t _ => ?_
  refine ite rfl (fun _ => next (block g t) fun b t _ => newExpr t ?_ ?_) fun _ => hg.expr t
  · simp
  · simp [ExprKind.respan]

theorem atElse (s : ParseState) : Follows r id atElse atElse s := by
  refine next (cursor s) fun c t _ => done ?_
  simp [Option.any_map]

theorem ifElse {s : ParseState} (h : s.cursor.kind.isEof = false) :
    Follows r (Expr.respan r.span) (ifElse g) (ifElse g) s := by
  refine next (advance_of h) fun start t _ => next (expect t .leftParen) fun _ t _ => ?_
  refine same (skipNewlines t) fun _ t _ => next (hg.expr t) fun condition t _ => ?_
  refine same (skipNewlines t) fun _ t _ => next (expect t .rightParen) fun _ t _ => ?_
  refine next (branch g t) fun thenBranch t _ => same (atElse t) fun more t _ => ?_
  extract_lets made made'
  have hmade (elseBranch t) : Follows r (Expr.respan r.span) (made elseBranch)
      (made' (elseBranch.map (Expr.respan r.span))) t :=
    next (lastSpan t) fun last t _ =>
      newExpr t (by simp [Relocation.span_join]) (by simp [ExprKind.respan])
  refine ite rfl (fun _ => ?_) fun _ => ?_
  · refine same (skipNewlines t) fun _ t _ => next (advance t) fun _ t _ => ?_
    exact next (map (branch g t) fun _ => rfl) fun elseBranch t _ => hmade elseBranch t
  · exact next (g := Option.map (Expr.respan r.span)) (done rfl) fun elseBranch t _ =>
      hmade elseBranch t

theorem whenSubject (s : ParseState) :
    Follows r (Expr.respan r.span) (whenSubject g) (whenSubject g) s := by
  refine same (skipNewlines s) fun _ t _ => same (eatKeyword t .valKw) fun named t _ => ?_
  extract_lets subject
  have hsubject (t) : Follows r (Expr.respan r.span) (subject ()) (subject ()) t :=
    next (hg.expr t) fun e t _ => same (skipNewlines t) fun _ t _ =>
      next (expect t .rightParen) fun _ t _ => done rfl
  refine ite rfl (fun _ => ?_) fun _ => hsubject t
  refine next (expectName t) fun _ t _ => same (eat t .colon) fun typed t _ => ?_
  refine ite rfl (fun _ => same (typeRef g t) fun _ t _ => ?_) fun _ => ?_
  all_goals exact next (expect t .equal) fun _ t _ => same (skipNewlines t) fun _ t _ => hsubject t

theorem whenCondition (s : ParseState) :
    Follows r (Option.map (Expr.respan r.span)) (whenCondition g) (whenCondition g) s := by
  refine next (cursor s) fun c t _ => ?_
  extract_lets condition
  have hcondition (t) : Follows r (Option.map (Expr.respan r.span)) (condition ())
      (condition ()) t := by
    refine same (eatIf t fun k => k.isName_relocate r _) fun isType t _ => ite rfl (fun _ => ?_)
      fun _ => ?_
    · exact same (typeRef g t) fun _ t _ => done rfl
    · exact same (eatIf t fun k => k.isName_relocate r _) fun _ t _ =>
        map (hg.expr t) fun _ => rfl
  exact ite (by simp) (fun _ => next (advance t) fun _ t _ => hcondition t) fun _ => hcondition t

theorem whenBranch (s : ParseState) :
    Follows r (WhenBranch.respan r.span) (whenBranch g) (whenBranch g) s := by
  refine same (eatKeyword s .elseKw) fun isElse t _ => ?_
  extract_lets arm
  have harm (conditions t) : Follows r (WhenBranch.respan r.span) (arm conditions)
      (arm (conditions.map (Expr.respan r.span))) t := by
    refine same (skipNewlines t) fun _ t _ => next (expect t .arrow) fun _ t _ => ?_
    exact next (branch g t) fun b t _ => done (by simp [WhenBranch.respan])
  refine ite rfl (fun _ => ?_) fun _ => ?_
  · exact next (g := List.map (Expr.respan r.span)) (done rfl) fun cs t _ => harm cs t
  refine next (loop (List.map (Expr.respan r.span)) (List.map (Expr.respan r.span))
    (fun cs s => ?_) [] t) fun cs t _ => harm cs t
  refine same (skipNewlines s) fun _ t _ => next (whenCondition g t) fun c t _ => ?_
  refine same (skipNewlines t) fun _ t _ => same (eat t .comma) fun more t _ => ?_
  have hcs : cs.map (Expr.respan r.span) ++ (c.map (Expr.respan r.span)).toList
      = (cs ++ c.toList).map (Expr.respan r.span) := by
    cases c <;> simp
  exact ite rfl (fun _ => done (by simp [hcs])) fun _ => done (by simp [hcs])

theorem whenOf {s : ParseState} (h : s.cursor.kind.isEof = false) :
    Follows r (Expr.respan r.span) (whenOf g) (whenOf g) s := by
  refine next (advance_of h) fun start t _ => same (eat t .leftParen) fun subjected t _ => ?_
  extract_lets branches branches'
  have hbranches (subject t) : Follows r (Expr.respan r.span) (branches subject)
      (branches' (subject.map (Expr.respan r.span))) t := by
    refine same (skipNewlines t) fun _ t _ => next (expect t .leftBrace) fun _ t _ => ?_
    refine next (loop (List.map (WhenBranch.respan r.span)) (List.map (WhenBranch.respan r.span))
      (fun bs s => ?_) [] t) fun bs t _ => next (lastSpan t) fun last t _ => newExpr t ?_ ?_
    · refine same (skipSeparators s) fun _ t _ => same (eat t .rightBrace) fun closed t _ => ?_
      refine ite rfl (fun _ => done rfl) fun _ => ?_
      exact next (whenBranch g t) fun b t _ => done (by simp)
    · simp [Relocation.span_join]
    · simp [ExprKind.respan]
  refine ite rfl (fun _ => ?_) fun _ => ?_
  · exact next (map (whenSubject g t) fun _ => rfl) fun subject t _ => hbranches subject t
  · exact next (g := Option.map (Expr.respan r.span)) (done rfl) fun subject t _ =>
      hbranches subject t

/-! ### Operands -/

omit hg in
/-- A template of no tokens but its end holds no expression. -/
theorem embedded_eof (hfail : ∀ s, s.cursor.kind.isEof = true → g.expr s = .failed s)
    {tokens : List Token} (h : (Cursor.ofTokens tokens).kind.isEof = true) (s : ParseState) :
    Parser.embedded g tokens s = .failed s := by
  have hbody (f : Expr → Parser Expr) (t : ParseState) (ht : t.cursor.kind.isEof = true) :
      (Parser.skipNewlines >>= fun _ => g.expr >>= f) t = .failed t := by
    have hskip : (Parser.skipNewlines >>= fun _ => g.expr >>= f) t
        = (g.expr >>= f) { t with cursor := t.cursor.pastNewlines } := rfl
    rw [hskip, Cursor.pastNewlines_of_isEof ht]
    exact bind_failed (hfail t ht)
  have hfailed := hbody (fun e => do
    Parser.skipNewlines
    if (← Parser.kind).isEof then return e else Parser.fail) { s with cursor := .ofTokens tokens } h
  exact (within_of_failed hfailed).trans rfl

theorem embedded (tokens : List Token) (s : ParseState) :
    Follows r (Expr.respan r.span) (embedded g tokens) (embedded g (Token.relocateAll r tokens))
      s := by
  cases h : (Cursor.ofTokens tokens).kind.isEof with
  | true =>
    unfold Follows
    have h' := (Cursor.isEof_ofTokens_relocateAll r tokens).trans h
    rw [embedded_eof g hg.expr_eof h, embedded_eof g hg.expr_eof h']
    rfl
  | false =>
    refine within (Cursor.ofTokens_relocateAll r h) (same (skipNewlines _) fun _ t _ => ?_)
    refine next (hg.expr t) fun e t _ => same (skipNewlines t) fun _ t _ => ?_
    exact next (kind t) fun k t _ => ite (by simp) (fun _ => done rfl) fun _ => fail

theorem parenthesized (s : ParseState) :
    Follows r (Expr.respan r.span) (parenthesized g) (parenthesized g) s := by
  refine next (advance s) fun _ t _ => same (skipNewlines t) fun _ t _ => ?_
  refine next (hg.expr t) fun inner t _ => same (skipNewlines t) fun _ t _ => ?_
  exact next (expect t .rightParen) fun _ t _ => done rfl

theorem primary (s : ParseState) : Follows r (Expr.respan r.span) (primary g) (primary g) s := by
  refine next (cursor s) fun c t hc => ?_
  cases hc
  extract_lets token token'
  have hkind : token'.kind = token.kind.relocate r := Token.kind_relocate r _ _
  have hspan (h : token.kind.isEof = false) : token'.span = r.span token.span :=
    Cursor.span_here_relocate r h
  rw [hkind, Literal.ofToken?_relocate, TokenKind.asName?_relocate]
  cases hvalue : Literal.ofToken? token.kind with
  | some value =>
    exact next (advance s) fun _ t _ =>
      newExpr t (hspan (isEof_of_literal hvalue)) (by simp [ExprKind.respan])
  | none =>
    cases hname : token.kind.asName? with
    | some name =>
      exact next (advance s) fun _ t _ =>
        newExpr t (hspan (isEof_of_asName? hname)) (by simp [ExprKind.respan])
    | none =>
      rcases token.kind.relocate_cases r with ⟨parts, hk⟩ | ⟨hk, hplain⟩
      · have hend : token.kind.isEof = false := by rw [hk]; rfl
        rw [hk, TokenKind.relocate, Token.relocateParts_eq_map]
        refine next (advance s) fun _ t _ => ?_
        refine next (mapM _ (fun tokens s => embedded g tokens s) parts t) fun parts t _ => ?_
        exact newExpr t (hspan hend) (by simp [ExprKind.respan])
      · rw [hk]
        have hend {k : TokenKind} (h : token.kind = k) (hk : k.isEof = false) :
            token'.span = r.span token.span := hspan (h ▸ hk)
        dsimp only
        split
        · next h =>
          exact next (advance s) fun _ t _ => newExpr t (hend h rfl) (by simp [ExprKind.respan])
        · exact parenthesized g s
        · next h => exact absurd h (hplain _)
        · next h => exact ifElse g (show token.kind.isEof = false by rw [h]; rfl)
        · next h => exact whenOf g (show token.kind.isEof = false by rw [h]; rfl)
        · exact lambda g s
        · exact fail

/-- A primary with its suffixes. -/
theorem suffixed (s : ParseState) :
    Follows r (Expr.respan r.span) (suffixed g) (suffixed g) s := by
  refine next (primary g s) fun first t _ => loop (Expr.respan r.span) _ (fun e s => ?_) first t
  refine next (suffix g e s) fun o t _ => ?_
  cases o <;> exact done rfl

theorem expression (s : ParseState) :
    Follows r (Expr.respan r.span) (expression g) (expression g) s :=
  binary (castChain (signed (suffixed g)) g) _ s

omit hg in
/-- At an end there is no expression. -/
theorem expression_eof (s : ParseState) (h : s.cursor.kind.isEof = true) :
    Parser.expression g s = .failed s := by
  rcases s with ⟨⟨⟨kind, span⟩, ahead, last⟩, nextExpr, nextDecl, skipped⟩
  cases kind <;> first | rfl | exact nomatch h

end Parser.Follows

end FrameCheck
