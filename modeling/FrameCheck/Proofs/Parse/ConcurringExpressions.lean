import FrameCheck.Proofs.Parse.ConcurringTypes

/-!
# Expressions before a frontier

An expression may go on in a later line behind an operator, or before an operator that continues it.
So before a line the run that comes to the end may fail where the other one reads on
(`Parser.Local`). Inside of brackets both runs read the same, or both fail.

* `Concurs.suffix` : suffixes are told by the tokens before the frontier.
* `Concurs.expression` : expressions, for a grammar whose parts do so (`Grammar.Local`).
-/

namespace FrameCheck

open Erasable

namespace Erasable

variable {e e' : Expr}

theorem Alike.expr (h : Alike e e') : e'.unnumbered = e.unnumbered := h

theorem Alike.span_eq (h : Alike e e') : e'.span = e.span := by
  obtain ⟨id, span, kind⟩ := e
  obtain ⟨id', span', kind'⟩ := e'
  have h := h.expr
  rw [Expr.unnumbered, Expr.unnumbered] at h
  exact (Expr.mk.inj h).2.1

theorem Alike.isCallable (h : Alike e e') : e'.kind.isCallable = e.kind.isCallable := by
  have hunnumbered (k : ExprKind) : k.unnumbered.isCallable = k.isCallable := by cases k <;> rfl
  obtain ⟨id, span, kind⟩ := e
  obtain ⟨id', span', kind'⟩ := e'
  have h := h.expr
  rw [Expr.unnumbered, Expr.unnumbered] at h
  rw [← hunnumbered kind', (Expr.mk.inj h).2.2, hunnumbered]

theorem Alike.argument (h : Alike e e') (n : Option String) :
    Alike (Argument.mk n e) (Argument.mk n e') := by
  show Argument.unnumbered _ = Argument.unnumbered _
  rw [Argument.unnumbered, Argument.unnumbered, h.expr]

theorem Alike.block {ss ss' : List Stmt} (h : Alike ss ss') (span : Span) :
    Alike (Block.mk ss span) (Block.mk ss' span) := by
  have h : ss'.map Stmt.unnumbered = ss.map Stmt.unnumbered := h
  show Block.unnumbered _ = Block.unnumbered _
  rw [Block.unnumbered, Block.unnumbered, Stmt.unnumberedAll_eq_map, Stmt.unnumberedAll_eq_map, h]

theorem Alike.body {b b' : Block} (h : Alike b b') : b'.unnumbered = b.unnumbered := h

theorem Alike.span_body {b b' : Block} (h : Alike b b') : b'.span = b.span := by
  obtain ⟨stmts, span⟩ := b
  obtain ⟨stmts', span'⟩ := b'
  have h := h.body
  rw [Block.unnumbered, Block.unnumbered] at h
  exact (Block.mk.inj h).2

theorem Alike.exprs {es es' : List Expr} (h : Alike es es') :
    es'.map Expr.unnumbered = es.map Expr.unnumbered := h

theorem Alike.expr? {e e' : Option Expr} (h : Alike e e') :
    e'.map Expr.unnumbered = e.map Expr.unnumbered := h

theorem Alike.arguments {as as' : List Argument} (h : Alike as as') :
    as'.map Argument.unnumbered = as.map Argument.unnumbered := h

theorem Alike.branches {bs bs' : List WhenBranch} (h : Alike bs bs') :
    bs'.map WhenBranch.unnumbered = bs.map WhenBranch.unnumbered := h

theorem Alike.params {ps ps' : List LambdaParam} (h : Alike ps ps') :
    ps'.map LambdaParam.unnumbered = ps.map LambdaParam.unnumbered := h

end Erasable

/-- A token with which no expression begins, whatever follows: a bracket that closes, the end of a line
or of a statement, or an annotation. -/
def TokenKind.isStray (k : TokenKind) : Bool :=
  k.isClosing || k.isEof || k.isSeparator || k.isMark .at

/-- An operator at a place stands there, or behind the line breaks there. -/
theorem BinaryOp.ofToken?_of_at? {c : Cursor} {op : BinaryOp} (h : at? c = some op) :
    ofToken? c.pastNewlines.kind = some op := by
  unfold at? at h
  split at h
  · exact (Option.filter_eq_some_iff.1 h).1
  · next hline => rwa [Cursor.pastNewlines, Cursor.skipWhile_of_not (Bool.eq_false_iff.2 hline)]

theorem BinaryOp.isUnbracketed_of_ofToken? {k : TokenKind} {op : BinaryOp}
    (h : ofToken? k = some op) : k.isUnbracketed = true := by
  cases k with
  | mark m => cases m <;> first | rfl | exact nomatch h
  | name => rfl
  | _ => exact nomatch h

theorem UnaryOp.isUnbracketed_of_ofToken? {k : TokenKind} {op : UnaryOp}
    (h : ofToken? k = some op) : k.isUnbracketed = true := by
  cases k with
  | mark m => cases m <;> first | rfl | exact nomatch h
  | _ => exact nomatch h

theorem BinaryOp.startsLine_eq_none {k : TokenKind} (hk : k.continues = false) :
    (ofToken? k).filter startsLine = none := by
  cases k with
  | mark m => cases m <;> first | rfl | exact nomatch hk
  | _ => rfl

theorem Literal.isUnbracketed_of_ofToken? {k : TokenKind} {value : Literal}
    (h : ofToken? k = some value) : k.isUnbracketed = true := by
  cases k <;> first | rfl | exact nomatch h

namespace Frontier.Places

variable {F : Frontier} {c c' : Cursor}

/-- Behind line breaks, what continues a statement is the same. -/
theorem past_kind_eq {γ : Sort*} (h : F.Places c c') (f : TokenKind → γ)
    (hf : ∀ k, k.continues = false → f k = f .eof) :
    f c'.pastNewlines.kind = f c.pastNewlines.kind := by
  rcases h.pastNewlines with h | ⟨-, heof, hstops⟩
  · exact h.kind_eq f fun _ => hf .newline rfl
  · rw [heof, hf _ hstops]

theorem at?_eq (h : F.Places c c') : BinaryOp.at? c' = BinaryOp.at? c := by
  unfold BinaryOp.at?
  rcases h.kind_cases with hk | ⟨-, heof, hline, hk⟩
  · rw [hk, h.past_kind_eq (fun k => (BinaryOp.ofToken? k).filter BinaryOp.startsLine)
      fun k hk => BinaryOp.startsLine_eq_none hk]
  · rw [hline, heof]
    exact BinaryOp.startsLine_eq_none hk

/-- Behind line breaks an access stands in both lists, or in none. -/
theorem isAccess_past_eq (h : F.Places c c') :
    c'.pastNewlines.kind.isAccess = c.pastNewlines.kind.isAccess := by
  refine h.past_kind_eq TokenKind.isAccess fun k hk => ?_
  cases k with
  | mark m => cases m <;> first | rfl | exact nomatch hk
  | _ => rfl

end Frontier.Places

/-- A grammar whose parts do not look past the tokens before a frontier, but for expressions that go
on in a later line. -/
class Grammar.Local (g : Grammar) : Prop where
  type : Parser.Confined g.type
  expr : Parser.Local g.expr
  needs : Parser.Refuses .eof g.expr
  stmts : ∀ {may base F₁ F s s'}, Frontier.Aligned F₁ base s s' → F₁.Inside .rightBrace F →
    Parser.Concurs may base (Parser.Read F base) g.stmts g.stmts s s'

namespace Parser

variable {α β : Type}

/-- No sign stands there. -/
theorem loop_signed_none {s : ParseState} (h : UnaryOp.ofToken? s.cursor.kind = none) :
    loop Rounds.signed [] s = .done [] s := by
  refine bind_eq_done.2 ⟨.stop [], s, ?_, rfl⟩
  unfold Rounds.signed
  rw [bind_of_done (rfl : kind s = .done s.cursor.kind s), h]
  rfl

namespace Refuses

variable {k : TokenKind}

theorem next {p : Parser α} {f : α → Parser β} (h : Refuses k p) : Refuses k (p >>= f) :=
  fun s hs => bind_of_failed (h s hs)

theorem expect {m : Mark} (hk : k.isMark m = false) : Refuses k (Parser.expect m) :=
  fun s hs => if_neg (by rw [hs, hk]; exact Bool.false_ne_true)

theorem atMark_next {m : Mark} {f : Bool → Parser α} (hk : k.isMark m = false)
    (h : Refuses k (f false)) : Refuses k (Parser.atMark m >>= f) := by
  intro s hs
  refine (bind_of_done (a := false) (t := s) ?_).trans (h s hs)
  show Outcome.done (s.cursor.kind.isMark m) s = _
  rw [hs, hk]

theorem binary {operand : Parser Expr} (h : Refuses k operand) : ∀ os, Refuses k (binary operand os)
  | [] => h
  | _ :: tighter => (binary h tighter).next

theorem signed {operand : Parser Expr} (h : Refuses k operand) (hk : UnaryOp.ofToken? k = none) :
    Refuses k (signed operand) := by
  intro s hs
  rw [signed_eq_loop, bind_of_done (loop_signed_none (by rw [hs, hk])), bind_of_failed (h s hs)]

variable (hk : k.isStray = true)

include hk

theorem primary (g : Grammar) : Refuses k (primary g) := by
  rintro ⟨⟨⟨kind, span⟩, ahead, last⟩, e, d, skipped⟩ rfl
  cases kind with
  | mark m => cases m <;> first | rfl | exact nomatch hk
  | _ => first | rfl | exact nomatch hk

theorem operand (g : Grammar) : Refuses k (castChain g (Parser.signed (suffixed g))) := by
  refine (signed (primary hk g).next ?_).next
  cases k with
  | mark m => cases m <;> first | rfl | exact nomatch hk
  | _ => rfl

theorem expression (g : Grammar) : Refuses k (expression g) := (operand hk g).binary _

end Refuses

/-- Inside of brackets no run fails by itself. -/
theorem Local.inside [Erasable α] {p : Parser α} {may : Prop} {base : List Span} {F F₁ : Frontier}
    {b : Mark} {s s' : ParseState} (h : Local p) (hs : F₁.Aligned base s s') (hin : F₁.Inside b F) :
    Concurs may base (Read F₁ base) p p s s' :=
  (h hs).weaken fun hline => absurd hline hin.not_line

namespace Concurs

variable {may : Prop} {base : List Span} {F F₁ : Frontier} {s s' : ParseState}
  {R : α → β → ParseState → ParseState → Prop}

theorem some [Erasable α] {p p' : Parser α} (h : Concurs may base (Read F base) p p' s s') :
    Concurs may base (Read F base) (Option.some <$> p) (Option.some <$> p') s s' :=
  map h fun _ _ _ _ hab => ⟨congrArg Option.some hab.1, hab.2⟩

section

variable {operand : Parser Expr} (h : Local operand) (hneeds : Refuses .eof operand)
  (hconsumes : Consumes Always operand)

include h hneeds hconsumes

/-! ## Operator chains -/

theorem chain (o : Precedence) : Local (chain o operand) := by
  intro base F s s' hs
  rw [chain_eq_loop]
  refine next (h hs) fun first first' t t' _ _ hfirst => ?_
  refine loop (fun left left' s s' hleft hs => ?_) (Progresses.chain o hconsumes) hfirst.1 hfirst.2
  refine cursor_next ?_
  rw [hs.places.at?_eq]
  cases hop : BinaryOp.at? s.cursor with
  | none => exact done ⟨hleft, hs⟩
  | some op =>
    have hkind := BinaryOp.ofToken?_of_at? hop
    refine ite Iff.rfl (fun _ => ?_) fun _ => done ⟨hleft, hs⟩
    refine next (skipNewlines hs fun _ heof => ?_) fun _ _ t t' _ _ ht => ?_
    · rw [heof] at hkind
      exact nomatch hkind
    rw [← ht.1] at hkind
    refine next (advance ht.2 ?_) fun _ _ u u' _ _ hu => ?_
    · exact BinaryOp.isUnbracketed_of_ofToken? hkind
    refine skipNewlines_next hu.2 (fun v v' hv => ?_) fun hline => ⟨hline, hneeds.next⟩
    refine next (h hv) fun right right' w w' _ _ hright => ?_
    refine next (newExpr hright.2 ?_ ?_) fun e e' x x' _ _ he => done he
    · rw [hleft.span_eq, hright.1.span_eq]
    · rw [ExprKind.unnumbered, ExprKind.unnumbered, hleft.expr, hright.1.expr]

theorem binary (hforward : Forward operand) : ∀ os, Local (binary operand os)
  | [] => h
  | o :: tighter =>
    chain (binary hforward tighter) (.binary hneeds tighter) (.binary hconsumes hforward tighter) o

omit hconsumes hneeds in
theorem signed : Local (signed operand) := by
  intro base F s s' hs
  rw [signed_eq_loop]
  refine next (Q := Read F base) (loop (fun ops ops' s s' hops hs => ?_) Progresses.signed rfl hs)
    fun ops ops' t t' _ _ ht => ?_
  · refine kind_next ?_
    rw [hs.places.kind_eq UnaryOp.ofToken? fun _ => rfl]
    cases hop : UnaryOp.ofToken? s.cursor.kind with
    | none => exact done ⟨hops, hs⟩
    | some op =>
      have hplain := UnaryOp.isUnbracketed_of_ofToken? hop
      refine next (advance hs hplain) fun token token' t t' _ _ ht => ?_
      obtain rfl := ht.1.eq
      exact done ⟨congrArg (List.cons _) hops, ht.2⟩
  · obtain rfl := ht.1.eq
    refine next (h ht.2) fun inner inner' u u' _ _ hu => ?_
    refine foldlM (fun e e' op v v' he hv => newExpr hv ?_ ?_) ops' inner inner' u u' hu.1 hu.2
    · rw [he.span_eq]
    · rw [ExprKind.unnumbered, ExprKind.unnumbered, he.expr]

end

/-! ## Casts -/

section

variable (g : Grammar) [hforward : g.Forward] [hg : g.Local]

include hg

theorem castChain {operand : Parser Expr} (h : Local operand) : Local (castChain g operand) := by
  intro base F s s' hs
  rw [castChain_eq_loop]
  refine next (h hs) fun first first' t t' _ _ hfirst => ?_
  refine loop (fun e e' s s' he hs => ?_) (Progresses.castChain g) hfirst.1 hfirst.2
  refine next (eatKeyword hs .asKw) fun isCast isCast' t t' _ _ ht => ?_
  obtain rfl := ht.1.eq
  refine ite Iff.rfl (fun _ => ?_) fun _ => done ⟨he, ht.2⟩
  refine next (eat ht.2 rfl) fun safe safe' u u' _ _ hu => ?_
  obtain rfl := hu.1.eq
  refine next (typeRef g hg.type hu.2) fun type type' v v' _ _ hv => ?_
  obtain rfl := hv.1.eq
  refine lastSpan_next hv.2 fun last => ?_
  refine next (newExpr hv.2 ?_ ?_) fun e e' x x' _ _ he => done he
  · rw [he.span_eq]
  · rw [ExprKind.unnumbered, ExprKind.unnumbered, he.expr]

/-! ## Calls and blocks -/

omit hg hforward in
/-- The name of a named argument. -/
theorem argumentName (h : F.Aligned base s s') (hF : ¬F.IsLine) :
    Concurs may base (Read F base) argumentName argumentName s s' := by
  refine cursor_next ?_
  rw [h.places.kind_eq TokenKind.plainName? fun _ => rfl]
  cases hn : s.cursor.kind.plainName? with
  | none => exact done ⟨rfl, h⟩
  | some name =>
    have hk := TokenKind.isUnbracketed_of_plainName? (Option.isSome_iff_exists.2 ⟨name, hn⟩)
    refine ite (by rw [h.places.kindAt_one_eq hk (TokenKind.isMark .equal) rfl]) (fun heq => ?_)
      fun _ => done ⟨rfl, h⟩
    refine next (advance h hk) fun _ _ t t' hd _ ht => ?_
    rw [Cursor.kindAt_succ] at heq
    cases hd
    refine next (advance ht.2 (TokenKind.isUnbracketed_of_isMark heq rfl)) fun _ _ u u' _ _ hu => ?_
    exact skipNewlines_next hu.2 (fun v v' hv => done ⟨rfl, hv⟩) fun hline => absurd hline hF

theorem arguments : Confined (arguments g) := by
  intro may base F s s' hs
  rw [arguments_eq_loop]
  refine next (expectOpening hs rfl) fun _ _ t t' _ _ ht => ?_
  obtain ⟨-, F₁, hin, ht⟩ := ht
  refine loop (fun args args' s s' hargs hs => ?_) (Progresses.arguments g) rfl ht
  refine skipNewlines_next hs (fun t t' ht => ?_) fun hline => absurd hline hin.not_line
  refine next (eatClosing ht hin) fun closed closed' u u' _ _ hu => ?_
  obtain ⟨rfl, hu⟩ := hu
  refine ite Iff.rfl (fun hclosed => ?_) fun hclosed => ?_
  · rw [if_pos hclosed] at hu
    exact done ⟨hargs, hu⟩
  rw [if_neg hclosed] at hu
  refine next (argumentName hu.2 hin.not_line) fun name name' v v' _ _ hv => ?_
  obtain rfl := hv.1.eq
  refine next (eat hv.2 rfl) fun _ _ w w' _ _ hw => ?_
  refine next (hg.expr.inside hw.2 hin) fun value value' x x' _ _ hx => ?_
  have hargs := hargs.append (hx.1.argument name')
  refine skipNewlines_next hx.2 (fun y y' hy => ?_) fun hline => absurd hline hin.not_line
  refine next (eat hy rfl) fun more more' z z' _ _ hz => ?_
  obtain rfl := hz.1.eq
  refine ite Iff.rfl (fun _ => done ⟨hargs, hz.2⟩) fun _ => ?_
  refine skipNewlines_next hz.2 (fun y y' hy => ?_) fun hline => absurd hline hin.not_line
  exact next (expectClosing hy hin) fun _ _ z z' _ _ hz => done ⟨hargs, hz⟩

omit hforward in
theorem block : Confined (block g) := by
  intro may base F s s' hs
  refine next (expectOpening hs rfl) fun start start' t t' _ _ ht => ?_
  obtain ⟨rfl, F₁, hin, ht⟩ := ht
  refine next (hg.stmts ht hin) fun stmts stmts' u u' _ _ hu => lastSpan_next hu.2 fun last => ?_
  exact done ⟨hu.1.block _, hu.2⟩

theorem lambdaParams (h : F.Aligned base s s') (hF : ¬F.IsLine) :
    Concurs may base (Read F base) (lambdaParams g) (lambdaParams g) s s' := by
  rw [lambdaParams_eq_loop]
  refine cursor_next (attempt_next (Q := Read F base) ?_ ?_ ?_)
  · refine skipNewlines_next h (fun t t' ht => ?_) fun hline => absurd hline hF
    refine loop (fun params params' s s' hparams hs => ?_) (Progresses.lambdaParams g) rfl ht
    refine kind_next ?_
    rw [hs.places.kind_eq TokenKind.plainName? fun _ => rfl]
    cases hn : s.cursor.kind.plainName? with
    | none => exact next (Q := Read F base) (fail hs) fun _ _ _ _ hd => nomatch hd
    | some name =>
      have hk := TokenKind.isUnbracketed_of_plainName? (Option.isSome_iff_exists.2 ⟨name, hn⟩)
      rw [show orFail (Option.some name) = pure name from rfl, pure_bind, pure_bind]
      refine next (advance hs hk) fun _ _ t t' _ _ ht => ?_
      refine next (eat ht.2 rfl) fun typed typed' u u' _ _ hu => ?_
      obtain rfl := hu.1.eq
      extract_lets declare declare'
      have hdeclare (type) {t t'} (ht : F.Aligned base t t') :
          Concurs False base (RoundPost F base (Read F base)) (declare type) (declare' type)
            t t' := by
        refine next (newDecl ht) fun d d' t t' _ _ ht => ?_
        refine next (eat ht rfl) fun more more' u u' _ _ hu => ?_
        obtain rfl := hu.1.eq
        have hparams :
            Erasable.Alike (params ++ [⟨d, name, type⟩]) (params' ++ [⟨d', name, type⟩]) :=
          hparams.append rfl
        refine ite Iff.rfl (fun _ => done ⟨hparams, hu.2⟩) fun _ => ?_
        exact next (expect hu.2 rfl) fun _ _ v v' _ _ hv => done ⟨hparams, hv.2⟩
      refine ite Iff.rfl (fun _ => ?_) fun _ => ?_
      · refine next (some (typeRef g hg.type hu.2)) fun type type' v v' _ _ hv => ?_
        obtain rfl := hv.1.eq
        exact hdeclare type' hv.2
      · rw [pure_bind, pure_bind]
        exact hdeclare none hu.2
  · exact fun params params' t t' _ ht => done ht
  · exact fun t t' ht => moveTo_next h.places ht fun u u' hu => done ⟨rfl, hu⟩

theorem lambda : Confined (lambda g) := by
  intro may base F s s' hs
  refine next (expectOpening hs rfl) fun start start' t t' _ _ ht => ?_
  obtain ⟨rfl, F₁, hin, ht⟩ := ht
  refine next (lambdaParams g ht hin.not_line) fun params params' u u' _ _ hu => ?_
  refine next (newDecl hu.2) fun it it' v v' _ _ hv => ?_
  refine next (hg.stmts hv hin) fun stmts stmts' w w' _ _ hw => ?_
  refine lastSpan_next hw.2 fun last => newExpr hw.2 rfl ?_
  rw [ExprKind.unnumbered, ExprKind.unnumbered, hu.1.params, (hw.1.block _).body]

theorem call {callee callee' : Expr} (hcallee : Erasable.Alike callee callee')
    (types : List TypeRef)
    (hs : F.Aligned base s s') :
    Concurs may base (Read F base) (call g callee types) (call g callee' types) s s' := by
  refine next (atMark hs .leftParen) fun paren paren' t t' _ _ ht => ?_
  obtain ⟨rfl, -, ht⟩ := ht
  extract_lets made trailing made' trailing'
  have hmade {args args'} (hargs : Erasable.Alike args args') {t t'} (ht : F.Aligned base t t') :
      Concurs may base (Read F base) (made args) (made' args') t t' := by
    refine lastSpan_next ht fun last => newExpr ht ?_ ?_
    · rw [hcallee.span_eq]
    · rw [ExprKind.unnumbered, ExprKind.unnumbered, hcallee.expr, Argument.unnumberedAll_eq_map,
        Argument.unnumberedAll_eq_map, hargs.arguments]
  have htrailing {args args'} (hargs : Erasable.Alike args args') {t t'}
      (ht : F.Aligned base t t') :
      Concurs may base (Read F base) (trailing args) (trailing' args') t t' := by
    refine next (atMark ht .leftBrace) fun brace brace' u u' _ _ hu => ?_
    obtain ⟨rfl, -, hu⟩ := hu
    refine ite Iff.rfl (fun _ => ?_) fun _ => ?_
    · refine next (lambda g hu) fun f f' v v' _ _ hv => ?_
      rw [pure_bind, pure_bind]
      exact hmade (hargs.append (hv.1.argument none)) hv.2
    · rw [pure_bind, pure_bind]
      exact hmade hargs hu
  refine ite Iff.rfl (fun _ => ?_) fun _ => ?_
  · exact next (arguments g ht) fun args args' u u' _ _ hu => htrailing hu.1 hu.2
  · rw [pure_bind, pure_bind]
    exact htrailing rfl ht

/-! ## Suffixes -/

omit hg hforward in
theorem memberOf {receiver receiver' : Expr} (hreceiver : Erasable.Alike receiver receiver')
    (hs : F.Aligned base s s') (hk : s.cursor.pastNewlines.kind.isAccess = true) :
    Concurs may base (Read F base) (memberOf receiver) (memberOf receiver') s s' := by
  refine next (skipNewlines hs fun _ heof => ?_) fun _ _ t t' _ _ ht => ?_
  · rw [heof] at hk
    exact nomatch hk
  refine next (advance ht.2 ?_) fun access access' u u' _ _ hu => ?_
  · rw [ht.1]
    refine (Bool.or_eq_true_iff.1 hk).elim ?_ ?_
    all_goals exact fun h => TokenKind.isUnbracketed_of_isMark h rfl
  obtain rfl := hu.1.eq
  refine next (expectName hu.2) fun named named' v v' _ _ hv => ?_
  obtain rfl := hv.1.eq
  refine newExpr hv.2 ?_ ?_
  · rw [hreceiver.span_eq]
  · rw [ExprKind.unnumbered, ExprKind.unnumbered, hreceiver.expr]

theorem indexOf {receiver receiver' : Expr} (hreceiver : Erasable.Alike receiver receiver')
    (hs : F.Aligned base s s') (hk : s.cursor.kind = .mark .leftBracket) :
    Concurs may base (Read F base) (indexOf g receiver) (indexOf g receiver') s s' := by
  rw [indexOf_eq_loop, indexOf_eq_loop]
  refine next (advanceOpening hs hk rfl) fun _ _ t t' _ _ ht => ?_
  obtain ⟨-, F₁, hin, ht⟩ := ht
  refine next (Q := Read F₁ base) (loop (fun indices indices' s s' hindices hs => ?_)
    (Progresses.indexOf g) rfl ht) fun indices indices' u u' _ _ hu => ?_
  · refine skipNewlines_next hs (fun t t' ht => ?_) fun hline => absurd hline hin.not_line
    refine next (hg.expr.inside ht hin) fun index index' u u' _ _ hu => ?_
    have hindices := hindices.append hu.1
    refine skipNewlines_next hu.2 (fun v v' hv => ?_) fun hline => absurd hline hin.not_line
    refine next (eat hv rfl) fun more more' w w' _ _ hw => ?_
    obtain rfl := hw.1.eq
    exact ite Iff.rfl (fun _ => done ⟨hindices, hw.2⟩) fun _ => done ⟨hindices, hw.2⟩
  · refine next (expectClosing hu.2 hin) fun _ _ v v' _ _ hv => lastSpan_next hv fun last => ?_
    refine newExpr hv ?_ ?_
    · rw [hreceiver.span_eq]
    · rw [ExprKind.unnumbered, ExprKind.unnumbered, hreceiver.expr, Expr.unnumberedAll_eq_map,
        Expr.unnumberedAll_eq_map, hu.1.exprs]

theorem suffix {e e' : Expr} (he : Erasable.Alike e e') (hs : F.Aligned base s s') :
    Concurs may base (Read F base) (suffix g e) (suffix g e') s s' := by
  refine cursor_next ?_
  dsimp only
  have hmark (m : Mark) : s'.cursor.kind.isMark m = s.cursor.kind.isMark m :=
    hs.places.kind_eq (TokenKind.isMark m) fun _ => rfl
  rw [he.isCallable, hs.places.isAccess_past_eq, hmark, hmark, hmark, hmark, hmark]
  refine ite Iff.rfl (fun haccess => some (memberOf he hs haccess)) fun _ => ?_
  refine ite Iff.rfl (fun hless => ?_) fun _ => ?_
  · have hopen := (Bool.and_eq_true_iff.1 hless).1
    refine next (callTypeArgs g hg.type hs hopen) fun types types' t t' _ _ ht => ?_
    obtain rfl := ht.1.eq
    cases types' with
    | none => exact done ⟨rfl, ht.2⟩
    | some types => exact some (call g he types ht.2)
  refine ite Iff.rfl (fun _ => some (call g he [] hs)) fun _ => ?_
  refine ite Iff.rfl (fun hk => some (indexOf g he hs (TokenKind.isMark_iff.1 hk))) fun _ => ?_
  refine ite Iff.rfl (fun hk => ?_) fun _ => done ⟨rfl, hs⟩
  refine next (advance hs (TokenKind.isUnbracketed_of_isMark hk rfl)) fun _ _ t t' _ _ ht => ?_
  refine lastSpan_next ht.2 fun last => some (newExpr ht.2 ?_ ?_)
  · rw [he.span_eq]
  · rw [ExprKind.unnumbered, ExprKind.unnumbered, he.expr]

/-! ## Branches -/

omit hforward in
theorem branch : Local (branch g) := by
  intro base F s s' hs
  refine skipNewlines_next hs (fun t t' ht => ?_) fun hline => ⟨hline, .atMark_next rfl ?_⟩
  · refine next (atMark ht .leftBrace) fun braced braced' u u' _ _ hu => ?_
    obtain ⟨rfl, -, hu⟩ := hu
    refine ite Iff.rfl (fun _ => ?_) fun _ => hg.expr hu
    refine next (block g hu) fun b b' v v' _ _ hv => newExpr hv.2 hv.1.span_body ?_
    rw [ExprKind.unnumbered, ExprKind.unnumbered, hv.1.body]
  · simpa using hg.needs

omit hg hforward in
/-- An `else` goes on with both, or with none. -/
theorem atElse (hs : F.Aligned base s s') :
    Concurs may base (fun a b t t' => b = a ∧ t = s ∧ F.Aligned base t t' ∧
      (a = true → s.cursor.pastNewlines.kind = .keyword .elseKw)) atElse atElse s s' := by
  refine cursor_next (done ⟨?_, rfl, hs, fun helse => ?_⟩)
  · rcases hs.places.pastNewlines with hplaces | ⟨-, heof, hstops⟩
    · rw [hplaces.kind_eq (TokenKind.isKeyword .elseKw) fun _ => rfl]
      cases helse : s.cursor.pastNewlines.kind.isKeyword .elseKw with
      | false => rfl
      | true =>
        rw [hplaces.any_kindAt?_one (Token.isUnbracketed_of_isKeyword helse) rfl]
    · have hnot : s'.cursor.pastNewlines.kind.isKeyword .elseKw = false := by
        cases hk : s'.cursor.pastNewlines.kind with
        | keyword w => cases w <;> first | rfl | (rw [hk] at hstops; exact nomatch hstops)
        | _ => rfl
      rw [heof, hnot]
      rfl
  · exact TokenKind.isKeyword_iff.1 (Bool.and_eq_true_iff.1 helse).1

omit hforward in
theorem ifElse (hs : F.Aligned base s s') (hk : s.cursor.kind.isUnbracketed = true) :
    Concurs F.IsLine base (Read F base) (ifElse g) (ifElse g) s s' := by
  refine next (advance hs hk) fun start start' t t' _ _ ht => ?_
  obtain rfl := ht.1.eq
  refine next (expectOpening ht.2 rfl) fun _ _ t t' _ _ ht => ?_
  obtain ⟨-, F₁, hin, ht⟩ := ht
  refine skipNewlines_next ht (fun t t' ht => ?_) fun hline => absurd hline hin.not_line
  refine next (hg.expr.inside ht hin) fun c c' t t' _ _ hc => ?_
  refine skipNewlines_next hc.2 (fun t t' ht => ?_) fun hline => absurd hline hin.not_line
  refine next (expectClosing ht hin) fun _ _ t t' _ _ ht => ?_
  refine next (branch g ht) fun b b' t t' _ _ hb => ?_
  refine next (atElse hb.2) fun more more' u u' _ _ hu => ?_
  obtain ⟨rfl, rfl, hu, hmore⟩ := hu
  extract_lets made made'
  have hmade {other other' : Option Expr} (hother : Erasable.Alike other other') {t t'}
      (ht : F.Aligned base t t') :
      Concurs F.IsLine base (Read F base) (made other) (made' other') t t' := by
    refine lastSpan_next ht fun last => newExpr ht rfl ?_
    rw [ExprKind.unnumbered, ExprKind.unnumbered, hc.1.expr, hb.1.expr, Expr.unnumbered?_eq_map,
      Expr.unnumbered?_eq_map, hother.expr?]
  refine ite Iff.rfl (fun helse => ?_) fun _ => ?_
  · have helse := hmore helse
    refine next (skipNewlines hu fun _ heof => ?_) fun _ _ v v' _ _ hv => ?_
    · rw [heof] at helse
      cases helse
    refine next (advance hv.2 ?_) fun _ _ w w' _ _ hw => ?_
    · rw [hv.1, helse]
      rfl
    exact next (some (branch g hw.2)) fun other other' x x' _ _ hx => hmade hx.1 hx.2
  · rw [pure_bind, pure_bind]
    exact hmade rfl hu

theorem whenSubject (hs : F₁.Aligned base s s') (hin : F₁.Inside .rightParen F) :
    Concurs may base (Read F base) (whenSubject g) (whenSubject g) s s' := by
  refine skipNewlines_next hs (fun t t' ht => ?_) fun hline => absurd hline hin.not_line
  refine next (eatKeyword ht .valKw) fun named named' t t' _ _ ht => ?_
  obtain rfl := ht.1.eq
  extract_lets subject
  have hsubject {t t'} (ht : F₁.Aligned base t t') :
      Concurs may base (Read F base) (subject ()) (subject ()) t t' := by
    refine next (hg.expr.inside ht hin) fun e e' u u' _ _ he => ?_
    refine skipNewlines_next he.2 (fun v v' hv => ?_) fun hline => absurd hline hin.not_line
    exact next (expectClosing hv hin) fun _ _ w w' _ _ hw => done ⟨he.1, hw⟩
  refine ite Iff.rfl (fun _ => ?_) fun _ => hsubject ht.2
  have hrest {t t'} (ht : F₁.Aligned base t t') : Concurs may base (Read F base)
      (Parser.expect .equal >>= fun _ => Parser.skipNewlines >>= subject)
      (Parser.expect .equal >>= fun _ => Parser.skipNewlines >>= subject) t t' :=
    next (expect ht rfl) fun _ _ u u' _ _ hu =>
      skipNewlines_next hu.2 (fun v v' hv => hsubject hv) fun hline => absurd hline hin.not_line
  refine next (expectName ht.2) fun _ _ u u' _ _ hu => ?_
  refine next (eat hu.2 rfl) fun typed typed' v v' _ _ hv => ?_
  obtain rfl := hv.1.eq
  refine ite Iff.rfl (fun _ => ?_) fun _ => hrest hv.2
  exact next (typeRef g hg.type hv.2) fun _ _ w w' _ _ hw => hrest hw.2

theorem whenCondition (hs : F.Aligned base s s') (hF : ¬F.IsLine) :
    Concurs may base (Read F base) (whenCondition g) (whenCondition g) s s' := by
  refine cursor_next ?_
  extract_lets condition
  have hexpr {t t'} (ht : F.Aligned base t t') :
      Concurs may base (Read F base) (Option.some <$> g.expr) (Option.some <$> g.expr) t t' :=
    some ((hg.expr ht).weaken fun hline => absurd hline hF)
  have hname (n : String) (k : TokenKind) (hk : k.isName n = true) : k.isUnbracketed = true :=
    TokenKind.isUnbracketed_of_isName hk
  have hcondition {t t'} (ht : F.Aligned base t t') :
      Concurs may base (Read F base) (condition ()) (condition ()) t t' := by
    refine next (eatIf ht (hname "is") rfl) fun isType isType' u u' _ _ hu => ?_
    obtain rfl := hu.1.eq
    refine ite Iff.rfl (fun _ => ?_) fun _ => ?_
    · exact next (typeRef g hg.type hu.2) fun _ _ v v' _ _ hv => done ⟨rfl, hv.2⟩
    · exact next (eatIf hu.2 (hname "in") rfl) fun _ _ v v' _ _ hv => hexpr hv.2
  have hnegated : (s'.cursor.kind.isMark .bang && ((s'.cursor.kindAt 1).isName "is"
      || (s'.cursor.kindAt 1).isName "in")) = (s.cursor.kind.isMark .bang
      && ((s.cursor.kindAt 1).isName "is" || (s.cursor.kindAt 1).isName "in")) := by
    rw [hs.places.kind_eq (TokenKind.isMark .bang) fun _ => rfl]
    cases hbang : s.cursor.kind.isMark .bang with
    | false => rfl
    | true =>
      rw [hs.places.kindAt_one_eq (TokenKind.isUnbracketed_of_isMark hbang rfl)
        (fun k => k.isName "is" || k.isName "in") rfl]
  refine ite (by rw [hnegated]) (fun hbang => ?_) fun _ => hcondition hs
  have hbang := TokenKind.isUnbracketed_of_isMark (Bool.and_eq_true_iff.1 hbang).1 rfl
  exact next (advance hs hbang) fun _ _ t t' _ _ ht => hcondition ht.2

theorem whenBranch (hs : F.Aligned base s s') (hF : ¬F.IsLine) :
    Concurs may base (Read F base) (whenBranch g) (whenBranch g) s s' := by
  rw [whenBranch_eq_loop]
  refine next (eatKeyword hs .elseKw) fun isElse isElse' t t' _ _ ht => ?_
  obtain rfl := ht.1.eq
  extract_lets arm
  have harm {cs cs'} (hcs : Erasable.Alike cs cs') {t t'} (ht : F.Aligned base t t') :
      Concurs may base (Read F base) (arm cs) (arm cs') t t' := by
    refine skipNewlines_next ht (fun u u' hu => ?_) fun hline => absurd hline hF
    refine next (expect hu rfl) fun _ _ v v' _ _ hv => ?_
    refine next ((branch g hv.2).weaken fun hline => absurd hline hF) fun b b' w w' _ _ hw => ?_
    refine done ⟨?_, hw.2⟩
    show WhenBranch.unnumbered _ = WhenBranch.unnumbered _
    rw [WhenBranch.unnumbered, WhenBranch.unnumbered, Expr.unnumberedAll_eq_map,
      Expr.unnumberedAll_eq_map, hcs.exprs, hw.1.expr]
  refine ite Iff.rfl (fun _ => ?_) fun _ => ?_
  · rw [pure_bind]
    exact harm rfl ht.2
  refine next (Q := Read F base) (loop (fun cs cs' s s' hcs hs => ?_) (Progresses.whenConditions g)
    rfl ht.2) fun cs cs' u u' _ _ hu => harm hu.1 hu.2
  refine skipNewlines_next hs (fun t t' ht => ?_) fun hline => absurd hline hF
  refine next (whenCondition g ht hF) fun c c' u u' _ _ hu => ?_
  have hcs : Erasable.Alike (cs ++ c.toList) (cs' ++ c'.toList) := by
    cases c <;> cases c'
    case none.none => simpa using hcs
    case some.some => exact hcs.append (Option.some.inj hu.1)
    all_goals exact nomatch hu.1
  refine skipNewlines_next hu.2 (fun v v' hv => ?_) fun hline => absurd hline hF
  refine next (eat hv rfl) fun more more' w w' _ _ hw => ?_
  obtain rfl := hw.1.eq
  exact ite Iff.rfl (fun _ => done ⟨hcs, hw.2⟩) fun _ => done ⟨hcs, hw.2⟩

theorem whenOf (hs : F.Aligned base s s') (hk : s.cursor.kind.isUnbracketed = true) :
    Concurs F.IsLine base (Read F base) (whenOf g) (whenOf g) s s' := by
  rw [whenOf_eq_loop]
  refine next (advance hs hk) fun start start' t t' _ _ ht => ?_
  obtain rfl := ht.1.eq
  refine next (eatOpening ht.2 rfl) fun subjected subjected' u u' _ _ hu => ?_
  obtain ⟨rfl, hu⟩ := hu
  extract_lets branches
  have hbranches {subject subject' : Option Expr} (hsubject : Erasable.Alike subject subject')
      {t t'}
      (ht : F.Aligned base t t') :
      Concurs F.IsLine base (Read F base) (branches subject) (branches subject') t t' := by
    refine skipNewlines_next ht (fun u u' hu => ?_) fun hline => ⟨hline, (Refuses.expect rfl).next⟩
    refine next (expectOpening hu rfl) fun _ _ v v' _ _ hv => ?_
    obtain ⟨-, F₁, hin, hv⟩ := hv
    refine next (Q := Read F base) (loop (fun bs bs' s s' hbs hs => ?_) (Progresses.whenBranches g)
      rfl hv) fun bs bs' w w' _ _ hw => lastSpan_next hw.2 fun last => newExpr hw.2 rfl ?_
    · refine next (skipSeparators hs hin.not_line) fun _ _ t t' _ _ ht => ?_
      refine next (eatClosing ht.2 hin) fun closed closed' u u' _ _ hu => ?_
      obtain ⟨rfl, hu⟩ := hu
      refine ite Iff.rfl (fun hclosed => ?_) fun hclosed => ?_
      · rw [if_pos hclosed] at hu
        exact done ⟨hbs, hu⟩
      rw [if_neg hclosed] at hu
      exact next (whenBranch g hu.2 hin.not_line) fun b b' v v' _ _ hb =>
        done ⟨hbs.append hb.1, hb.2⟩
    · rw [ExprKind.unnumbered, ExprKind.unnumbered, Expr.unnumbered?_eq_map, Expr.unnumbered?_eq_map,
        hsubject.expr?, WhenBranch.unnumberedAll_eq_map, WhenBranch.unnumberedAll_eq_map,
        hw.1.branches]
  refine ite Iff.rfl (fun hsubjected => ?_) fun hsubjected => ?_
  · rw [if_pos hsubjected] at hu
    obtain ⟨F₁, hin, hu⟩ := hu
    exact next (some (whenSubject g hu hin)) fun subject subject' v v' _ _ hv => hbranches hv.1 hv.2
  · rw [if_neg hsubjected] at hu
    rw [pure_bind]
    exact hbranches rfl hu

/-! ## Operands -/

omit hforward in
theorem embedded (tokens : List Token) : Confined (embedded g tokens) := by
  intro may base F s s' hs
  refine within hs fun t t' ht => skipNewlines_next ht (fun u u' hu => ?_) fun hline => hline.elim
  refine next ((hg.expr hu).weaken id) fun e e' v v' _ _ he => ?_
  refine skipNewlines_next he.2 (fun w w' hw => kind_next ?_) fun hline => hline.elim
  exact ite (by rw [hw.places.kind_eq TokenKind.isEof fun hline => hline.elim])
    (fun _ => done ⟨he.1, hw⟩) fun _ => fail hw

omit hforward in
theorem parenthesized (hs : F.Aligned base s s') (hk : s.cursor.kind = .mark .leftParen) :
    Concurs may base (Read F base) (parenthesized g) (parenthesized g) s s' := by
  refine next (advanceOpening hs hk rfl) fun _ _ t t' _ _ ht => ?_
  obtain ⟨-, F₁, hin, ht⟩ := ht
  refine skipNewlines_next ht (fun t t' ht => ?_) fun hline => absurd hline hin.not_line
  refine next (hg.expr.inside ht hin) fun e e' u u' _ _ he => ?_
  refine skipNewlines_next he.2 (fun v v' hv => ?_) fun hline => absurd hline hin.not_line
  exact next (expectClosing hv hin) fun _ _ w w' _ _ hw => done ⟨he.1, hw⟩

theorem primary : Local (primary g) := by
  intro base F s s' hs
  by_cases hk : s.cursor.kind.isClosing = false ∧ s.cursor.kind.isEof = false
  · refine cursor_next ?_
    dsimp only
    rw [hs.places.here_eq hk]
    have htake (kind : ExprKind) (hplain : s.cursor.kind.isUnbracketed = true) :
        Concurs F.IsLine base (Read F base)
          (Parser.advance >>= fun _ => Parser.newExpr s.cursor.here.span kind)
          (Parser.advance >>= fun _ => Parser.newExpr s.cursor.here.span kind) s s' :=
      next (advance hs hplain) fun _ _ t t' _ _ ht => newExpr ht.2 rfl rfl
    cases hvalue : Literal.ofToken? s.cursor.here.kind with
    | some value => exact htake _ (Literal.isUnbracketed_of_ofToken? hvalue)
    | none =>
      cases hname : s.cursor.here.kind.asName? with
      | some name => exact htake _ (TokenKind.isUnbracketed_of_asName? hname)
      | none =>
        dsimp only
        split
        · next hkind => exact htake _ (by rw [Cursor.kind, hkind]; rfl)
        · next hkind => exact parenthesized g hs hkind
        · next parts hkind =>
          refine next (advance hs (by rw [Cursor.kind, hkind]; rfl)) fun _ _ t t' _ _ ht => ?_
          refine next (mapM parts t t' (fun part _ _ _ hs => embedded g part hs) ht.2)
            fun es es' u u' _ _ hu => newExpr hu.2 rfl ?_
          rw [ExprKind.unnumbered, ExprKind.unnumbered, Expr.unnumberedAll_eq_map,
            Expr.unnumberedAll_eq_map, hu.1.exprs]
        · next hkind => exact ifElse g hs (by rw [Cursor.kind, hkind]; rfl)
        · next hkind => exact whenOf g hs (by rw [Cursor.kind, hkind]; rfl)
        · exact lambda g hs
        · exact fail hs
  · have hstray : s.cursor.kind.isStray = true := by
      simp only [TokenKind.isStray]
      cases hclosing : s.cursor.kind.isClosing <;> simp_all
    have hstray' : s'.cursor.kind.isStray = true := by
      rcases hs.places.kind_cases with hkind | ⟨-, -, hline, -⟩
      · rw [hkind, hstray]
      · rw [hline]
        rfl
    unfold Concurs
    rw [Refuses.primary hstray g s rfl, Refuses.primary hstray' g s' rfl]
    exact Or.inr hs.skipped

theorem suffixed : Local (suffixed g) := by
  intro base F s s' hs
  rw [suffixed_eq_loop]
  refine next (primary g hs) fun first first' t t' _ _ hfirst => ?_
  refine loop (fun e e' s s' he hs => ?_) (Progresses.suffixed g) hfirst.1 hfirst.2
  refine next (suffix g he hs) fun o o' t t' _ _ ht => ?_
  cases o <;> cases o'
  case none.none => exact done ⟨he, ht.2⟩
  case some.some next next' => exact done ⟨Option.some.inj ht.1, ht.2⟩
  all_goals exact nomatch ht.1

theorem expression : Local (expression g) := by
  exact binary (castChain g (signed (suffixed g))) (.operand rfl g) (.operand g) (.operand g) _

end

end Concurs

end Parser

end FrameCheck
