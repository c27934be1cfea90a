import FrameCheck.Proofs.Parse.Operands

/-!
# Reading printed parts

What is printed of an expression is read again, given that its parts are (`Parser.Parses`,
`Parser.ParsesWrapped`) : a part in parentheses as a primary, accesses, calls and indices as
suffixes, lambdas with their parameters and statements, branches, and templates.

* `Takes.suffix_call`, `Takes.suffix_index` : suffixes.
* `Takes.lambda_render`, `Takes.ifElse_render`, `Takes.primary_template` : primaries.
* `Takes.unsuffixed_operator` : an operator is no suffix, and `<` starts no type arguments.
-/

namespace FrameCheck

open Token (Closing wrapped joined)

/-- What is printed starts on its line. -/
theorem Expr.Printable.render_head {e : Expr} (h : e.Printable) :
    ∃ t ts, e.render = t :: ts ∧ t.kind.isNewline = false := by
  cases h with
  | literal value =>
    refine ⟨_, _, rfl, ?_⟩
    cases value with
    | bool b => cases b <;> rfl
    | _ => rfl
  | unary op => exact ⟨_, _, rfl, by cases op <;> rfl⟩
  | _ => exact ⟨_, _, rfl, rfl⟩

theorem Argument.render_head (a : Argument) (rest : List Token) :
    ∃ t ts, a.render ++ rest = t :: ts ∧ t.kind.isNewline = false ∧
      t.kind.isMark .rightParen = false := by
  obtain ⟨name, value⟩ := a
  cases name <;> exact ⟨_, _, rfl, rfl, rfl⟩

namespace Parser

/-- The parser reads what the expression is printed as, before a parenthesis or an end. -/
def Parses (p : Parser Expr) (e : Expr) : Prop :=
  ∀ t ts, t.kind = .mark .rightParen ∨ t.kind = .eof →
    Takes p (e.render ++ t :: ts) (t :: ts) (·.shape = e.shape)

/-- The parser reads what the expression is printed as, in parentheses of its own. -/
def ParsesWrapped (p : Parser Expr) (e : Expr) : Prop :=
  ∀ after, Closing after → Takes p (wrapped e.render ++ after) after (·.shape = e.shape)

namespace Takes

variable {g : Grammar} {after : List Token} {e : Expr}

theorem primary_wrapped (hprint : e.Printable) (h : Parses g.expr e) (hne : after ≠ []) :
    Takes (primary g) (wrapped e.render ++ after) after (·.shape = e.shape) := by
  obtain ⟨t, ts, hhead, hline⟩ := hprint.render_head
  have hinner := h Mark.rightParen.token after (.inl rfl)
  rw [Token.wrapped_append]
  rw [hhead, List.cons_append] at hinner ⊢
  refine ofCursor fun c hc => ?_
  obtain ⟨here, ahead, last⟩ := c
  obtain ⟨rfl, -⟩ := List.cons.inj hc
  refine (advance (List.cons_ne_nil _ _)).known ((skipNewlines hline).next fun _ _ => ?_)
  refine hinner.next fun f hf => (skipNewlines rfl).next fun _ _ => ?_
  exact (expect rfl hne).known (answer hf)

theorem primary_literal (value : Literal) (hne : after ≠ []) :
    Takes (primary g) (value.kind.token :: after) after (·.kind = .literal value) := by
  refine ofCursor fun c hc => ?_
  obtain ⟨here, ahead, last⟩ := c
  obtain ⟨rfl, -⟩ := List.cons.inj hc
  simp only [TokenKind.token, value.ofToken?_kind]
  exact (advance hne).known (newExpr _ _)

theorem primary_name (n : String) (hne : after ≠ []) :
    Takes (primary g) (.named n :: after) after (·.kind = .name n) := by
  refine ofCursor fun c hc => ?_
  obtain ⟨here, ahead, last⟩ := c
  obtain ⟨rfl, -⟩ := List.cons.inj hc
  exact (advance hne).known (newExpr _ _)

theorem primary_this (hne : after ≠ []) :
    Takes (primary g) ((TokenKind.keyword .thisKw).token :: after) after (·.kind = .this) := by
  refine ofCursor fun c hc => ?_
  obtain ⟨here, ahead, last⟩ := c
  obtain ⟨rfl, -⟩ := List.cons.inj hc
  exact (advance hne).known (newExpr _ _)

/-! ### Suffixes -/

theorem suffix_member (e : Expr) (n : String) (safe : Bool) (hne : after ≠ []) :
    Takes (suffix g e) ((if safe then Mark.safeDot.token else Mark.dot.token) :: .named n :: after)
      after fun o => ∃ f, o = some f ∧ ∃ span, f.kind = .member e n span safe := by
  have hkind (test : TokenKind → Bool) (h : test (.mark .safeDot) = test (.mark .dot)) :
      test (if safe then Mark.safeDot.token else Mark.dot.token).kind = test (.mark .dot) := by
    cases safe with
    | true => exact h
    | false => rfl
  have hline := hkind TokenKind.isNewline rfl
  refine ofCursor fun c hc => ite_pos ?_ (map ((skipNewlines hline).next fun _ _ => ?_))
  · rw [Cursor.kind_of_rest (Cursor.rest_pastNewlines hline hc)]
    exact hkind TokenKind.isAccess rfl
  refine (advance (List.cons_ne_nil _ _)).known ((expectName rfl hne).next ?_)
  rintro ⟨name, span⟩ (rfl : name = n)
  refine (newExpr _ _).mono fun f hf => ⟨f, rfl, span, ?_⟩
  rw [hf]
  cases safe <;> rfl

theorem suffix_notNull (e : Expr) (hne : after ≠ []) :
    Takes (suffix g e) (Mark.bangBang.token :: after) after
      fun o => ∃ f, o = some f ∧ f.kind = .notNull e := by
  refine ofCursor fun c hc => ?_
  simp only [Cursor.kind_of_rest (Cursor.rest_pastNewlines rfl hc), Cursor.kind_of_rest hc]
  refine (advance hne).known (lastSpan.next fun _ _ => map ?_)
  exact (newExpr _ _).mono fun f hf => ⟨f, rfl, hf⟩

/-! ### Calls -/

/-- An argument is told by its name from a value. -/
theorem argumentName_render (a : Argument) (rest : List Token) :
    Takes argumentName (a.render ++ rest) (wrapped a.value.render ++ rest) (· = a.name) := by
  obtain ⟨name, value⟩ := a
  refine ofCursor fun c hc => ?_
  obtain ⟨here, ahead, last⟩ := c
  cases name with
  | none =>
    rw [Argument.render, Argument.renderName, List.nil_append, Token.wrapped_append] at hc ⊢
    obtain ⟨rfl, -⟩ := List.cons.inj hc
    exact answer rfl
  | some n =>
    rw [Argument.render, Argument.renderName, List.append_assoc, Token.wrapped_append] at hc ⊢
    obtain ⟨rfl, hahead⟩ := List.cons.inj hc
    obtain rfl := hahead
    refine (advance (List.cons_ne_nil _ _)).known ((advance (List.cons_ne_nil _ _)).known ?_)
    exact (skipNewlines rfl).next fun _ _ => answer rfl

/-- One round of the arguments, up to what follows the value. -/
theorem argument {β : Type} {P : β → Prop} {a : Argument} {rest : List Token}
    (ha : ParsesWrapped g.expr a.value) (hrest : Closing rest) {closed : Parser β}
    {k : Option String → Expr → Parser β}
    (hk : ∀ e, e.shape = a.value.shape → Takes (k a.name e) rest after P) :
    Takes (do
      Parser.skipNewlines
      if ← eat .rightParen then closed
      else
        let name ← argumentName
        let _ ← eat .star
        let value ← g.expr
        k name value) (a.render ++ rest) after P := by
  obtain ⟨t, ts, hhead, hline, hclosed⟩ := a.render_head rest
  have hname := argumentName_render a rest
  rw [hhead] at hname ⊢
  refine (skipNewlines hline).next fun _ _ => (eat_not hclosed).known ?_
  refine ite_neg Bool.false_ne_true (hname.known ?_)
  rw [Token.wrapped_append]
  refine (eat_not rfl).known ?_
  rw [← Token.wrapped_append]
  exact (ha rest hrest).next hk

theorem arguments_render {args : List Argument}
    (hargs : ∀ a ∈ args, ParsesWrapped g.expr a.value) (hne : after ≠ []) :
    Takes (arguments g) (wrapped (joined (.mark .comma) (args.map Argument.render)) ++ after) after
      fun read => read.map Argument.shape = args.map Argument.shape := by
  rw [Token.wrapped_append]
  refine (expect rfl (by simp)).known ?_
  cases args with
  | nil =>
    refine loop_stop ((skipNewlines rfl).next fun _ _ => (eatIf rfl hne).known ?_)
    exact answer ⟨[], rfl, rfl⟩
  | cons a args =>
    let text (as : List Argument) : List Token :=
      joined (.mark .comma) (as.map Argument.render) ++ Mark.rightParen.token :: after
    let S (left read : List Argument) : Prop := (∀ a ∈ left, ParsesWrapped g.expr a.value) ∧
      read.map Argument.shape ++ left.map Argument.shape = (a :: args).map Argument.shape
    refine loop_separated (T := text) (S := S) ?_ ?_ a args [] ⟨hargs, rfl⟩
    · rintro x y xs read ⟨hleft, hread⟩
      have htext : text (x :: y :: xs) = x.render ++ Mark.comma.token :: text (y :: xs) := by
        simp only [text, List.map_cons, Token.joined_cons, List.append_assoc, List.cons_append]
        rfl
      rw [htext]
      refine ⟨by simp; omega, argument (hleft x List.mem_cons_self) (.comma _) fun e he => ?_⟩
      refine (skipNewlines rfl).next fun _ _ => (eatIf rfl (by simp [text])).known ?_
      refine answer ⟨_, rfl, fun b hb => hleft b (List.mem_cons_of_mem x hb), ?_⟩
      rw [← hread]
      simp [Argument.shape, he]
    · rintro x read ⟨hleft, hread⟩
      have htext : text [x] = x.render ++ Mark.rightParen.token :: after := by
        simp only [text, List.map_cons, List.map_nil, Token.joined_singleton]
      rw [htext]
      refine argument (hleft x List.mem_cons_self) (.rightParen _) fun e he => ?_
      refine (skipNewlines rfl).next fun _ _ => (eat_not rfl).known ?_
      refine (skipNewlines rfl).next fun _ _ => (expect rfl hne).known ?_
      refine answer ⟨_, rfl, ?_⟩
      rw [← hread]
      simp [Argument.shape, he]

/-- A call whose arguments no lambda follows. -/
theorem suffix_call (e : Expr) {args : List Argument}
    (hargs : ∀ a ∈ args, ParsesWrapped g.expr a.value) (h : Closing after) :
    Takes (suffix g e) (wrapped (joined (.mark .comma) (args.map Argument.render)) ++ after) after
      fun o => ∃ f, o = some f ∧
        ∃ read, f.kind = .call e [] read ∧ read.map Argument.shape = args.map Argument.shape := by
  have harguments := arguments_render (g := g) hargs h.ne_nil
  rw [Token.wrapped_append] at harguments ⊢
  refine ofCursor fun c hc => ?_
  simp only [Cursor.kind_of_rest (Cursor.rest_pastNewlines rfl hc), Cursor.kind_of_rest hc]
  refine map ((atMark .leftParen).known (harguments.next fun read hread => ?_))
  refine next (P := (· = false)) (m := after) ?_ ?_
  · exact fun s hs => ⟨_, s, rfl, hs, h.test_eq_false hs rfl⟩
  · rintro _ rfl
    refine known (answer rfl) (lastSpan.next fun _ _ => ?_)
    exact (newExpr _ _).mono fun f hf => ⟨f, rfl, read, hf, hread⟩

theorem suffix_index (e : Expr) {indices : List Expr} (hne : indices ≠ [])
    (hindices : ∀ i ∈ indices, ParsesWrapped g.expr i) (h : after ≠ []) :
    Takes (suffix g e) (Mark.leftBracket.token ::
        (joined (.mark .comma) (indices.map fun i => wrapped i.render) ++
          Mark.rightBracket.token :: after)) after
      fun o => ∃ f, o = some f ∧
        ∃ read, f.kind = .index e read ∧ read.map Expr.shape = indices.map Expr.shape := by
  obtain ⟨i, indices, rfl⟩ := List.exists_cons_of_ne_nil hne
  let text (is : List Expr) : List Token :=
    joined (.mark .comma) (is.map fun i => wrapped i.render) ++ Mark.rightBracket.token :: after
  let S (left read : List Expr) : Prop := (∀ i ∈ left, ParsesWrapped g.expr i) ∧
    read.map Expr.shape ++ left.map Expr.shape = (i :: indices).map Expr.shape
  refine ofCursor fun c hc => ?_
  simp only [Cursor.kind_of_rest (Cursor.rest_pastNewlines rfl hc), Cursor.kind_of_rest hc]
  refine map ((advance (by simp)).known (next (m := Mark.rightBracket.token :: after)
    (P := fun read => read.map Expr.shape = (i :: indices).map Expr.shape) ?_ fun read hread => ?_))
  · refine loop_separated (T := text) (S := S) ?_ ?_ i indices [] ⟨hindices, rfl⟩
    · rintro x y xs read ⟨hleft, hread⟩
      have htext :
          text (x :: y :: xs) = wrapped x.render ++ Mark.comma.token :: text (y :: xs) := by
        simp only [text, List.map_cons, Token.joined_cons, List.append_assoc, List.cons_append]
        rfl
      refine ⟨by rw [htext]; simp; omega, ?_⟩
      have hx := hleft x List.mem_cons_self _ (.comma (text (y :: xs)))
      rw [htext]
      rw [Token.wrapped_append] at hx ⊢
      refine (skipNewlines rfl).next fun _ _ => hx.next fun e he => ?_
      refine (skipNewlines rfl).next fun _ _ => (eatIf rfl (by simp [text])).known ?_
      refine answer ⟨_, rfl, fun b hb => hleft b (List.mem_cons_of_mem x hb), ?_⟩
      rw [← hread]
      simp [he]
    · rintro x read ⟨hleft, hread⟩
      have htext : text [x] = wrapped x.render ++ Mark.rightBracket.token :: after := by
        simp only [text, List.map_cons, List.map_nil, Token.joined_singleton]
      have hx := hleft x List.mem_cons_self _ (.rightBracket after)
      rw [htext]
      rw [Token.wrapped_append] at hx ⊢
      refine (skipNewlines rfl).next fun _ _ => hx.next fun e he => ?_
      refine (skipNewlines rfl).next fun _ _ => (eat_not rfl).known ?_
      refine answer ⟨_, rfl, ?_⟩
      rw [← hread]
      simp [he]
  · refine (expect rfl h).known (lastSpan.next fun _ _ => ?_)
    exact (newExpr _ _).mono fun f hf => ⟨f, rfl, read, hf, hread⟩

/-- At a comparison no suffix is read: what follows the sign is no type. -/
theorem unsuffixed_operator (op : BinaryOp) (rest : List Token) :
    Unsuffixed g (op.kind.token :: Mark.leftParen.token :: rest) := by
  by_cases hop : op = .less
  · subst hop
    refine fun e => ofCursor fun c hc => ?_
    simp only [Cursor.kind_of_rest (Cursor.rest_pastNewlines rfl hc), Cursor.kind_of_rest hc]
    cases hcallable : e.kind.isCallable with
    | false => exact answer rfl
    | true =>
      refine known (a := none) (ofCursor fun start hstart => ?_) (answer rfl)
      refine Fails.attempt ?_ fun _ => (moveTo hstart).next fun _ _ => answer rfl
      refine Fails.next (advance (List.cons_ne_nil _ _)) fun _ _ => Fails.loop (Fails.first ?_)
      exact Fails.next (eat_not rfl) fun _ ha => ha ▸ Fails.first (Fails.expectName rfl)
  · refine unsuffixed_of_kind fun c hc => ?_
    have hline : op.kind.isNewline = false := by cases op <;> rfl
    rw [Cursor.kind_of_rest (Cursor.rest_pastNewlines hline hc), Cursor.kind_of_rest hc]
    cases op <;> first | exact ⟨rfl, rfl⟩ | exact absurd rfl hop

/-! ### Lambdas -/

/-- Without parameters a lambda starts with a statement or is closed at once. -/
theorem lambdaParams_nil {t : Token} {ts : List Token} (hline : t.kind.isNewline = false)
    (hname : t.kind.plainName? = none) :
    Takes (lambdaParams g) (t :: ts) (t :: ts) (· = []) := by
  refine ofCursor fun start hstart => Fails.attempt ?_ fun _ => ?_
  · refine Fails.next (skipNewlines hline) fun _ _ => Fails.loop ?_
    refine Fails.next kind fun k hk => Fails.first ?_
    rw [hk, hname]
    exact Fails.fail
  · exact (moveTo hstart).next fun _ _ => answer rfl

theorem lambdaParams_cons {params : List LambdaParam} (hne : params ≠ [])
    (htypes : ∀ p ∈ params, p.type = none) (h : after ≠ []) :
    Takes (lambdaParams g) (LambdaParam.render params ++ after) after
      fun read => read.map LambdaParam.unnumbered = params.map LambdaParam.unnumbered := by
  obtain ⟨p, params, rfl⟩ := List.exists_cons_of_ne_nil hne
  let text (ps : List LambdaParam) : List Token :=
    joined (.mark .comma) (ps.map fun p => [Token.named p.name]) ++ Mark.arrow.token :: after
  let S (left read : List LambdaParam) : Prop := (∀ p ∈ left, p.type = none) ∧
    read.map LambdaParam.unnumbered ++ left.map LambdaParam.unnumbered
      = (p :: params).map LambdaParam.unnumbered
  have hlast (x : LambdaParam) : text [x] = .named x.name :: Mark.arrow.token :: after := by
    simp only [text, List.map_cons, List.map_nil, Token.joined_singleton, List.singleton_append]
  have hmore (x y : LambdaParam) (xs : List LambdaParam) :
      text (x :: y :: xs) = .named x.name :: Mark.comma.token :: text (y :: xs) := by
    simp only [text, List.map_cons, Token.joined_cons, List.append_assoc, List.cons_append]
    rfl
  have hmade {left read : List LambdaParam} {x : LambdaParam} (hS : S (x :: left) read)
      (decl : DeclId) : S left (read ++ [⟨decl, x.name, none⟩]) := by
    refine ⟨fun q hq => hS.1 q (List.mem_cons_of_mem x hq), ?_⟩
    rw [← hS.2]
    simp [LambdaParam.unnumbered, hS.1 x List.mem_cons_self]
  have hstart : LambdaParam.render (p :: params) ++ after = text (p :: params) := by
    simp [LambdaParam.render, text]
  have hhead : ∃ ts, text (p :: params) = .named p.name :: ts := by
    cases params with
    | nil => exact ⟨_, hlast p⟩
    | cons q params => exact ⟨_, hmore p q params⟩
  rw [hstart]
  refine ofCursor fun start _ => next (m := after) (attempt (P := fun read =>
    read.map LambdaParam.unnumbered = (p :: params).map LambdaParam.unnumbered)
    (next (m := text (p :: params)) (P := fun _ => True) ?_ fun _ _ =>
      loop_separated (T := text) (S := S) ?_ ?_ p params [] ⟨htypes, rfl⟩)) ?_
  · obtain ⟨ts, hts⟩ := hhead
    rw [hts]
    exact skipNewlines rfl
  · intro x y xs read hS
    rw [hmore]
    refine ⟨by simp only [List.length_cons]; omega, kind.known (known (a := x.name) orFail ?_)⟩
    refine (advance (List.cons_ne_nil _ _)).known ((eat_not rfl).known ?_)
    refine known (answer rfl) (newDecl.next fun decl _ => ?_)
    refine (eatIf rfl (by simp [text])).known ?_
    exact answer ⟨_, rfl, hmade hS decl⟩
  · intro x read hS
    rw [hlast]
    refine kind.known (known (a := x.name) orFail ?_)
    refine (advance (List.cons_ne_nil _ _)).known ((eat_not rfl).known ?_)
    refine known (answer rfl) (newDecl.next fun decl _ => ?_)
    refine (eat_not rfl).known ((expect rfl h).known ?_)
    refine answer ⟨_, rfl, ?_⟩
    simpa using (hmade hS decl).2
  · rintro _ ⟨read, rfl, hread⟩
    exact answer hread

/-- The statements of a body, up to and past its closing brace. -/
theorem statements_render {es : List Expr} (hes : ∀ e ∈ es, ParsesWrapped (expression g) e)
    (h : after ≠ []) :
    Takes (statements g) (joined .newline (es.map fun e => wrapped e.render) ++
        Mark.rightBrace.token :: after) after
      fun read => ∃ fs : List Expr, read = fs.map Stmt.expr ∧
        fs.map Expr.shape = es.map Expr.shape := by
  let text (es : List Expr) : List Token :=
    joined .newline (es.map fun e => wrapped e.render) ++ Mark.rightBrace.token :: after
  let S (left : List Expr) (read : List Stmt) : Prop :=
    (∀ e ∈ left, ParsesWrapped (expression g) e) ∧
      ∃ fs : List Expr, read = fs.map Stmt.expr ∧
        fs.map Expr.shape ++ left.map Expr.shape = es.map Expr.shape
  refine loop_items (T := text) (S := S) ?_ ?_ es [] ⟨hes, [], rfl, rfl⟩
  · rintro x xs read ⟨hleft, fs, rfl, hread⟩
    -- what follows the statement, and where the end of the statement leads
    obtain ⟨rest, htext, hclosing, hend, hlength⟩ : ∃ rest,
        text (x :: xs) = wrapped x.render ++ rest ∧ Closing rest ∧
          Takes statementEnd rest (text xs) (fun _ => True) ∧ (text xs).length ≤ rest.length := by
      cases xs with
      | nil =>
        refine ⟨text [], ?_, .rightBrace after, kind.known (answer trivial), le_rfl⟩
        simp only [text, List.map_cons, List.map_nil, Token.joined_singleton]
        rfl
      | cons y ys =>
        have htext : text (x :: y :: ys) =
            wrapped x.render ++ TokenKind.newline.token :: text (y :: ys) := by
          simp only [text, List.map_cons, Token.joined_cons, List.append_assoc, List.cons_append]
        have hopen : ∃ ts, text (y :: ys) = Mark.leftParen.token :: ts := by
          cases ys <;> exact ⟨_, rfl⟩
        refine ⟨_, htext, ?_, kind.known ?_, Nat.le_succ _⟩
        · obtain ⟨ts, hts⟩ := hopen
          exact hts ▸ .line
        · exact (advance (by simp [text])).known (answer trivial)
    have hx := hleft x List.mem_cons_self rest hclosing
    refine ⟨by simp [htext, wrapped]; omega, ?_⟩
    rw [htext]
    rw [Token.wrapped_append] at hx ⊢
    refine (skipSeparators rfl).next fun _ _ => (eat_not rfl).known (kind.known ?_)
    let read? (s : Stmt) : Prop := ∃ e, s = .expr e ∧ e.shape = x.shape
    refine ofCursor fun start _ => next (m := text xs) (attempt (P := read?)
      (next (P := read?) (m := rest) (kind.known ?_) ?_)) ?_
    · exact hx.next fun e he => (eatIf_not fun c hc => hclosing.test_eq_false hc rfl).known
        (answer ⟨e, rfl, he⟩)
    · exact fun s hs => hend.next fun _ _ => answer hs
    · rintro _ ⟨_, rfl, e, rfl, he⟩
      refine answer ⟨_, rfl, fun y hy => hleft y (List.mem_cons_of_mem x hy), fs ++ [e], ?_, ?_⟩
      · rw [List.map_append]
        rfl
      · rw [← hread]
        simp [he]
  · rintro read ⟨-, fs, rfl, hread⟩
    refine (skipSeparators rfl).next fun _ _ => (eatIf rfl h).known ?_
    exact answer ⟨_, rfl, fs, rfl, by simpa using hread⟩

/-- What is printed of a lambda, where the body is a list of expressions. -/
theorem lambda_render {params : List LambdaParam} {es : List Expr}
    (htypes : ∀ p ∈ params, p.type = none)
    (hstmts : ∀ after, after ≠ [] → Takes g.stmts
      (joined .newline (es.map fun e => wrapped e.render) ++ Mark.rightBrace.token :: after) after
        fun read => ∃ fs : List Expr, read = fs.map Stmt.expr ∧
          fs.map Expr.shape = es.map Expr.shape) (it : DeclId) (span : Span) (h : after ≠ []) :
    Takes (lambda g) (Mark.leftBrace.token :: (LambdaParam.render params ++
        (joined .newline (es.map fun e => wrapped e.render) ++ Mark.rightBrace.token :: after)))
      after
      fun e => e.kind.shape = (ExprKind.lambda params it ⟨es.map Stmt.expr, span⟩).shape := by
  refine (expect rfl (by simp)).known (next (m := joined .newline (es.map fun e =>
    wrapped e.render) ++ Mark.rightBrace.token :: after) (P := fun read =>
      read.map LambdaParam.unnumbered = params.map LambdaParam.unnumbered) ?_ ?_)
  · cases params with
    | nil =>
      refine (?_ : Takes _ _ _ _).mono (P := (· = [])) fun _ hread => hread ▸ rfl
      rcases es with _ | ⟨e, _ | ⟨f, es⟩⟩ <;> exact lambdaParams_nil rfl rfl
    | cons p params => exact lambdaParams_cons (List.cons_ne_nil _ _) htypes (by simp)
  · intro read hread
    refine newDecl.next fun it' _ => (hstmts after h).next ?_
    rintro _ ⟨fs, rfl, hfs⟩
    refine lastSpan.next fun _ _ => (newExpr _ _).mono fun e he => ?_
    rw [he, ExprKind.shape_lambda, ExprKind.shape_lambda, hread, hfs]

/-! ### Branches and templates -/

theorem branch_render (he : ParsesWrapped g.expr e) (h : Closing after) :
    Takes (branch g) (wrapped e.render ++ after) after (·.shape = e.shape) := by
  have hwrapped := he after h
  rw [Token.wrapped_append] at hwrapped ⊢
  exact (skipNewlines rfl).next fun _ _ => (atMark .leftBrace).known hwrapped

/-- The tokens of an `else` are told from the end of a branch. -/
theorem atElse_of_rest (h : ∀ c : Cursor, c.rest = after →
      c.pastNewlines.kind.isKeyword .elseKw = false) :
    Takes atElse after after (· = false) :=
  ofCursor fun c hc => answer (by rw [h c hc, Bool.false_and])

theorem atElse_render (rest : List Token) :
    Takes atElse ((TokenKind.keyword .elseKw).token :: Mark.leftParen.token :: rest)
      ((TokenKind.keyword .elseKw).token :: Mark.leftParen.token :: rest) (· = true) := by
  refine ofCursor fun c hc => answer ?_
  have hpast := Cursor.rest_pastNewlines rfl hc
  obtain ⟨hhere, hahead⟩ := List.cons.inj hpast
  simp only [Cursor.kind, Cursor.kindAt?, hhere, hahead]
  rfl

theorem ifElse_render {c t : Expr} {o : Option Expr} (hc : ParsesWrapped g.expr c)
    (ht : ParsesWrapped g.expr t) (ho : ∀ e, o = some e → ParsesWrapped g.expr e)
    {u : Token} {us : List Token} (hu : u.kind = .mark .rightParen ∨ u.kind = .eof) :
    Takes (ifElse g) ((ExprKind.ifElse c t o).render ++ u :: us) (u :: us)
      fun e => e.kind.shape = (ExprKind.ifElse c t o).shape := by
  have hend : Closing (u :: us) := .token (by rcases hu with hu | hu <;> simp [hu, TokenKind.ends])
  have hmade (c' t' o') (hshapes : c'.shape = c.shape ∧ t'.shape = t.shape ∧
      Option.map Expr.shape o' = Option.map Expr.shape o) (start : Token) :
      Takes (do Parser.newExpr (start.span.join (← Parser.lastSpan)) (.ifElse c' t' o'))
        (u :: us) (u :: us) fun e => e.kind.shape = (ExprKind.ifElse c t o).shape := by
    refine lastSpan.next fun _ _ => (newExpr _ _).mono fun e he => ?_
    obtain ⟨hc', ht', ho'⟩ := hshapes
    rw [he, ExprKind.shape_ifElse, ExprKind.shape_ifElse, hc', ht', ho']
  -- the tokens, with what follows the branch
  obtain ⟨rest, hrender, hrest⟩ : ∃ rest, (ExprKind.ifElse c t o).render ++ u :: us =
      (TokenKind.keyword .ifKw).token :: Mark.leftParen.token :: (wrapped c.render ++
        Mark.rightParen.token :: (wrapped t.render ++ rest)) ∧
      rest = Expr.renderElse o ++ u :: us := by
    refine ⟨_, ?_, rfl⟩
    simp [ExprKind.render, Token.wrapped]
  have hclosing : Closing rest := by
    subst hrest
    cases o with
    | none => exact hend
    | some e => exact .token (by simp [TokenKind.ends, TokenKind.token])
  rw [hrender]
  refine (advance (by simp)).known ((expect rfl (by simp [wrapped])).known ?_)
  have hcondition := hc _ (.rightParen (wrapped t.render ++ rest))
  have hthen := branch_render ht hclosing
  rw [Token.wrapped_append c.render] at hcondition ⊢
  refine (skipNewlines rfl).next fun _ _ => hcondition.next fun c' hc' => ?_
  refine (skipNewlines rfl).next fun _ _ => (expect rfl (by simp [wrapped])).known ?_
  refine hthen.next fun t' ht' => ?_
  subst hrest
  cases o with
  | none =>
    refine next (m := u :: us) (P := (· = false)) (atElse_of_rest fun d hd => ?_) ?_
    · have hline : u.kind.isNewline = false := by rcases hu with hu | hu <;> rw [hu] <;> rfl
      rw [Cursor.kind_of_rest (Cursor.rest_pastNewlines hline hd)]
      rcases hu with hu | hu <;> rw [hu] <;> rfl
    · rintro _ rfl
      exact known (answer rfl) (hmade c' t' none ⟨hc', ht', rfl⟩ _)
  | some e =>
    have helse := branch_render (ho e rfl) hend
    rw [Expr.renderElse, List.cons_append]
    rw [Token.wrapped_append] at helse ⊢
    refine (atElse_render _).known ((skipNewlines rfl).next fun _ _ => ?_)
    refine (advance (List.cons_ne_nil _ _)).known ?_
    refine next (map (R := fun o' => o'.map Expr.shape = some e.shape)
      (helse.mono fun e' he' => congrArg some he')) fun o' ho' => ?_
    exact hmade c' t' o' ⟨hc', ht', ho'⟩ _

theorem embedded_render (hprint : e.Printable) (h : Parses g.expr e) :
    Takes (embedded g (e.render ++ [TokenKind.eof.token])) after after (·.shape = e.shape) := by
  obtain ⟨t, ts, hhead, hline⟩ := hprint.render_head
  have hinner := h TokenKind.eof.token [] (.inr rfl)
  rw [hhead, List.cons_append] at hinner ⊢
  refine within (m := [TokenKind.eof.token]) ?_ (List.cons_ne_nil _ _)
  refine (skipNewlines hline).next fun _ _ => hinner.next fun f hf => ?_
  exact (skipNewlines rfl).next fun _ _ => kind.known (answer hf)

theorem embedded_renders {parts : List Expr} (hprint : ∀ p ∈ parts, p.Printable)
    (h : ∀ p ∈ parts, Parses g.expr p) :
    Takes ((parts.map fun p => p.render ++ [TokenKind.eof.token]).mapM (embedded g)) after after
      fun es => es.map Expr.shape = parts.map Expr.shape := by
  induction parts with
  | nil => exact answer rfl
  | cons p parts ih =>
    rw [List.map_cons, List.mapM_cons]
    refine (embedded_render (hprint p List.mem_cons_self) (h p List.mem_cons_self)).next
      fun e he => ?_
    refine (ih (fun x hx => hprint x (List.mem_cons_of_mem p hx))
      fun x hx => h x (List.mem_cons_of_mem p hx)).next fun es hes => answer ?_
    rw [List.map_cons, List.map_cons, he, hes]

theorem primary_template {parts : List Expr} (hprint : ∀ p ∈ parts, p.Printable)
    (h : ∀ p ∈ parts, Parses g.expr p) (hne : after ≠ []) :
    Takes (primary g) ((ExprKind.template parts).render ++ after) after
      fun e => e.kind.shape = (ExprKind.template parts).shape := by
  refine ofCursor fun c hc => ?_
  obtain ⟨here, ahead, last⟩ := c
  rw [ExprKind.render, Expr.renders_eq_map, List.map_map] at hc ⊢
  obtain ⟨rfl, -⟩ := List.cons.inj hc
  refine (advance hne).known ((embedded_renders hprint h).next fun es hes => ?_)
  refine (newExpr _ _).mono fun e he => ?_
  rw [he, ExprKind.shape_template, ExprKind.shape_template, hes]

end Takes

end Parser

end FrameCheck
