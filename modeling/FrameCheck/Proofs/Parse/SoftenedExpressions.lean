import FrameCheck.Proofs.Parse.Rounds
import FrameCheck.Proofs.Parse.SoftenedTypes

/-!
# Expressions with a soft keyword in the place of a name
-/

namespace FrameCheck

/-- The parsers for nested parts read after the replacement what they read before, and types lag
behind. -/
class Grammar.Softens (g : Grammar) (σ : Softening) : Prop where
  depth : ∃ n, g = Grammar.ofDepth n
  steady : Parser.Steady g.type
  type : ∀ s, Parser.Lags σ Parser.AtDot g.type g.type s
  expr : ∀ s, Parser.Carries σ True g.expr g.expr s
  stmts : ∀ s, Parser.Carries σ True g.stmts g.stmts s

namespace Named

variable {σ : Softening} {e e' : Expr}

theorem Same.span_eq (h : Same σ e e') : e'.span = e.span := by
  obtain ⟨id, span, kind⟩ := e
  obtain ⟨id', span', kind'⟩ := e'
  have h : Expr.unnumbered _ = (Expr.renamed σ.on _).unnumbered := h
  rw [Expr.unnumbered, Expr.renamed, Expr.unnumbered] at h
  exact (Expr.mk.inj h).2.1

theorem span_rename (t : Token) : (rename σ t).span = t.span := t.span_soften σ

theorem Same.isCallable (h : Same σ e e') : e'.kind.isCallable = e.kind.isCallable := by
  have hunnumbered (k : ExprKind) : k.unnumbered.isCallable = k.isCallable := by cases k <;> rfl
  have hrenamed (k : ExprKind) : (k.renamed σ.on).isCallable = k.isCallable := by cases k <;> rfl
  obtain ⟨id, span, kind⟩ := e
  obtain ⟨id', span', kind'⟩ := e'
  have h : Expr.unnumbered _ = (Expr.renamed σ.on _).unnumbered := h
  rw [Expr.unnumbered, Expr.renamed, Expr.unnumbered] at h
  exact (hunnumbered kind').symm.trans
    ((congrArg ExprKind.isCallable (Expr.mk.inj h).2.2).trans ((hunnumbered _).trans (hrenamed _)))

theorem Same.type {t t' : TypeRef} (h : Same σ t t') : t' = t.renamed σ.on := h

theorem Same.expr (h : Same σ e e') : e'.unnumbered = (e.renamed σ.on).unnumbered := h

theorem Same.argument {n : Option String} (hn : n ≠ some σ.name) (h : Same σ e e') :
    Same σ (Argument.mk n e) (Argument.mk n e') := by
  have hn : n.map σ.on = n := by
    cases n with
    | none => rfl
    | some n => exact congrArg some (Softening.on_of_ne fun heq => hn (congrArg some heq))
  show Argument.unnumbered _ = (Argument.renamed σ.on _).unnumbered
  rw [Argument.renamed, Argument.unnumbered, Argument.unnumbered, hn, h.expr]

theorem Same.stmts {ss ss' : List Stmt} (h : Same σ ss ss') :
    ss'.map Stmt.unnumbered = (ss.map (Stmt.renamed σ.on)).map Stmt.unnumbered := h

theorem Same.block {ss ss' : List Stmt} (h : Same σ ss ss') {span : Span} :
    Same σ (Block.mk ss span) (Block.mk ss' span) := by
  show Block.unnumbered _ = (Block.renamed σ.on _).unnumbered
  rw [Block.renamed, Block.unnumbered, Block.unnumbered, Stmt.unnumberedAll_eq_map,
    Stmt.unnumberedAll_eq_map, Stmt.renamedAll_eq_map, h.stmts]

theorem clean_block {ss : List Stmt} {span : Span} : Clean σ (Block.mk ss span) ↔ Clean σ ss := by
  simp [Clean, strict, Block.strictNames]

theorem Same.exprs {es es' : List Expr} (h : Same σ es es') :
    es'.map Expr.unnumbered = (es.map (Expr.renamed σ.on)).map Expr.unnumbered := h

theorem Same.expr? {e e' : Option Expr} (h : Same σ e e') :
    e'.map Expr.unnumbered = (e.map (Expr.renamed σ.on)).map Expr.unnumbered := h

theorem Same.arguments {as as' : List Argument} (h : Same σ as as') :
    as'.map Argument.unnumbered = (as.map (Argument.renamed σ.on)).map Argument.unnumbered := h

theorem Same.branches {bs bs' : List WhenBranch} (h : Same σ bs bs') :
    bs'.map WhenBranch.unnumbered = (bs.map (WhenBranch.renamed σ.on)).map WhenBranch.unnumbered := h

theorem Same.params {ps ps' : List LambdaParam} (h : Same σ ps ps') :
    ps'.map LambdaParam.unnumbered = (ps.map (LambdaParam.renamed σ.on)).map LambdaParam.unnumbered := h

theorem Same.types {ts ts' : List TypeRef} (h : Same σ ts ts') :
    ts' = ts.map (TypeRef.renamed σ.on) := by
  have h : ts'.map (fun t => t) = (ts.map (TypeRef.renamed σ.on)).map fun t => t := h
  rwa [List.map_id', List.map_id'] at h

theorem Same.body {b b' : Block} (h : Same σ b b') :
    b'.unnumbered = (b.renamed σ.on).unnumbered := h

theorem Same.span_body {b b' : Block} (h : Same σ b b') : b'.span = b.span := by
  obtain ⟨stmts, span⟩ := b
  obtain ⟨stmts', span'⟩ := b'
  have h := h.body
  rw [Block.renamed, Block.unnumbered, Block.unnumbered] at h
  exact (Block.mk.inj h).2

theorem clean_argument {n : Option String} :
    Clean σ (Argument.mk n e) ↔ n ≠ some σ.name ∧ Clean σ e := by
  simp [Clean, strict, Argument.strictNames]

end Named

theorem BinaryOp.renamed_of_ne {σ : Softening} {op : BinaryOp} (h : op ≠ .named σ.name) :
    op.renamed σ.on = op := by
  cases op with
  | named n => exact congrArg _ (Softening.on_of_ne fun hn => h (congrArg _ hn))
  | _ => rfl

namespace Parser

open Named

namespace Carries

variable {σ : Softening} {α β : Type} [Named α] [Named β] {A : Prop} {s : ParseState}

/-- What is read has the name in a place where no soft keyword does. -/
theorem of_spoils {p p' : Parser α} [hp : Forward p] (h : Spoils σ p) : Carries σ A p p' s :=
  fun hs a t hd => ⟨hs.of_suffix (hp.reaches_of_done hd).rest_suffix,
    fun _ hclean => absurd hclean (h s a t hd)⟩

end Carries

namespace Spoils

variable {σ : Softening} {β : Type} [Named β]

theorem newExpr_next {span : Span} {kind : ExprKind} {f : Expr → Parser β}
    (h : σ.name ∈ kind.strictNames) (hf : ∀ e, ¬Clean σ e → Spoils σ (f e)) :
    Spoils σ (newExpr span kind >>= f) := by
  intro s b t hd
  exact hf ⟨s.nextExpr, span, kind⟩ (fun hclean => hclean h) _ b t hd

end Spoils

namespace Carries

variable {σ : Softening} {α β : Type} [Named α] [Named β] {A : Prop} {s : ParseState}

/-! ## Operator chains -/

/-- Only the operator that is the name itself is not found. -/
theorem at?_soften (c : Cursor) : BinaryOp.at? (c.soften σ)
    = (BinaryOp.at? c).filter fun op => decide (op ≠ .named σ.name) := by
  have hop (k : TokenKind) : BinaryOp.ofToken? (k.soften σ)
      = (BinaryOp.ofToken? k).filter fun op => decide (op ≠ .named σ.name) := by
    rw [BinaryOp.ofToken?_soften]
    cases k with
    | name n => simp [TokenKind.isName, BinaryOp.ofToken?, Option.filter]
    | mark m => cases m <;> rfl
    | _ => rfl
  unfold BinaryOp.at?
  rw [Cursor.kind_soften, TokenKind.isNewline_soften, Cursor.pastNewlines_soften,
    Cursor.kind_soften, hop, hop]
  split
  · rw [Option.filter_filter, Option.filter_filter]
    exact congrArg (fun f => Option.filter f _) (funext fun op => Bool.and_comm _ _)
  · rfl

section

variable {operand : Parser Expr} [hoperand : Forward operand]
  (h : ∀ s, Carries σ True operand operand s)

include h

theorem chain (p : Precedence) (s : ParseState) :
    Carries σ True (chain p operand) (chain p operand) s := by
  refine next (h s) fun first first' t _ hfirst => ?_
  refine (loop (fun left left' s hleft => ?_) hfirst t).mono fun hclean => ⟨hclean, trivial⟩
  refine cursor_next fun _ => ?_
  rw [at?_soften]
  have := hoperand.tracks
  cases BinaryOp.at? s.cursor with
  | none => exact done (congrArg Round.stop hleft) fun h => h
  | some op =>
    by_cases hop : op = .named σ.name
    · -- the operator is the name
      subst hop
      rw [Option.filter_some_neg (by simp)]
      dsimp only
      split
      · refine of_spoils (.next fun _ => .next fun _ => .next fun _ => .next fun right => ?_)
        exact .newExpr_next (by simp [ExprKind.strictNames, BinaryOp.strictNames]) fun e he =>
          .done he
      · exact done (congrArg Round.stop hleft) fun h => h
    · rw [Option.filter_some_pos (by simpa using hop)]
      refine ite Iff.rfl (fun _ => ?_) fun _ => done (congrArg Round.stop hleft) fun h => h
      refine (Exact.skipNewlines s).next fun _ t _ => (Exact.advance t).next fun _ t _ => ?_
      refine (Exact.skipNewlines t).next fun _ t _ => next (h t) fun right right' t _ hright => ?_
      refine through (newExpr ?_ ?_ fun hclean => ?_) fun e e' t he =>
        done (congrArg Round.next he) fun h => h
      · rw [hleft.span_eq, hright.span_eq]
      · rw [ExprKind.renamed, ExprKind.unnumbered, ExprKind.unnumbered, BinaryOp.renamed_of_ne hop,
          hleft.expr, hright.expr]
      · simp [ExprKind.strictNames] at hclean
        exact ⟨hclean.2.2, hclean.2.1⟩

omit hoperand in
theorem binary (hoperand : Forward operand) : ∀ (ps : List Precedence) (s : ParseState),
    Carries σ True (binary operand ps) (binary operand ps) s
  | [] => h
  | p :: tighter =>
    @chain _ _ ⟨Tracks.binary hoperand.tracks tighter⟩ (binary hoperand tighter) p

omit hoperand in
theorem signed (s : ParseState) :
    Carries σ True (signed operand) (signed operand) s := by
  refine next (loop (fun ops ops' s hops => ?_) rfl s |>.mono fun _ => trivial)
    fun ops ops' t _ hops => ?_
  · refine (Exact.kind s).next fun k t _ => ?_
    rw [show UnaryOp.ofToken? (rename σ k) = UnaryOp.ofToken? k from UnaryOp.ofToken?_soften σ k]
    cases UnaryOp.ofToken? k with
    | none => exact done (congrArg Round.stop hops) fun h => h
    | some op =>
      refine (Exact.advance t).next fun token t _ => done ?_ fun _ => Nameless.clean ops
      refine congrArg Round.next (congrArg₂ List.cons ?_ hops)
      rw [span_rename]
      rfl
  · refine next (h t) fun inner inner' t _ hinner => ?_
    refine (foldlM (fun e e' op op' s he hop => ?_) ops ops' inner inner' t hops hinner).mono
      fun hclean => ⟨hclean, Nameless.clean ops, trivial⟩
    obtain rfl : op' = op := hop
    refine newExpr ?_ ?_ fun hclean => hclean
    · rw [he.span_eq]
    · rw [ExprKind.renamed, ExprKind.unnumbered, ExprKind.unnumbered, he.expr]

end

variable (g : Grammar) [g.Forward] [hg : g.Softens σ]

include hg

theorem typeRef (s : ParseState) : Carries σ True (typeRef g) (typeRef g) s :=
  have := hg.steady
  (Lags.typeRef g hg.type s).carries

theorem castChain {operand : Parser Expr} (h : ∀ s, Carries σ True operand operand s)
    (s : ParseState) : Carries σ True (castChain g operand) (castChain g operand) s := by
  refine next (h s) fun first first' t _ hfirst => ?_
  refine (loop (fun e e' s he => ?_) hfirst t).mono fun hclean => ⟨hclean, trivial⟩
  refine (Exact.eatKeyword s rfl).next fun cast t _ => ite Iff.rfl (fun _ => ?_) fun _ => ?_
  · refine (Exact.eat t .question).next fun safe t _ => next (typeRef g t) fun type type' t _ ht => ?_
    refine (Exact.lastSpan t).next fun last t _ => ?_
    refine through (newExpr ?_ ?_ fun hclean => ?_) fun e e' t he =>
      done (congrArg Round.next he) fun h => h
    · rw [he.span_eq]
      rfl
    · rw [ExprKind.renamed, ExprKind.unnumbered, ExprKind.unnumbered, he.expr, ht.type]
      rfl
    · rw [ExprKind.strictNames, List.mem_append, not_or] at hclean
      exact ⟨hclean.2, hclean.1⟩
  · exact done (congrArg Round.stop he) fun h => h

/-! ## Calls and blocks -/

omit hg in
omit [g.Forward] in
/-- The name of a named argument is no soft keyword. -/
theorem argumentName_next {f f' : Option String → Parser β}
    (hforward : ∀ n c, Tracks Cursor.Unbounded c 1 (f n) (f n))
    (hf : ∀ n t, n ≠ some σ.name → Carries σ A (f n) (f' n) t)
    (hspoils : Spoils σ (f (some σ.name))) :
    Carries σ A (argumentName >>= f) (argumentName >>= f') s := by
  unfold argumentName
  rw [bind_assoc, bind_assoc]
  refine cursor_next fun _ => ?_
  rw [Cursor.kind_soften, TokenKind.plainName?_soften, Cursor.kindAt_soften,
    TokenKind.isMark_soften]
  cases s.cursor.kind with
  | name n =>
    by_cases hn : n = σ.name
    · subst hn
      rw [if_pos (TokenKind.isName_name _)]
      dsimp only [TokenKind.plainName?]
      split
      · simp only [bind_assoc, pure_bind]
        have hrest := hforward (some σ.name)
        exact of_spoils (.next fun _ => .next fun _ => .next fun _ => hspoils)
      · exact hf none s nofun
    · rw [if_neg fun h : TokenKind.isName σ.name (.name n) = true => hn (beq_iff_eq.1 h)]
      dsimp only [TokenKind.plainName?]
      split
      · simp only [bind_assoc, pure_bind]
        refine (Exact.advance s).next fun _ t _ => (Exact.advance t).next fun _ t _ => ?_
        exact (Exact.skipNewlines t).next fun _ t _ => hf _ t fun h => hn (Option.some.inj h)
      · exact hf none s nofun
  | _ => exact hf none s nofun

theorem arguments (s : ParseState) : Carries σ True (arguments g) (arguments g) s := by
  refine (Exact.expect s .leftParen).next fun _ t _ => ?_
  refine (loop (fun args args' s hargs => ?_) rfl t).mono fun _ => trivial
  refine (Exact.skipNewlines s).next fun _ t _ => (Exact.eat t .rightParen).next fun closed t _ => ?_
  refine ite Iff.rfl (fun _ => done (congrArg Round.stop hargs) fun h => h) fun _ => ?_
  refine argumentName_next (fun _ _ => Tracks.next fun _ => Tracks.next fun value => inferInstance)
    (fun n t hn => ?_) ?_
  · refine (Exact.eat t .star).next fun _ t _ => next (hg.expr t) fun value value' t _ hvalue => ?_
    have hsame : Same σ (args ++ [⟨n, value⟩]) (args' ++ [⟨n, value'⟩]) :=
      same_append hargs (hvalue.argument hn)
    have hclean (h : Clean σ (args ++ [⟨n, value⟩])) : Clean σ value ∧ Clean σ args := by
      rw [clean_append, clean_argument] at h
      exact ⟨h.2.2, h.1⟩
    refine (Exact.skipNewlines t).next fun _ t _ => (Exact.eat t .comma).next fun more t _ => ?_
    refine ite Iff.rfl (fun _ => done (congrArg Round.next hsame) hclean) fun _ => ?_
    refine (Exact.skipNewlines t).next fun _ t _ => (Exact.expect t .rightParen).next fun _ t _ => ?_
    exact done (congrArg Round.stop hsame) hclean
  · refine .next fun _ => .next fun value => ?_
    have hdirty : ¬Clean σ (args ++ [⟨some σ.name, value⟩]) := fun h =>
      (clean_argument.1 (clean_append.1 h).2).1 rfl
    exact .next fun _ => .next fun more => .ite (.done hdirty) (.next fun _ => .next fun _ => .done hdirty)

omit [g.Forward] in
theorem block (s : ParseState) : Carries σ True (block g) (block g) s := by
  refine (Exact.expect s .leftBrace).next fun start t _ => ?_
  refine next (hg.stmts t) fun stmts stmts' t _ hstmts => (Exact.lastSpan t).next fun last t _ => ?_
  refine done ?_ fun hclean => ⟨clean_block.1 hclean, trivial⟩
  rw [span_rename]
  exact hstmts.block

omit hg in
omit [g.Forward] in
/-- Where a parser that may lag behind fails, its tokens are read otherwise, before the replacement
and after it. -/
theorem attempt_next {p p' : Parser α} [hforward : Forward p] [hsteady : Steady p]
    [hsteady' : Steady p'] (hp : Lags σ (fun _ _ => False) p p' s)
    {f f' : Cursor → Option α → Parser β} {q q' : Parser β}
    (hsome : ∀ c c' a b t, Same σ a b → Carries σ (Clean σ a ∧ A) (f c (some a)) (f' c' (some b)) t)
    (hnone : ∀ c, f c none = (Parser.moveTo c >>= fun _ => q))
    (hnone' : ∀ c, f' c none = (Parser.moveTo c >>= fun _ => q'))
    (hq : ∀ t, t.cursor = s.cursor → Carries σ A q q' t) :
    Carries σ A (Parser.cursor >>= fun c => Parser.attempt p >>= f c)
      (Parser.cursor >>= fun c => Parser.attempt p' >>= f' c) s := by
  intro hs c u hd
  replace hd : (Parser.attempt p >>= f s.cursor) s = .done c u := hd
  obtain ⟨o, t, ho, hd⟩ := bind_eq_done.1 hd
  have hskip := hsteady.skipped_eq s
  obtain ⟨a, rfl, hps⟩ | ⟨rfl, hps⟩ := attempt_eq_done.1 ho
  · rw [hps] at hskip
    have ht := hs.of_suffix (hforward.reaches_of_done hps).rest_suffix
    obtain ⟨hu, hback⟩ := hsome _ s.cursor a _ _ rfl ht c u hd
    refine ⟨hu, fun hskipped hclean => ?_⟩
    obtain ⟨htskipped, ⟨ha, hA⟩, -⟩ := hback hskipped hclean
    refine ⟨hskip.symm.trans htskipped, hA, fun s' hs' => ?_⟩
    have hboth := hp s' hs'
    rw [hps] at hboth
    cases hps' : p' s' with
    | failed v =>
      rw [hps'] at hboth
      exact absurd ha hboth
    | done b v =>
      rw [hps'] at hboth
      obtain ⟨hab, hv⟩ := hboth.resolve_right fun h => h.2
      obtain ⟨d, w, hfd, hcd, hw⟩ := ((hsome _ s'.cursor a b _ hab ht c u hd).2 hskipped hclean).2.2 v hv
      exact ⟨d, w, (bind_of_done (attempt_of_done hps')).trans hfd, hcd, hw⟩
  · rw [hps] at hskip
    rw [hnone] at hd
    obtain ⟨hu, hback⟩ := hq { t with cursor := s.cursor } rfl hs c u hd
    refine ⟨hu, fun hskipped hclean => ?_⟩
    obtain ⟨htskipped, hA, hrun⟩ := hback hskipped hclean
    have hskip : t.skipped = s.skipped := hskip
    refine ⟨hskip.symm.trans htskipped, hA, fun s' hs' => ?_⟩
    have hboth := hp s' hs'
    have hskip' := hsteady'.skipped_eq s'
    rw [hps] at hboth
    cases hps' : p' s' with
    | done b v =>
      rw [hps'] at hboth
      exact hboth.elim
    | failed v =>
      rw [hps'] at hskip'
      have hskip' : v.skipped = s'.skipped := hskip'
      obtain ⟨d, w, hfd, hcd, hw⟩ := hrun { v with cursor := s'.cursor }
        ⟨hs, hs'.cursor, hskip'.trans (hs'.skipped.trans hskip.symm)⟩
      exact ⟨d, w, (bind_of_done (attempt_of_failed hps')).trans ((congrFun (hnone' _) v).trans hfd),
        hcd, hw⟩

theorem callTypeArgs (s : ParseState) : Carries σ True (callTypeArgs g) (callTypeArgs g) s := by
  have := hg.steady
  have hforward : Forward (Parser.advance >>= fun _ => Parser.loop (Rounds.callTypeArgs g) []) :=
    ⟨fun _ => Tracks.next fun _ => Tracks.loop (Tracks.callTypeArgsRound g g) _⟩
  refine attempt_next (Lags.callTypeArgs_inner g hg.type s)
    (fun _ _ args args' t hargs => done (congrArg some hargs) fun h => ⟨clean_some.1 h, trivial⟩)
    (fun _ => rfl) (fun _ => rfl) fun t _ => done rfl fun _ => trivial

theorem lambdaParams (s : ParseState) : Carries σ True (lambdaParams g) (lambdaParams g) s := by
  have := hg.steady
  have hforward : Forward (Parser.skipNewlines >>= fun _ => Parser.loop (Rounds.lambdaParams g) []) :=
    ⟨fun _ => Tracks.next fun _ => Tracks.loop (Tracks.lambdaParamsRound g g) _⟩
  exact attempt_next (Lags.lambdaParams_inner g hg.type s)
    (fun _ _ args args' t hargs => done hargs fun h => ⟨h, trivial⟩)
    (fun _ => rfl) (fun _ => rfl) fun t _ => done rfl fun _ => trivial

theorem lambda (s : ParseState) : Carries σ True (lambda g) (lambda g) s := by
  refine (Exact.expect s .leftBrace).next fun start t _ => ?_
  refine next (lambdaParams g t) fun params params' t _ hparams => ?_
  refine newDecl_next fun it it' t _ => next (hg.stmts t) fun stmts stmts' t _ hstmts => ?_
  refine (Exact.lastSpan t).next fun last t _ => newExpr ?_ ?_ fun hclean => ?_
  · rw [span_rename]
    rfl
  · rw [span_rename]
    rw [ExprKind.renamed, ExprKind.unnumbered, ExprKind.unnumbered, hparams.params, hstmts.block.body]
    rfl
  · rw [ExprKind.strictNames, List.mem_append, not_or] at hclean
    exact ⟨clean_block.1 hclean.2, hclean.1, trivial⟩

theorem call {callee callee' : Expr} (hcallee : Same σ callee callee')
    {types types' : List TypeRef} (htypes : Same σ types types') (s : ParseState) :
    Carries σ (Clean σ callee ∧ Clean σ types) (call g callee types) (call g callee' types') s := by
  refine (Exact.atMark s .leftParen).next fun paren t _ => ?_
  extract_lets made trailing made' trailing'
  have hmade {args args'} (hargs : Same σ args args') (t) :
      Carries σ (Clean σ args ∧ Clean σ callee ∧ Clean σ types) (made args) (made' args') t := by
    refine (Exact.lastSpan t).next fun last t _ => newExpr ?_ ?_ fun hclean => ?_
    · rw [hcallee.span_eq]
      rfl
    · rw [ExprKind.renamed, ExprKind.unnumbered, ExprKind.unnumbered, hcallee.expr, htypes.types,
        Argument.unnumberedAll_eq_map, Argument.renamedAll_eq_map, Argument.unnumberedAll_eq_map,
        hargs.arguments]
    · simp only [ExprKind.strictNames, List.mem_append, not_or, TypeRef.strictNamesAll_eq_flatMap,
        Argument.strictNamesAll_eq_flatMap] at hclean
      exact ⟨hclean.2, hclean.1.1, hclean.1.2⟩
  have htrailing {args args'} (hargs : Same σ args args') (t) :
      Carries σ (Clean σ args ∧ Clean σ callee ∧ Clean σ types) (trailing args) (trailing' args') t := by
    refine (Exact.atMark t .leftBrace).next fun brace t _ => ite Iff.rfl (fun _ => ?_) fun _ => ?_
    · refine next (lambda g t) fun f f' t _ hf => ?_
      have hsame := same_append hargs (hf.argument (n := none) (by simp))
      refine next (A := _) (done hsame fun _ => trivial) fun all all' t hall hall' => ?_
      cases hall
      refine (hmade hall' t).mono fun h => ⟨h.1, ?_⟩
      rw [clean_append, clean_argument] at h
      exact ⟨h.1.2.2, h.1.1, h.2⟩
    · refine next (A := _) (done hargs fun _ => trivial) fun all all' t hall hall' => ?_
      cases hall
      exact (hmade hall' t).mono fun h => ⟨h.1, h⟩
  refine ite Iff.rfl (fun _ => ?_) fun _ => ?_
  · exact next (arguments g t) fun args args' t _ hargs => htrailing hargs t
  · refine next (A := _) (done (a := []) (b := []) rfl fun _ => trivial) fun all all' t hall hall' => ?_
    exact htrailing hall' t

/-! ## Suffixes -/

omit hg in
omit [g.Forward] in
theorem memberOf {receiver receiver' : Expr} (h : Same σ receiver receiver') (s : ParseState) :
    Carries σ (Clean σ receiver) (memberOf receiver) (memberOf receiver') s := by
  refine (Exact.skipNewlines s).next fun _ t _ => (Exact.advance t).next fun access t _ => ?_
  refine (Exact.expectName t).next fun (name, span) t _ => newExpr ?_ ?_ fun hclean => hclean
  · rw [h.span_eq]
  · rw [show (rename σ access).kind = access.kind.soften σ from Token.kind_soften σ access,
      TokenKind.isMark_soften, ExprKind.renamed, ExprKind.unnumbered, ExprKind.unnumbered, h.expr]

omit [g.Forward] in
theorem indexOf {receiver receiver' : Expr} (h : Same σ receiver receiver') (s : ParseState) :
    Carries σ (Clean σ receiver) (indexOf g receiver) (indexOf g receiver') s := by
  refine (Exact.advance s).next fun _ t _ => ?_
  refine next (loop (fun indices indices' s hindices => ?_) rfl t |>.mono fun _ => trivial)
    fun indices indices' t _ hindices => ?_
  · refine (Exact.skipNewlines s).next fun _ t _ => next (hg.expr t) fun index index' t _ hindex => ?_
    have hsame := same_append hindices hindex
    have hclean (h : Clean σ (indices ++ [index])) : Clean σ index ∧ Clean σ indices :=
      (clean_append.1 h).symm
    refine (Exact.skipNewlines t).next fun _ t _ => (Exact.eat t .comma).next fun more t _ => ?_
    exact ite Iff.rfl (fun _ => done (congrArg Round.next hsame) hclean) fun _ =>
      done (congrArg Round.stop hsame) hclean
  · refine (Exact.expect t .rightBracket).next fun _ t _ => (Exact.lastSpan t).next fun last t _ => ?_
    refine newExpr ?_ ?_ fun hclean => ?_
    · rw [h.span_eq]
      rfl
    · rw [ExprKind.renamed, ExprKind.unnumbered, ExprKind.unnumbered, h.expr,
        Expr.unnumberedAll_eq_map, Expr.renamedAll_eq_map, Expr.unnumberedAll_eq_map, hindices.exprs]
    · rw [ExprKind.strictNames, List.mem_append, not_or, Expr.strictNamesAll_eq_flatMap] at hclean
      exact ⟨hclean.2, hclean.1⟩

omit hg in
omit [g.Forward] in
theorem some {p p' : Parser α} (h : Carries σ A p p' s) :
    Carries σ A (Option.some <$> p) (Option.some <$> p') s :=
  through h fun _ _ _ hab => done (congrArg Option.some hab) clean_some.1

omit hg in
omit [g.Forward] in
theorem some_next {p p' : Parser α} (hp : Carries σ A p p' s) {f f' : Option α → Parser β}
    (hf : ∀ a b t, Same σ a b → Carries σ (Clean σ a) (f (Option.some a)) (f' (Option.some b)) t) :
    Carries σ A (Option.some <$> p >>= f) (Option.some <$> p' >>= f') s := by
  rw [bind_map_left, bind_map_left]
  exact through hp hf

/-- A suffix, or what comes where there is none. -/
theorem suffix_next {e e' : Expr} (he : Same σ e e') {f f' : Option Expr → Parser β}
    (hsome : ∀ a b t, Same σ a b → Carries σ (Clean σ a) (f (Option.some a)) (f' (Option.some b)) t)
    (hnone : ∀ t, Carries σ (Clean σ e) (f none) (f' none) t) (s : ParseState) :
    Carries σ (Clean σ e) (suffix g e >>= f) (suffix g e' >>= f') s := by
  unfold Parser.suffix
  rw [bind_assoc, bind_assoc]
  refine cursor_next fun _ => ?_
  dsimp only
  rw [he.isCallable, Cursor.pastNewlines_soften, Cursor.kind_soften, Cursor.kind_soften,
    TokenKind.isAccess_soften, TokenKind.isMark_soften, TokenKind.isMark_soften,
    TokenKind.isMark_soften, TokenKind.isMark_soften, TokenKind.isMark_soften]
  refine ite_next Iff.rfl (fun _ => some_next (memberOf he s) hsome) fun _ => ?_
  refine ite_next Iff.rfl (fun _ => ?_) fun _ => ?_
  · rw [bind_assoc, bind_assoc]
    refine next (callTypeArgs g s) fun types types' t hdone hsame => ?_
    clear hdone
    cases types <;> cases types'
    case none.none => exact (hnone t).mono fun h => ⟨clean_none, h⟩
    case some.some types types' =>
      have htypes : Same σ types types' := Option.some.inj hsame
      exact some_next ((call g he htypes t).mono fun h => ⟨clean_some.2 h.2, h.1⟩) hsome
    all_goals exact nomatch hsame
  refine ite_next Iff.rfl (fun _ => some_next ((call g he rfl s).mono And.left) hsome) fun _ => ?_
  refine ite_next Iff.rfl (fun _ => some_next (indexOf g he s) hsome) fun _ => ?_
  refine ite_next Iff.rfl (fun _ => ?_) fun _ => hnone s
  simp only [bind_assoc]
  refine (Exact.advance s).next fun _ t _ => (Exact.lastSpan t).next fun last t _ => ?_
  refine some_next (newExpr ?_ ?_ fun hclean => hclean) hsome
  · rw [he.span_eq]
    rfl
  · rw [ExprKind.renamed, ExprKind.unnumbered, ExprKind.unnumbered, he.expr]

/-! ## Branches -/

omit [g.Forward] in
theorem branch (s : ParseState) : Carries σ True (branch g) (branch g) s := by
  refine (Exact.skipNewlines s).next fun _ t _ => (Exact.atMark t .leftBrace).next fun braced t _ => ?_
  refine ite Iff.rfl (fun _ => ?_) fun _ => hg.expr t
  refine next (block g t) fun b b' t _ hb => newExpr hb.span_body ?_ fun hclean => ⟨hclean, trivial⟩
  rw [ExprKind.renamed, ExprKind.unnumbered, ExprKind.unnumbered, hb.body]

omit [g.Forward] in
theorem ifElse (s : ParseState) : Carries σ True (ifElse g) (ifElse g) s := by
  refine (Exact.advance s).next fun start t _ => (Exact.expect t .leftParen).next fun _ t _ => ?_
  refine (Exact.skipNewlines t).next fun _ t _ => next (hg.expr t) fun c c' t _ hc => ?_
  refine (Exact.skipNewlines t).next fun _ t _ => (Exact.expect t .rightParen).next fun _ t _ => ?_
  refine next (branch g t) fun b b' t _ hb => (Exact.atElse t).next fun more t _ => ?_
  extract_lets made made'
  have hmade {other other' : Option Expr} (hother : Same σ other other') (t) :
      Carries σ (Clean σ other ∧ Clean σ b ∧ Clean σ c ∧ True) (made other) (made' other') t := by
    refine (Exact.lastSpan t).next fun last t _ => newExpr ?_ ?_ fun hclean => ?_
    · rw [span_rename]
      rfl
    · rw [ExprKind.renamed, ExprKind.unnumbered, ExprKind.unnumbered, hc.expr, hb.expr,
        Expr.unnumbered?_eq_map, Expr.renamed?_eq_map, Expr.unnumbered?_eq_map, hother.expr?]
    · rw [ExprKind.strictNames, List.mem_append, List.mem_append, not_or, not_or,
        Expr.strictNames?_eq_flatMap] at hclean
      exact ⟨hclean.2, hclean.1.2, hclean.1.1, trivial⟩
  refine ite Iff.rfl (fun _ => ?_) fun _ => ?_
  · refine (Exact.skipNewlines t).next fun _ t _ => (Exact.advance t).next fun _ t _ => ?_
    exact next (some (branch g t)) fun other other' t _ hother => hmade hother t
  · exact next (done (a := none) (b := none) rfl fun _ => trivial) fun other other' t _ hother =>
      hmade hother t

/-- The name is no segment of a type that is dropped. -/
theorem clean_of_dropped {t u : ParseState} {type : TypeRef} {test : TokenKind → Bool}
    (htest : ∀ k, test k = true → k.isName "is" = true ∨ k.isMark .colon = true)
    (hs : σ.Suited s.cursor.rest) (heat : Parser.eatIf test s = .done true t)
    (hd : Parser.typeRef g t = .done type u) : Clean σ type := by
  obtain ⟨n, rfl⟩ := hg.depth
  obtain ⟨h, rfl⟩ := eatIf_eq_true.1 heat
  exact hs.head.type_dropped (htest _ h) n s type u rfl hd

/-- A type that is dropped. -/
theorem dropped_next {t : ParseState} {test : TokenKind → Bool}
    (htest : ∀ k, test k = true → k.isName "is" = true ∨ k.isMark .colon = true)
    (hs : σ.Suited s.cursor.rest) (heat : Parser.eatIf test s = .done true t)
    {f f' : TypeRef → Parser β} (hf : ∀ type type' u, Carries σ A (f type) (f' type') u) :
    Carries σ A (Parser.typeRef g >>= f) (Parser.typeRef g >>= f') t :=
  next (typeRef g t) fun type type' u hd _ =>
    (hf type type' u).mono fun hA => ⟨clean_of_dropped g htest hs heat hd, hA⟩

theorem whenSubject (s : ParseState) : Carries σ True (whenSubject g) (whenSubject g) s := by
  refine (Exact.skipNewlines s).next fun _ t _ => (Exact.eatKeyword t rfl).next fun named t _ => ?_
  extract_lets subject
  have hsubject (t) : Carries σ True (subject ()) (subject ()) t := by
    refine next (hg.expr t) fun e e' t _ he => (Exact.skipNewlines t).next fun _ t _ => ?_
    exact (Exact.expect t .rightParen).next fun _ t _ => done he fun h => ⟨h, trivial⟩
  refine ite Iff.rfl (fun _ => ?_) fun _ => hsubject t
  have hrest (t) : Carries σ True (Parser.expect .equal >>= fun _ => Parser.skipNewlines >>= subject)
      (Parser.expect .equal >>= fun _ => Parser.skipNewlines >>= subject) t :=
    (Exact.expect t .equal).next fun _ t _ => (Exact.skipNewlines t).next fun _ t _ => hsubject t
  refine (Exact.expectName t).next fun _ t _ => of_suited fun ht => ?_
  refine (Exact.eat t .colon).next fun typed u htyped => ite Iff.rfl (fun htrue => ?_) fun _ => hrest u
  subst htrue
  exact dropped_next g (fun k hk => Or.inr hk) ht htyped fun _ _ t => hrest t

theorem whenCondition (s : ParseState) : Carries σ True (whenCondition g) (whenCondition g) s := by
  refine cursor_next fun _ => ?_
  extract_lets condition
  have his (k : TokenKind) : (k.soften σ).isName "is" = k.isName "is" := k.isName_soften (by simp)
  have hin (k : TokenKind) : (k.soften σ).isName "in" = k.isName "in" := k.isName_soften (by simp)
  have hcondition (t) : Carries σ True (condition ()) (condition ()) t := by
    refine of_suited fun ht => (Exact.eatIf his t).next fun isType u htype => ?_
    refine ite Iff.rfl (fun htrue => ?_) fun _ => ?_
    · subst htrue
      exact dropped_next g (fun k hk => Or.inl hk) ht htype fun _ _ t => done rfl fun _ => trivial
    · exact (Exact.eatIf hin u).next fun _ t _ => some (hg.expr t)
  simp only [Cursor.kind_soften, Cursor.kindAt_soften, TokenKind.isMark_soften, his, hin]
  refine ite Iff.rfl (fun _ => ?_) fun _ => hcondition s
  exact (Exact.advance s).next fun _ t _ => hcondition t

theorem whenBranch (s : ParseState) : Carries σ True (whenBranch g) (whenBranch g) s := by
  refine (Exact.eatKeyword s rfl).next fun isElse t _ => ?_
  extract_lets arm
  have harm {cs cs' : List Expr} (hcs : Same σ cs cs') (t) :
      Carries σ (Clean σ cs ∧ True) (arm cs) (arm cs') t := by
    refine (Exact.skipNewlines t).next fun _ t _ => (Exact.expect t .arrow).next fun _ t _ => ?_
    refine next (branch g t) fun b b' t _ hb => done ?_ fun hclean => ?_
    · show WhenBranch.unnumbered _ = (WhenBranch.renamed σ.on _).unnumbered
      rw [WhenBranch.renamed, WhenBranch.unnumbered, WhenBranch.unnumbered, hb.expr,
        Expr.unnumberedAll_eq_map, Expr.renamedAll_eq_map, Expr.unnumberedAll_eq_map, hcs.exprs]
    · have hnot : σ.name ∉ WhenBranch.strictNames _ := hclean
      rw [WhenBranch.strictNames, List.mem_append, not_or, Expr.strictNamesAll_eq_flatMap] at hnot
      exact ⟨hnot.2, hnot.1, trivial⟩
  refine ite Iff.rfl (fun _ => ?_) fun _ => ?_
  · exact next (done (a := []) (b := []) rfl fun _ => trivial) fun cs cs' t _ hcs => harm hcs t
  refine next (loop (fun cs cs' s hcs => ?_) rfl t |>.mono fun _ => trivial)
    fun cs cs' t _ hcs => harm hcs t
  refine (Exact.skipNewlines s).next fun _ t _ => next (whenCondition g t) fun c c' t _ hc => ?_
  refine (Exact.skipNewlines t).next fun _ t _ => (Exact.eat t .comma).next fun more t _ => ?_
  have hsame : Same σ (cs ++ c.toList) (cs' ++ c'.toList) := by
    cases c <;> cases c'
    case none.none => simpa using hcs
    case some.some => exact same_append hcs (Option.some.inj hc)
    all_goals exact nomatch hc
  have hclean (h : Clean σ (cs ++ c.toList)) : Clean σ c ∧ Clean σ cs := by
    cases c with
    | none => exact ⟨clean_none, by simpa using h⟩
    | some c => exact ⟨clean_some.2 (clean_append.1 h).2, (clean_append.1 h).1⟩
  exact ite Iff.rfl (fun _ => done (congrArg Round.next hsame) hclean) fun _ =>
    done (congrArg Round.stop hsame) hclean

theorem whenOf (s : ParseState) : Carries σ True (whenOf g) (whenOf g) s := by
  refine (Exact.advance s).next fun start t _ => (Exact.eat t .leftParen).next fun subjected t _ => ?_
  extract_lets branches branches'
  have hbranches {subject subject' : Option Expr} (hsubject : Same σ subject subject') (t) :
      Carries σ (Clean σ subject ∧ True) (branches subject) (branches' subject') t := by
    refine (Exact.skipNewlines t).next fun _ t _ => (Exact.expect t .leftBrace).next fun _ t _ => ?_
    refine next (loop (fun bs bs' s hbs => ?_) rfl t |>.mono fun _ => trivial)
      fun bs bs' t _ hbs => (Exact.lastSpan t).next fun last t _ => newExpr ?_ ?_ fun hclean => ?_
    · refine (Exact.skipSeparators s).next fun _ t _ => (Exact.eat t .rightBrace).next fun closed t _ => ?_
      refine ite Iff.rfl (fun _ => done (congrArg Round.stop hbs) fun h => h) fun _ => ?_
      refine next (whenBranch g t) fun b b' t _ hb => done (congrArg Round.next (same_append hbs hb)) ?_
      exact fun h => (clean_append.1 h).symm
    · rw [span_rename]
      rfl
    · rw [ExprKind.renamed, ExprKind.unnumbered, ExprKind.unnumbered, Expr.unnumbered?_eq_map,
        Expr.renamed?_eq_map, Expr.unnumbered?_eq_map, hsubject.expr?,
        WhenBranch.unnumberedAll_eq_map, WhenBranch.renamedAll_eq_map,
        WhenBranch.unnumberedAll_eq_map, hbs.branches]
    · rw [ExprKind.strictNames, List.mem_append, not_or, Expr.strictNames?_eq_flatMap,
        WhenBranch.strictNamesAll_eq_flatMap] at hclean
      exact ⟨hclean.2, hclean.1, trivial⟩
  refine ite Iff.rfl (fun _ => ?_) fun _ => ?_
  · exact next (some (whenSubject g t)) fun subject subject' t _ h => hbranches h t
  · exact next (done (a := none) (b := none) rfl fun _ => trivial) fun subject subject' t _ h =>
      hbranches h t

/-! ## Operands -/

omit [g.Forward] in
theorem embedded {tokens : List Token} (ht : σ.Suited tokens) (s : ParseState) :
    Carries σ True (embedded g tokens) (embedded g (tokens.map (Token.soften σ))) s := by
  refine within ht ((Exact.skipNewlines _).next fun _ t _ => next (hg.expr t) fun e e' t _ he => ?_)
  refine (Exact.skipNewlines t).next fun _ t _ => (Exact.kind t).next fun k t _ => ?_
  refine ite ?_ (fun _ => done he fun h => ⟨h, trivial⟩) fun _ => fail
  rw [show (rename σ k).isEof = k.isEof from TokenKind.isEof_soften k]

omit [g.Forward] in
theorem parenthesized (s : ParseState) : Carries σ True (parenthesized g) (parenthesized g) s := by
  refine (Exact.advance s).next fun _ t _ => (Exact.skipNewlines t).next fun _ t _ => ?_
  refine next (hg.expr t) fun e e' t _ he => (Exact.skipNewlines t).next fun _ t _ => ?_
  exact (Exact.expect t .rightParen).next fun _ t _ => done he fun h => ⟨h, trivial⟩

theorem primary (s : ParseState) : Carries σ True (primary g) (primary g) s := by
  refine cursor_next fun hs => ?_
  extract_lets token token'
  have hkind : token'.kind = token.kind.soften σ := Token.kind_soften σ _
  have hspan : token'.span = token.span := Token.span_soften σ _
  rw [hkind, hspan, Literal.ofToken?_soften, TokenKind.asName?_soften]
  have htake {kind kind' : ExprKind} (hk : kind'.unnumbered = (kind.renamed σ.on).unnumbered) :
      Carries σ True (Parser.advance >>= fun _ => Parser.newExpr token.span kind)
        (Parser.advance >>= fun _ => Parser.newExpr token.span kind') s :=
    (Exact.advance s).next fun _ t _ => newExpr rfl hk fun _ => trivial
  cases Literal.ofToken? token.kind with
  | some value => exact htake rfl
  | none =>
    cases hname : token.kind.asName? with
    | some name => exact htake rfl
    | none =>
      rcases token.kind.soften_cases σ with hk | ⟨parts, hk⟩ | ⟨-, hplain, hk⟩
      · rw [hk] at hname
        exact nomatch hname
      · rw [hk, TokenKind.soften, Token.softenParts_eq_map]
        refine (Exact.advance s).next fun _ t _ => ?_
        refine next (mapM parts (fun part hpart s => embedded g ?_ s) t) fun parts parts' t _ hparts => ?_
        · exact hs.part List.mem_cons_self (by rw [hk]; exact hpart)
        · refine newExpr rfl ?_ fun h => ⟨?_, trivial⟩
          · rw [ExprKind.unnumbered_renamed_template, ExprKind.unnumbered, Expr.unnumberedAll_eq_map,
              hparts.exprs]
          · rwa [ExprKind.strictNames_template] at h
      · rw [hk]
        dsimp only
        split
        · exact htake rfl
        · exact parenthesized g s
        · next h => exact absurd h (hplain _)
        · exact ifElse g s
        · exact whenOf g s
        · exact lambda g s
        · exact fail

theorem suffixed (s : ParseState) : Carries σ True (suffixed g) (suffixed g) s := by
  refine next (primary g s) fun first first' t _ hfirst => ?_
  refine (loop (fun e e' s he => ?_) hfirst t).mono fun hclean => ⟨hclean, trivial⟩
  refine suffix_next g he (fun a b t hab => ?_) (fun t => ?_) s
  · exact done (congrArg Round.next hab) fun h => h
  · exact done (congrArg Round.stop he) fun h => h

theorem expression (s : ParseState) : Carries σ True (expression g) (expression g) s := by
  refine binary (castChain g (signed (suffixed g))) ⟨fun c => ?_⟩ _ s
  exact (Tracks.castChain_starts g g _ _).tracks (Tracks.signed fun _ => inferInstance)

end Carries

end Parser

end FrameCheck
