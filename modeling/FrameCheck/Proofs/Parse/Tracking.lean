import FrameCheck.Proofs.Parse.Cursors
import FrameCheck.Proofs.Parse.Outcomes
import FrameCheck.Proofs.Parse.Rounds

/-!
# Parsers go on, and how deep they nest

Wherever a parser stops, done or failed, its cursor has come from the place where it started, and it
takes back no id. A rule goes to the grammar only behind a token that it has consumed, so two
grammars that agree on what is lighter make the rules agree on what is one token heavier
(`Parser.Tracks`). Both are followed through the rules at once. What is known of the tokens that are
left is a `Nesting` : that they have a bounded weight, or nothing at all.

An attempt that is given up puts the cursor back to a place that the parser has seen, so a parser is
followed from any place `c` before its start.

* `Tracks.next`, `Tracks.loop`, `Tracks.cursor_next` : the rules for combined parsers.
* `Tracks.expect_next`, `TracksAt.advance_next` : behind a consumed token, what is left is lighter.
-/

namespace FrameCheck

/-- What is known of the tokens left at a cursor, with a number that a consumed token lowers. -/
class Nesting (F : Nat → Cursor → Prop) : Prop where
  advance : ∀ {n c}, F n c → F n c.advance
  consume : ∀ {n c}, F (n + 1) c → c.kind.isEof = false → F n c.advance
  weaken : ∀ {n c}, F n c → F (n + 1) c
  part : ∀ {n c part}, F (n + 1) c → part ∈ c.kind.parts → F n (Cursor.ofTokens part)

namespace Cursor

instance Fits.nesting : Nesting Fits where
  advance h := h.advance
  consume h hk := h.consume hk
  weaken h := ⟨h.1, Nat.le_succ_of_le h.2⟩
  part h hpart := h.part hpart

/-- Nothing is known of the tokens. -/
def Unbounded (_ : Nat) (_ : Cursor) : Prop := True

instance Unbounded.nesting : Nesting Unbounded := ⟨id, fun _ _ => trivial, id, fun _ _ => trivial⟩

/-- A place that comes from `c`, of which this much is known. -/
structure Leads (F : Nat → Cursor → Prop) (c : Cursor) (n : Nat) (d : Cursor) : Prop where
  reaches : c.Reaches d
  known : F n d

section

variable {F : Nat → Cursor → Prop} {c d e : Cursor} {n : Nat}

theorem Leads.here (h : F n c) : Leads F c n c := ⟨.here, h⟩

variable [hF : Nesting F]

theorem Leads.advance (h : Leads F c n d) : Leads F c n d.advance :=
  ⟨h.reaches.step, hF.advance h.known⟩

theorem Leads.consume (h : Leads F c (n + 1) d) (hk : d.kind.isEof = false) :
    Leads F c n d.advance :=
  ⟨h.reaches.step, hF.consume h.known hk⟩

theorem Leads.weaken (h : Leads F c n d) : Leads F c (n + 1) d := ⟨h.reaches, hF.weaken h.known⟩

theorem Leads.reach (h : Leads F c n d) (hd : d.Reaches e) : Leads F c n e := by
  induction hd with
  | here => exact h
  | step _ ih => exact ih.advance

end

end Cursor

namespace Parser

variable {α β σ : Type}

/-- Between two states no id is taken back, and nothing that was skipped. -/
structure Grown (s t : ParseState) : Prop where
  nextExpr : s.nextExpr ≤ t.nextExpr
  nextDecl : s.nextDecl ≤ t.nextDecl
  skipped : s.skipped <:+ t.skipped

namespace Grown

variable {s t u : ParseState}

theorem trans (h : Grown s t) (h' : Grown t u) : Grown s u :=
  ⟨h.nextExpr.trans h'.nextExpr, h.nextDecl.trans h'.nextDecl, h.skipped.trans h'.skipped⟩

/-- Only the cursor is another. -/
theorem moved (s : ParseState) (c : Cursor) : Grown s { s with cursor := c } :=
  ⟨Nat.le_refl _, Nat.le_refl _, List.suffix_refl _⟩

theorem refl (s : ParseState) : Grown s s := moved s s.cursor

end Grown

/-- From the state `s` on, both outcomes are one, at a place that comes from `c` and with nothing
taken back. -/
structure Along (F : Nat → Cursor → Prop) (c : Cursor) (n : Nat) (s : ParseState)
    (o o' : Outcome α) : Prop where
  agree : o = o'
  leads : Cursor.Leads F c n o.state.cursor
  grown : Grown s o.state

/-- The two parsers come to the same from all places that come from `c`. -/
class Tracks (F : Nat → Cursor → Prop) (c : Cursor) (n : Nat) (p q : Parser α) : Prop where
  along : ∀ {s}, Cursor.Leads F c n s.cursor → Along F c n s (p s) (q s)

/-- The two parsers come to the same from the place `d`. -/
structure TracksAt (F : Nat → Cursor → Prop) (c : Cursor) (n : Nat) (d : Cursor) (p q : Parser α) :
    Prop where
  along : ∀ {s}, s.cursor = d → Cursor.Leads F c n d → Along F c n s (p s) (q s)

section

variable {F : Nat → Cursor → Prop} {c d : Cursor} {n : Nat} {p q : Parser α}
  {f f' : α → Parser β}

theorem Along.same {s : ParseState} (o : Outcome α) (h : Cursor.Leads F c n o.state.cursor)
    (hgrown : Grown s o.state) : Along F c n s o o :=
  ⟨rfl, h, hgrown⟩

theorem Along.after {s t : ParseState} {o o' : Outcome α} (h : Along F c n t o o')
    (hgrown : Grown s t) : Along F c n s o o' :=
  ⟨h.agree, h.leads, hgrown.trans h.grown⟩

theorem Along.weaken [hF : Nesting F] {s : ParseState} {o o' : Outcome α}
    (h : Along F c n s o o') : Along F c (n + 1) s o o' :=
  ⟨h.agree, h.leads.weaken, h.grown⟩

theorem Along.next {s : ParseState} (hp : Along F c n s (p s) (q s))
    (hf : ∀ {a t}, p s = .done a t → Cursor.Leads F c n t.cursor →
      Along F c n t (f a t) (f' a t)) :
    Along F c n s ((p >>= f) s) ((q >>= f') s) := by
  obtain ⟨hagree, hleads, hgrown⟩ := hp
  cases h : p s with
  | failed t =>
    rw [bind_of_failed h, bind_of_failed (hagree.symm.trans h)]
    rw [h] at hleads hgrown
    exact .same _ hleads hgrown
  | done a t =>
    rw [bind_of_done h, bind_of_done (hagree.symm.trans h)]
    rw [h] at hleads hgrown
    exact (hf h hleads).after hgrown

theorem Tracks.at (h : Tracks F c n p q) : TracksAt F c n d p q where
  along hs hd := h.along (hs ▸ hd)

namespace Tracks

/-! ### Combined parsers -/

theorem seq (hf : ∀ a, Tracks F c n (f a) (f' a)) (hp : Tracks F c n p q) :
    Tracks F c n (p >>= f) (q >>= f') where
  along hs := (hp.along hs).next fun _ ht => (hf _).along ht

/-- A parser that is known to go on, and then one that does. -/
theorem next [hp : Tracks F c n p q] (hf : ∀ a, Tracks F c n (f a) (f' a)) :
    Tracks F c n (p >>= f) (q >>= f') := seq hf hp

instance bind [Tracks F c n p q] [hf : ∀ a, Tracks F c n (f a) (f' a)] :
    Tracks F c n (p >>= f) (q >>= f') := next hf

instance answer (a : α) : Tracks F c n (pure a : Parser α) (pure a) where
  along hs := .same _ hs (.moved _ _)

instance fail : Tracks F c n (Parser.fail : Parser α) Parser.fail where
  along hs := .same _ hs (.moved _ _)

theorem failBefore : Tracks F c n ((Parser.fail : Parser α) >>= f) (Parser.fail >>= f') where
  along hs := .same _ hs (.moved _ _)

instance map [Tracks F c n p q] (f : α → β) : Tracks F c n (f <$> p) (f <$> q) :=
  next fun _ => answer _

instance ite {b : Prop} [Decidable b] {p' q' : Parser α} [Tracks F c n p q] [Tracks F c n p' q'] :
    Tracks F c n (if b then p else p') (if b then q else q') := by
  split <;> infer_instance

/-- The cursor is a place that a later parser may return to. -/
theorem cursor_next {f f' : Cursor → Parser α}
    (hf : ∀ d, Cursor.Leads F c n d → TracksAt F c n d (f d) (f' d)) :
    Tracks F c n (Parser.cursor >>= f) (Parser.cursor >>= f') where
  along {s} hs := (hf s.cursor hs).along rfl hs

theorem moveTo_next {f f' : Unit → Parser α} (hd : Cursor.Leads F c n d)
    (hf : Tracks F c n (f ()) (f' ())) :
    Tracks F c n (Parser.moveTo d >>= f) (Parser.moveTo d >>= f') where
  along {s} _ :=
    (hf.along (s := { s with cursor := d }) hd).after (.moved _ _)

theorem attempt (hp : Tracks F c n p q) : Tracks F c n (Parser.attempt p) (Parser.attempt q) where
  along {s} hs := by
    obtain ⟨hagree, hleads, hgrown⟩ := hp.along hs
    cases h : p s with
    | done a t =>
      rw [attempt_of_done h, attempt_of_done (hagree.symm.trans h)]
      rw [h] at hleads hgrown
      exact .same _ hleads hgrown
    | failed t =>
      rw [attempt_of_failed h, attempt_of_failed (hagree.symm.trans h)]
      rw [h] at hleads hgrown
      exact .same _ hleads hgrown

theorem rounds {step step' : σ → Parser (Round σ β)} (h : ∀ a, Tracks F c n (step a) (step' a)) :
    ∀ m a, Tracks F c n (Parser.rounds step m a) (Parser.rounds step' m a)
  | 0, _ => fail
  | m + 1, a => by
    refine seq (fun r => ?_) (h a)
    cases r with
    | next b => exact rounds h m b
    | stop r => exact answer r

theorem loop {step step' : σ → Parser (Round σ β)} (h : ∀ a, Tracks F c n (step a) (step' a))
    (start : σ) : Tracks F c n (Parser.loop step start) (Parser.loop step' start) where
  along hs := (rounds h _ start).along hs

theorem foldlM {step step' : β → α → Parser β} (h : ∀ b a, Tracks F c n (step b a) (step' b a)) :
    ∀ (l : List α) (b : β), Tracks F c n (l.foldlM step b) (l.foldlM step' b)
  | [], b => answer b
  | a :: l, b => by
    rw [List.foldlM_cons, List.foldlM_cons]
    exact seq (fun b' => foldlM h l b') (h b a)

theorem mapM {f f' : α → Parser β} :
    ∀ l : List α, (∀ a ∈ l, Tracks F c n (f a) (f' a)) → Tracks F c n (l.mapM f) (l.mapM f')
  | [], _ => answer []
  | a :: l, h => by
    rw [List.mapM_cons, List.mapM_cons]
    refine seq (fun b => seq (fun bs => answer _) (mapM l fun a ha => h a ?_)) (h a ?_)
    · exact List.mem_cons_of_mem _ ha
    · exact List.mem_cons_self

/-- Other tokens leave the cursor where it was. -/
theorem within {m : Nat} {tokens : List Token} (h : F m (Cursor.ofTokens tokens))
    (hp : Tracks F (Cursor.ofTokens tokens) m p q) :
    Tracks F c n (Parser.within tokens p) (Parser.within tokens q) where
  along {s} hs := by
    obtain ⟨hagree, -, hgrown⟩ :=
      hp.along (s := { s with cursor := Cursor.ofTokens tokens }) (.here h)
    have hback : Grown s (Parser.within tokens p s).state := by
      rw [state_within]
      exact (Grown.moved s _).trans (hgrown.trans (.moved _ _))
    have hsame : Parser.within tokens q s = Parser.within tokens p s := by
      rw [Parser.within, Parser.within, ← hagree]
    rw [hsame]
    exact .same _ (by rwa [state_within]) hback

/-! ### The cursor -/

variable [hF : Nesting F]

/-- A parser that only moves the cursor on. -/
theorem of_reaches (hreach : ∀ s : ParseState, s.cursor.Reaches (p s).state.cursor)
    (hgrown : ∀ s : ParseState, Grown s (p s).state) : Tracks F c n p p where
  along hs := .same _ (hs.reach (hreach _)) (hgrown _)

instance cursor : Tracks F c n Parser.cursor Parser.cursor :=
  of_reaches (fun _ => .here) fun _ => .moved _ _
instance kind : Tracks F c n Parser.kind Parser.kind :=
  of_reaches (fun _ => .here) fun _ => .moved _ _
instance span : Tracks F c n Parser.span Parser.span :=
  of_reaches (fun _ => .here) fun _ => .moved _ _
instance lastSpan : Tracks F c n Parser.lastSpan Parser.lastSpan :=
  of_reaches (fun _ => .here) fun _ => .moved _ _
instance atMark (m : Mark) : Tracks F c n (Parser.atMark m) (Parser.atMark m) :=
  of_reaches (fun _ => .here) fun _ => .moved _ _

instance advance : Tracks F c n Parser.advance Parser.advance :=
  of_reaches (fun _ => .step .here) fun _ => .moved _ _
instance skipNewlines : Tracks F c n Parser.skipNewlines Parser.skipNewlines :=
  of_reaches (fun s => s.cursor.reaches_skipWhile _) fun _ => .moved _ _
instance skipSeparators : Tracks F c n Parser.skipSeparators Parser.skipSeparators :=
  of_reaches (fun s => s.cursor.reaches_skipWhile _) fun _ => .moved _ _
instance skipLine : Tracks F c n Parser.skipLine Parser.skipLine :=
  of_reaches (fun s => s.cursor.reaches_skipWhile _) fun _ => .moved _ _

instance newDecl : Tracks F c n Parser.newDecl Parser.newDecl where
  along hs := .same _ hs ⟨Nat.le_refl _, Nat.le_succ _, List.suffix_refl _⟩
instance newExpr (span : Span) (kind : ExprKind) :
    Tracks F c n (Parser.newExpr span kind) (Parser.newExpr span kind) where
  along hs := .same _ hs ⟨Nat.le_succ _, Nat.le_refl _, List.suffix_refl _⟩

/-- What is left behind a token that is eaten is lighter. -/
theorem eatIf_next {test : TokenKind → Bool} {f f' : Bool → Parser α}
    (htest : ∀ k, test k = true → k.isEof = false) (htrue : Tracks F c n (f true) (f' true))
    (hfalse : Tracks F c (n + 1) (f false) (f' false)) :
    Tracks F c (n + 1) (Parser.eatIf test >>= f) (Parser.eatIf test >>= f') where
  along {s} hs := by
    by_cases hk : test s.cursor.kind = true
    · rw [bind_of_done (eatIf_of_pos hk), bind_of_done (eatIf_of_pos hk)]
      exact (htrue.along (hs.consume (htest _ hk))).weaken.after (.moved _ _)
    · rw [bind_of_done (eatIf_of_neg hk), bind_of_done (eatIf_of_neg hk)]
      exact hfalse.along hs

theorem eat_next {m : Mark} {f f' : Bool → Parser α} (htrue : Tracks F c n (f true) (f' true))
    (hfalse : Tracks F c (n + 1) (f false) (f' false)) :
    Tracks F c (n + 1) (Parser.eat m >>= f) (Parser.eat m >>= f') :=
  eatIf_next (fun _ => TokenKind.isEof_of_isMark) htrue hfalse

instance eatIf (test : TokenKind → Bool) :
    Tracks F c n (Parser.eatIf test) (Parser.eatIf test) where
  along {s} hs := by
    unfold Parser.eatIf
    split
    · exact .same _ hs.advance (.moved _ _)
    · exact .same _ hs (.moved _ _)

instance eat (m : Mark) : Tracks F c n (Parser.eat m) (Parser.eat m) := eatIf _
instance eatKeyword (k : Keyword) : Tracks F c n (Parser.eatKeyword k) (Parser.eatKeyword k) :=
  eatIf _

/-- What is left behind a mark that is expected is lighter. -/
theorem expect_next {m : Mark} {f f' : Token → Parser α} (hf : ∀ t, Tracks F c n (f t) (f' t)) :
    Tracks F c (n + 1) (Parser.expect m >>= f) (Parser.expect m >>= f') where
  along {s} hs := by
    by_cases hk : s.cursor.kind.isMark m = true
    · rw [bind_of_done (expect_of_isMark hk), bind_of_done (expect_of_isMark hk)]
      exact ((hf _).along (hs.consume (TokenKind.isEof_of_isMark hk))).weaken.after (.moved _ _)
    · rw [bind_of_failed (expect_of_not_isMark hk), bind_of_failed (expect_of_not_isMark hk)]
      exact .same _ hs (.moved _ _)

instance expect (m : Mark) : Tracks F c n (Parser.expect m) (Parser.expect m) where
  along {s} hs := by
    unfold Parser.expect
    split
    · exact .same _ hs.advance (.moved _ _)
    · exact .same _ hs (.moved _ _)

instance orFail (o : Option α) : Tracks F c n (Parser.orFail o) (Parser.orFail o) := by
  cases o
  · exact fail
  · exact answer _

instance expectName : Tracks F c n Parser.expectName Parser.expectName :=
  next fun token => by
    cases token.kind.asName? <;> infer_instance

/-- What holds with more tokens left holds with fewer. -/
theorem lower (h : ∀ d, Tracks F d (n + 1) p q) : Tracks F c n p q where
  along {s} hs := by
    obtain ⟨hagree, hleads, hgrown⟩ := (h s.cursor).along (.here (hF.weaken hs.known))
    exact ⟨hagree, hs.reach hleads.reaches, hgrown⟩

end Tracks

namespace TracksAt

theorem next (hf : ∀ a, Tracks F c n (f a) (f' a)) (hp : TracksAt F c n d p q) :
    TracksAt F c n d (p >>= f) (q >>= f') where
  along hs hd := (hp.along hs hd).next fun _ ht => (hf _).along ht

theorem map (hp : TracksAt F c n d p q) (f : α → β) : TracksAt F c n d (f <$> p) (f <$> q) :=
  next (fun _ => Tracks.answer _) hp

/-- What is left behind a token that does not end the text is lighter. -/
theorem advance_next [Nesting F] {f f' : Token → Parser α} (hk : d.kind.isEof = false)
    (hf : Tracks F c n (f d.here) (f' d.here)) :
    TracksAt F c (n + 1) d (Parser.advance >>= f) (Parser.advance >>= f') where
  along {s} := by
    rintro rfl hs
    exact (hf.along (s := { s with cursor := s.cursor.advance }) (hs.consume hk)).weaken.after (.moved _ _)

end TracksAt

/-- The parsers start with `p` and with `q`, and come to the same from there. -/
structure Starts (F : Nat → Cursor → Prop) (n : Nat) (p q : Parser α) (r r' : Parser β) : Prop where
  exists_next : ∃ f f' : α → Parser β, r = p >>= f ∧ r' = q >>= f' ∧
    ∀ c a, Tracks F c n (f a) (f' a)

theorem Starts.tracks {r r' : Parser β} (h : Starts F n p q r r') (hp : Tracks F c n p q) :
    Tracks F c n r r' := by
  obtain ⟨f, f', rfl, rfl, hf⟩ := h.exists_next
  exact Tracks.next (hf c)

/-- The parsers take one token, whatever it is, and come to the same from there. -/
abbrev Led (F : Nat → Cursor → Prop) (n : Nat) (p q : Parser α) : Prop :=
  Starts F n advance advance p q

end

end Parser

/-- The parsers for nested parts come to the same. -/
class Grammar.Agrees (F : Nat → Cursor → Prop) (n : Nat) (g g' : Grammar) : Prop where
  type : ∀ c, Parser.Tracks F c n g.type g'.type
  expr : ∀ c, Parser.Tracks F c n g.expr g'.expr
  stmts : ∀ c, Parser.Tracks F c n g.stmts g'.stmts

namespace Parser.Tracks

variable {F : Nat → Cursor → Prop} [hF : Nesting F] {c : Cursor} {n : Nat}

/-! ## Types -/

instance typeSegments (name : String) :
    Tracks F c n (Parser.typeSegments name) (Parser.typeSegments name) := by
  refine loop (fun name => next fun c => ?_) name
  split
  · exact next fun _ => next fun (_, _) => answer _
  · infer_instance

instance skipVariance : Tracks F c n Parser.skipVariance Parser.skipVariance :=
  next fun c => by split <;> infer_instance

variable (g g' : Grammar) [hg : Grammar.Agrees F n g g']

include hg

instance typeArgsRound (args : List TypeRef) :
    Tracks F c n (Rounds.typeArgs g args) (Rounds.typeArgs g' args) := by
  have := hg.type c
  exact next fun _ => next fun arg => inferInstance

instance typeArgs : Tracks F c n (Parser.typeArgs g) (Parser.typeArgs g') :=
  seq inferInstance (loop (typeArgsRound g g') _)

instance typeRef : Tracks F c (n + 1) (Parser.typeRef g) (Parser.typeRef g') := by
  refine next fun star => ?_
  split
  · infer_instance
  · refine next fun (first, _) => next fun name => eat_next ?_ ?_
    · simp only [↓reduceIte]
      infer_instance
    · simp only [Bool.false_eq_true, ↓reduceIte]
      infer_instance

instance typeRefBelow : Tracks F c n (Parser.typeRef g) (Parser.typeRef g') :=
  lower fun _ => typeRef g g'

instance callTypeArgsRound (args : List TypeRef) :
    Tracks F c (n + 1) (Rounds.callTypeArgs g args) (Rounds.callTypeArgs g' args) :=
  next fun _ => inferInstance

instance callTypeArgs : Tracks F c (n + 1) (Parser.callTypeArgs g) (Parser.callTypeArgs g') := by
  refine cursor_next fun start hstart => Tracks.at (seq (fun args => ?_) (attempt ?_))
  · split
    · exact moveTo_next hstart inferInstance
    · infer_instance
  · exact next fun _ => loop (callTypeArgsRound g g') _

/-! ## Expressions -/

omit hg in
instance argumentName : Tracks F c n Parser.argumentName Parser.argumentName := by
  refine next fun c => ?_
  cases c.kind.plainName? with
  | none => infer_instance
  | some name => infer_instance

instance lambdaParam (params : List LambdaParam) (name : String) :
    Tracks F c (n + 1) (Rounds.lambdaParam g params name) (Rounds.lambdaParam g' params name) := by
  refine next fun _ => next fun typed => ?_
  extract_lets declare
  have hdeclare : ∀ type, Tracks F c (n + 1) (declare type) (declare type) := inferInstance
  split <;> exact next hdeclare

instance lambdaParamsRound (params : List LambdaParam) :
    Tracks F c (n + 1) (Rounds.lambdaParams g params) (Rounds.lambdaParams g' params) :=
  next fun _ => next fun _ => inferInstance

instance lambdaParams : Tracks F c (n + 1) (Parser.lambdaParams g) (Parser.lambdaParams g') := by
  refine cursor_next fun start hstart => Tracks.at (seq (fun params => ?_) (attempt ?_))
  · cases params with
    | some params => infer_instance
    | none => exact moveTo_next hstart inferInstance
  · exact next fun _ => loop (lambdaParamsRound g g') _

omit hg in
instance atElse : Tracks F c n Parser.atElse Parser.atElse :=
  inferInstanceAs (Tracks F c n (Parser.cursor >>= _) (Parser.cursor >>= _))

section

variable {p q : Parser Expr} (h : ∀ c, Tracks F c n p q)

include h

omit hg in
theorem chain_starts (o : Precedence) :
    Starts F n p q (Parser.chain o p) (Parser.chain o q) := by
  refine ⟨_, _, rfl, rfl, fun c first => loop (fun left => next fun d => ?_) first⟩
  cases BinaryOp.at? d with
  | none => infer_instance
  | some op =>
    simp only
    split <;> infer_instance

omit hg in
theorem binary : ∀ os c, Tracks F c n (Parser.binary p os) (Parser.binary q os)
  | [], c => h c
  | o :: tighter, c => (chain_starts (binary tighter) o).tracks (binary tighter c)

omit hg in
theorem signed : Tracks F c n (Parser.signed p) (Parser.signed q) := by
  refine seq (fun ops => next fun inner => ?_) (loop (fun ops => next fun k => ?_) _)
  · exact foldlM (fun e op => inferInstance) ops inner
  · cases UnaryOp.ofToken? k <;> infer_instance

end

theorem castChain_starts (p q : Parser Expr) :
    Starts F (n + 1) p q (Parser.castChain g p) (Parser.castChain g' q) := by
  refine ⟨_, _, rfl, rfl, fun c first => loop (fun e => next fun isCast => ?_) first⟩
  split <;> infer_instance

instance argumentsRound (args : List Argument) :
    Tracks F c n (Rounds.arguments g args) (Rounds.arguments g' args) := by
  have := hg.expr c
  refine next fun _ => next fun closed => ?_
  split
  · infer_instance
  · exact next fun name => next fun _ => next fun value => inferInstance

instance arguments : Tracks F c (n + 1) (Parser.arguments g) (Parser.arguments g') :=
  expect_next fun _ => loop (argumentsRound g g') _

instance block : Tracks F c (n + 1) (Parser.block g) (Parser.block g') := by
  have := hg.stmts c
  exact expect_next fun start => inferInstance

instance lambda : Tracks F c (n + 1) (Parser.lambda g) (Parser.lambda g') := by
  have := hg.stmts c
  have : Tracks F c n (Parser.lambdaParams g) (Parser.lambdaParams g') :=
    lower fun _ => lambdaParams g g'
  exact expect_next fun start => next fun params => next fun it => inferInstance

instance call (callee : Expr) (typeArgs : List TypeRef) :
    Tracks F c (n + 1) (Parser.call g callee typeArgs) (Parser.call g' callee typeArgs) := by
  refine next fun paren => ?_
  extract_lets made trailing trailing'
  have hmade : ∀ args, Tracks F c (n + 1) (made args) (made args) := inferInstance
  have htrailing (args) : Tracks F c (n + 1) (trailing args) (trailing' args) := by
    refine next fun brace => ?_
    split
    · exact next fun f => next hmade
    · exact next hmade
  split
  · exact next htrailing
  · exact next htrailing

omit hg in
instance memberOf (receiver : Expr) :
    Tracks F c n (Parser.memberOf receiver) (Parser.memberOf receiver) :=
  next fun _ => next fun _ => next fun (_, _) => inferInstance

theorem indexOf {d : Cursor} (hd : d.kind.isMark .leftBracket = true) (receiver : Expr) :
    TracksAt F c (n + 1) d (Parser.indexOf g receiver) (Parser.indexOf g' receiver) := by
  have := hg.expr c
  refine TracksAt.advance_next (TokenKind.isEof_of_isMark hd) ?_
  exact seq (fun _ => inferInstance) (loop inferInstance _)

instance suffix (e : Expr) : Tracks F c (n + 1) (Parser.suffix g e) (Parser.suffix g' e) := by
  refine cursor_next fun d _ => ?_
  extract_lets callable
  split
  · exact Tracks.at inferInstance
  split
  · refine Tracks.at (next fun typeArgs => ?_)
    cases typeArgs <;> infer_instance
  split
  · exact Tracks.at inferInstance
  split
  · exact TracksAt.map (indexOf g g' ‹_› e) some
  split <;> exact Tracks.at inferInstance

instance branch : Tracks F c n (Parser.branch g) (Parser.branch g') := by
  have := hg.expr c
  have : Tracks F c n (Parser.block g) (Parser.block g') := lower fun _ => block g g'
  refine next fun _ => next fun braced => ?_
  split <;> infer_instance

theorem ifElse_led : Led F (n + 1) (Parser.ifElse g) (Parser.ifElse g') := by
  refine ⟨_, _, rfl, rfl, fun c start => ?_⟩
  have := hg.expr c
  refine expect_next fun _ => next fun _ => next fun condition => next fun _ =>
    next fun _ => next fun thenBranch => next fun more => ?_
  extract_lets made
  have hmade : ∀ elseBranch, Tracks F c n (made elseBranch) (made elseBranch) := inferInstance
  split
  · exact next fun _ => next fun _ => next hmade
  · exact next hmade

instance ifElse : Tracks F c (n + 1) (Parser.ifElse g) (Parser.ifElse g') :=
  (ifElse_led g g').tracks inferInstance

instance whenSubject : Tracks F c n (Parser.whenSubject g) (Parser.whenSubject g') := by
  have := hg.expr c
  refine next fun _ => next fun named => ?_
  extract_lets subject typed subject' typed'
  have hsubject : ∀ u, Tracks F c n (subject u) (subject' u) := inferInstance
  split
  · refine next fun _ => next fun typed => ?_
    split
    · exact next fun _ => next fun _ => next fun _ => hsubject ()
    · exact next fun _ => next fun _ => hsubject ()
  · exact hsubject ()

instance whenCondition : Tracks F c n (Parser.whenCondition g) (Parser.whenCondition g') := by
  have := hg.expr c
  refine next fun d => ?_
  extract_lets condition condition'
  have hcondition : ∀ u, Tracks F c n (condition u) (condition' u) := by
    refine fun u => next fun isType => ?_
    split <;> infer_instance
  split
  · exact next fun _ => hcondition ()
  · exact hcondition ()

instance whenConditionsRound (conditions : List Expr) :
    Tracks F c n (Rounds.whenConditions g conditions) (Rounds.whenConditions g' conditions) :=
  next fun _ => next fun _ => inferInstance

instance whenBranch : Tracks F c n (Parser.whenBranch g) (Parser.whenBranch g') := by
  refine next fun isElse => ?_
  extract_lets arm arm'
  have harm : ∀ conditions, Tracks F c n (arm conditions) (arm' conditions) := inferInstance
  split
  · exact next harm
  · exact seq harm (loop (whenConditionsRound g g') _)

instance whenBranchesRound (branches : List WhenBranch) :
    Tracks F c n (Rounds.whenBranches g branches) (Rounds.whenBranches g' branches) := by
  refine next fun _ => next fun closed => ?_
  split <;> infer_instance

theorem whenOf_led : Led F (n + 1) (Parser.whenOf g) (Parser.whenOf g') := by
  refine ⟨_, _, rfl, rfl, fun c start => ?_⟩
  have hbranches (subject : Option Expr) (d : Cursor) : Tracks F d (n + 1)
      (do
        Parser.skipNewlines
        let _ ← Parser.expect .leftBrace
        let branches ← Parser.loop (Rounds.whenBranches g) []
        Parser.newExpr (start.span.join (← Parser.lastSpan)) (.whenOf subject branches))
      (do
        Parser.skipNewlines
        let _ ← Parser.expect .leftBrace
        let branches ← Parser.loop (Rounds.whenBranches g') []
        Parser.newExpr (start.span.join (← Parser.lastSpan)) (.whenOf subject branches)) :=
    next fun _ => expect_next fun _ => seq (fun _ => inferInstance)
      (loop (whenBranchesRound g g') _)
  refine eat_next ?_ ?_
  · simp only [↓reduceIte]
    exact next fun subject => lower (hbranches subject)
  · simp only [Bool.false_eq_true, ↓reduceIte]
    exact next fun subject => hbranches subject c

instance whenOf : Tracks F c (n + 1) (Parser.whenOf g) (Parser.whenOf g') :=
  (whenOf_led g g').tracks inferInstance

theorem embedded {m : Nat} {tokens : List Token} (h : F n (Cursor.ofTokens tokens)) :
    Tracks F c m (Parser.embedded g tokens) (Parser.embedded g' tokens) := by
  have := hg.expr (Cursor.ofTokens tokens)
  exact within h (next fun _ => next fun e => next fun _ => next fun k => inferInstance)

theorem parenthesized {d : Cursor} (hd : d.kind.isEof = false) :
    TracksAt F c (n + 1) d (Parser.parenthesized g) (Parser.parenthesized g') := by
  have := hg.expr c
  exact TracksAt.advance_next hd (next fun _ => inferInstance)

instance primary : Tracks F c (n + 1) (Parser.primary g) (Parser.primary g') := by
  refine cursor_next fun d hd => ?_
  extract_lets token
  split
  · exact Tracks.at inferInstance
  · exact Tracks.at inferInstance
  · generalize hk : token.kind = k
    split
    · exact Tracks.at inferInstance
    · exact parenthesized g g' (by rw [Cursor.kind, hk]; rfl)
    · refine Tracks.at (next fun _ => seq (fun _ => inferInstance) (mapM _ fun part hpart => ?_))
      exact embedded g g' (hF.part hd.known (by rwa [Cursor.kind, hk]))
    · exact Tracks.at inferInstance
    · exact Tracks.at inferInstance
    · exact Tracks.at inferInstance
    · exact Tracks.at inferInstance

theorem suffixed_starts : Starts F (n + 1) (Parser.primary g) (Parser.primary g')
    (Parser.suffixed g) (Parser.suffixed g') := by
  refine ⟨_, _, rfl, rfl, fun c first => loop (fun e => next fun o => ?_) first⟩
  cases o <;> infer_instance

instance suffixed : Tracks F c (n + 1) (Parser.suffixed g) (Parser.suffixed g') :=
  (suffixed_starts g g').tracks inferInstance

instance expression : Tracks F c (n + 1) (Parser.expression g) (Parser.expression g') :=
  binary (fun _ => (castChain_starts g g' _ _).tracks (signed fun _ => inferInstance)) _ c

end Parser.Tracks

end FrameCheck
