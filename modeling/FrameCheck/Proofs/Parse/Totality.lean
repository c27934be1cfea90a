import FrameCheck.Proofs.Parse.TrackedUnits

/-!
# Parsing a text never fails

Each round of a loop but the last consumes a token (`Parser.Consumes`), also a round that skips what
did not parse, for at least the token where it started is skipped. So the tokens bound the rounds,
and more rounds change nothing (`Parser.rounds_eq_loop`). What a declaration or a statement leaves
out is skipped, so the rounds over the items of a text do not fail, and they come to its end.

* `Parser.Progresses` : a round after which a loop goes on has consumed a token.
* `items_done`, `SourceUnit.exists_items` : the items of a text are read to its end.
-/

namespace FrameCheck

namespace Parser

variable {α β σ : Type}

/-! ## Parsers that go on -/

/-- Whatever the tokens are, the parser goes on. -/
class Forward (p : Parser α) : Prop where
  tracks : ∀ c, Tracks Cursor.Unbounded c 1 p p

instance Forward.of_tracks {p : Parser α} [h : ∀ c, Tracks Cursor.Unbounded c 1 p p] : Forward p :=
  ⟨h⟩

section

variable (g : Grammar) [hg : g.Forward] {n : Nat} {c : Cursor}

instance Forward.agrees : Grammar.Agrees Cursor.Unbounded n g g := hg.agrees n

instance Forward.type : Tracks Cursor.Unbounded c n g.type g.type := (hg.agrees n).type c

instance Forward.expr : Tracks Cursor.Unbounded c n g.expr g.expr := (hg.agrees n).expr c

instance Forward.stmts : Tracks Cursor.Unbounded c n g.stmts g.stmts := (hg.agrees n).stmts c

end

section

variable {p : Parser α} {f : α → Parser β} {s t : ParseState} {a : α}

theorem Forward.along (h : Forward p) (s : ParseState) :
    Along Cursor.Unbounded s.cursor 1 s (p s) (p s) :=
  (h.tracks s.cursor).along ⟨.here, trivial⟩

/-- Where a parser stops, done or failed, its cursor has gone on. -/
theorem Forward.reaches (h : Forward p) (s : ParseState) :
    s.cursor.Reaches (p s).state.cursor :=
  (h.along s).leads.reaches

theorem Forward.reaches_of_done (h : Forward p) (hd : p s = .done a t) :
    s.cursor.Reaches t.cursor := by
  have := h.reaches s
  rwa [hd] at this

theorem Forward.length_le (h : Forward p) (hd : p s = .done a t) :
    t.cursor.rest.length ≤ s.cursor.rest.length :=
  (h.reaches_of_done hd).rest_suffix.length_le

theorem Forward.ends (h : Forward p) (hs : Token.Ends s.cursor.rest) (hd : p s = .done a t) :
    Token.Ends t.cursor.rest :=
  hs.of_suffix (h.reaches_of_done hd).rest_suffix t.cursor.rest_ne_nil

/-! ## Parsers that consume a token -/

/-- Where the parser returns an answer of this kind, it has consumed a token. -/
structure Consumes (P : α → Prop) (p : Parser α) : Prop where
  lt : ∀ {s a t}, Token.Ends s.cursor.rest → p s = .done a t → P a →
    t.cursor.rest.length < s.cursor.rest.length

/-- The parser does so at the place `d`. -/
structure ConsumesAt (d : Cursor) (P : α → Prop) (p : Parser α) : Prop where
  lt : ∀ {s a t}, s.cursor = d → Token.Ends d.rest → p s = .done a t → P a →
    t.cursor.rest.length < d.rest.length

/-- The answer does not matter. -/
abbrev Always (_ : α) : Prop := True

/-- Where the parser stops with an answer, it stands at this place. -/
structure EndsAt (d : Cursor) (p : Parser α) : Prop where
  cursor_eq : ∀ {s a t}, p s = .done a t → t.cursor = d

variable {P : α → Prop} {Q : β → Prop} {d : Cursor}

theorem Consumes.at (h : Consumes P p) : ConsumesAt d P p where
  lt := by
    rintro s a t rfl hs hd ha
    exact h.lt hs hd ha

theorem Consumes.fail : Consumes P Parser.fail where
  lt _ hd := nomatch hd

theorem Consumes.failBefore : Consumes Q (Parser.fail >>= f) where
  lt _ hd := nomatch hd

theorem Consumes.answer (h : ¬P a) : Consumes P (pure a) where
  lt _ hd hb := by
    cases hd
    exact absurd hb h

/-- A parser that consumes a token may be followed by any. -/
theorem Consumes.seq (h : Consumes Always p) (hf : ∀ a, Forward (f a)) :
    Consumes Q (p >>= f) where
  lt hs hd _ := by
    obtain ⟨a, u, hp, hd⟩ := bind_eq_done.1 hd
    exact Nat.lt_of_le_of_lt ((hf a).length_le hd) (h.lt hs hp trivial)

theorem Consumes.next (h : Consumes Always p) [hf : ∀ a, Forward (f a)] :
    Consumes Q (p >>= f) := h.seq hf

/-- Anything may stand before a parser that consumes a token. -/
theorem Consumes.behind (hf : ∀ a, Consumes Q (f a)) (hp : Forward p) :
    Consumes Q (p >>= f) where
  lt hs hd hb := by
    obtain ⟨a, u, hp', hd⟩ := bind_eq_done.1 hd
    exact Nat.lt_of_lt_of_le ((hf a).lt (hp.ends hs hp') hd hb) (hp.length_le hp')

theorem Consumes.after [hp : Forward p] (hf : ∀ a, Consumes Q (f a)) :
    Consumes Q (p >>= f) := .behind hf hp

theorem Consumes.of_at (h : ∀ d, ConsumesAt d P p) : Consumes P p where
  lt hs hd ha := (h _).lt rfl hs hd ha

theorem Consumes.cursor_next {f : Cursor → Parser α} (hf : ∀ d, ConsumesAt d P (f d)) :
    Consumes P (cursor >>= f) where
  lt hs hd ha := (hf _).lt rfl hs hd ha

theorem Consumes.kind_next {f : TokenKind → Parser α} (hf : ∀ d : Cursor, ConsumesAt d P (f d.kind)) :
    Consumes P (kind >>= f) where
  lt hs hd ha := (hf _).lt rfl hs hd ha

theorem ConsumesAt.cursor_next {f : Cursor → Parser α} (hf : ConsumesAt d P (f d)) :
    ConsumesAt d P (cursor >>= f) where
  lt := by
    rintro s a t rfl hs hd ha
    exact hf.lt rfl hs hd ha

theorem ConsumesAt.seq (h : ConsumesAt d Always p) (hf : ∀ a, Forward (f a)) :
    ConsumesAt d Q (p >>= f) where
  lt := by
    rintro s b t rfl hs hd -
    obtain ⟨a, u, hp, hd⟩ := bind_eq_done.1 hd
    exact Nat.lt_of_le_of_lt ((hf a).length_le hd) (h.lt rfl hs hp trivial)

theorem ConsumesAt.next (h : ConsumesAt d Always p) [hf : ∀ a, Forward (f a)] :
    ConsumesAt d Q (p >>= f) := h.seq hf

theorem ConsumesAt.map (h : ConsumesAt d Always p) (f : α → β) : ConsumesAt d Q (f <$> p) :=
  h.seq fun a => (inferInstance : Forward (pure (f a)))

/-- What is found takes a token, or what comes where nothing is found does. -/
theorem ConsumesAt.found {p : Parser (Option α)} [hp : Forward p] {f : Option α → Parser β}
    (h : ConsumesAt d (fun o => o.isSome = true) p) (hsome : ∀ a, Forward (f (some a)))
    (hnone : Consumes Q (f none)) : ConsumesAt d Q (p >>= f) where
  lt := by
    rintro s b t rfl hs hd hb
    obtain ⟨o, u, hpo, hd⟩ := bind_eq_done.1 hd
    cases o with
    | some a => exact Nat.lt_of_le_of_lt ((hsome a).length_le hd) (h.lt rfl hs hpo rfl)
    | none => exact Nat.lt_of_lt_of_le (hnone.lt (hp.ends hs hpo) hd hb) (hp.length_le hpo)

/-- A token that does not end the text is consumed. -/
theorem ConsumesAt.advance (hk : d.kind.isEof = false) : ConsumesAt d Always Parser.advance where
  lt := by
    rintro s token t rfl hs hd -
    cases hd
    exact Cursor.length_advance hs hk

theorem Led.consumesAt (h : Led Cursor.Unbounded 1 p p) (hk : d.kind.isEof = false) :
    ConsumesAt d P p where
  lt := by
    rintro s a t rfl hs hd -
    obtain ⟨f, f', rfl, -, hf⟩ := h.exists_next
    have hadvance := (hf s.cursor.advance s.cursor.here).along
      (s := { s with cursor := s.cursor.advance }) ⟨.here, trivial⟩
    have hle := hadvance.leads.reaches.rest_suffix.length_le
    rw [show f s.cursor.here { s with cursor := s.cursor.advance } = .done a t from hd] at hle
    exact Nat.lt_of_le_of_lt hle (Cursor.length_advance hs hk)

theorem Consumes.eatIf {test : TokenKind → Bool} (htest : ∀ k, test k = true → k.isEof = false) :
    Consumes (· = true) (Parser.eatIf test) where
  lt hs hd he := by
    subst he
    obtain ⟨hk, rfl⟩ := eatIf_eq_true.1 hd
    exact Cursor.length_advance hs (htest _ hk)

/-- Where a token is eaten, it is consumed. -/
theorem Consumes.eatIf_next {test : TokenKind → Bool} (htest : ∀ k, test k = true → k.isEof = false)
    {f : Bool → Parser α} (hfalse : Consumes P (f false)) (htrue : Forward (f true)) :
    Consumes P (Parser.eatIf test >>= f) where
  lt hs hd ha := by
    obtain ⟨eaten, u, heat, hd⟩ := bind_eq_done.1 hd
    have heat' : Forward (Parser.eatIf test) := inferInstance
    cases eaten with
    | true =>
      exact Nat.lt_of_le_of_lt (htrue.length_le hd) ((Consumes.eatIf htest).lt hs heat rfl)
    | false =>
      exact Nat.lt_of_lt_of_le (hfalse.lt (heat'.ends hs heat) hd ha) (heat'.length_le heat)

theorem Consumes.eat_next {m : Mark} {f : Bool → Parser α} (hfalse : Consumes P (f false))
    (htrue : Forward (f true)) : Consumes P (eat m >>= f) :=
  eatIf_next (fun _ => TokenKind.isEof_of_isMark) hfalse htrue

theorem ConsumesAt.atMark_next {m : Mark} {f : Bool → Parser α}
    (hf : ConsumesAt d P (f (d.kind.isMark m))) : ConsumesAt d P (atMark m >>= f) where
  lt := by
    rintro s a t rfl hs hd ha
    exact hf.lt rfl hs hd ha

theorem Consumes.advance_next {f : Token → Parser α}
    (heof : ∀ t, t.kind.isEof = true → Consumes P (f t)) (hf : ∀ t, Forward (f t)) :
    Consumes P (Parser.advance >>= f) where
  lt {s a t} hs hd ha := by
    cases hk : s.cursor.kind.isEof with
    | false => exact ((ConsumesAt.advance hk).seq hf).lt rfl hs hd ha
    | true =>
      have hadvance : Forward Parser.advance := inferInstance
      have hd : f s.cursor.here { s with cursor := s.cursor.advance } = .done a t := hd
      exact Nat.lt_of_lt_of_le ((heof _ hk).lt (hadvance.ends (s := s) hs rfl) hd ha)
        (hadvance.length_le (s := s) rfl)

theorem Consumes.expectName : Consumes Always Parser.expectName := by
  refine .advance_next (fun token htoken => ?_) fun token => ⟨fun c => ?_⟩
  · obtain ⟨kind, span⟩ := token
    cases kind <;> first | exact .fail | exact nomatch htoken
  · cases token.kind.asName? <;> infer_instance

theorem Consumes.expect (m : Mark) : Consumes Always (expect m) where
  lt hs hd _ := by
    obtain ⟨hk, rfl, rfl⟩ := expect_eq_done.1 hd
    exact Cursor.length_advance hs (TokenKind.isEof_of_isMark hk)

/-! ### Skipping -/

theorem Cursor.length_skipWhile {c : Cursor} {skipped : TokenKind → Bool}
    (hs : Token.Ends c.rest) (hk : c.kind.isEof = false) (h : skipped c.kind = true) :
    (c.skipWhile skipped).rest.length < c.rest.length := by
  obtain ⟨here, ahead, last⟩ := c
  cases ahead with
  | nil => exact absurd (Cursor.length_advance hs hk) (Nat.lt_irrefl _)
  | cons t ts =>
    have hskip : (Cursor.mk here (t :: ts) last).skipWhile skipped
        = Cursor.skipFrom skipped t here.span ts := if_pos h
    rw [hskip]
    exact Nat.lt_succ_of_le (Cursor.reaches_skipFrom skipped ts t here.span).rest_suffix.length_le

theorem ConsumesAt.skipLine (hk : d.kind.isEof = false) (hn : d.kind.isNewline = false) :
    ConsumesAt d Always skipLine where
  lt := by
    rintro s _ t rfl hs hd -
    cases hd
    exact Cursor.length_skipWhile hs hk (by rw [hk, hn]; rfl)

/-- A statement that is skipped takes a token at least. -/
theorem length_skipStop {start : Cursor} (hs : Token.Ends start.rest)
    (hk : start.kind.isEof = false) : (skipStop start).rest.length < start.rest.length := by
  have hlt := Cursor.length_advance hs hk
  have hstop := (Cursor.reaches_skipStatementFrom start.ahead 0 start.here start.last).rest_suffix
  unfold skipStop
  simp only
  split
  · simpa [Cursor.rest] using ‹_ < start.ahead.length›
  · next hnot =>
    have heq : (skipStatementFrom 0 start.here start.last start.ahead).rest = start.rest := by
      refine hstop.eq_of_length_le ?_
      simp only [Cursor.rest, List.length_cons]
      omega
    have hk' : (skipStatementFrom 0 start.here start.last start.ahead).kind.isEof = false := by
      rw [Cursor.kind, (List.cons.inj heq).1]
      exact hk
    have := Cursor.length_advance (heq ▸ hs) hk'
    rwa [heq] at this

theorem EndsAt.next (hf : ∀ a, EndsAt d (f a)) : EndsAt d (p >>= f) where
  cursor_eq hd := by
    obtain ⟨a, u, -, hd⟩ := bind_eq_done.1 hd
    exact (hf a).cursor_eq hd

theorem EndsAt.skipUnparsed (start : Cursor) (a : α) :
    EndsAt (skipStop start) (skipUnparsed start >>= fun _ => pure a) where
  cursor_eq hd := by
    rw [bind_of_done (skipUnparsed_eq start _)] at hd
    cases hd
    rfl

/-- An attempt consumes a token, or it is given up and what stands at the start is skipped. -/
theorem ConsumesAt.attempt_next {f : Option α → Parser β} (hk : d.kind.isEof = false)
    (hp : Consumes Always p) (hsome : ∀ a, Forward (f (some a)))
    (hnone : EndsAt (skipStop d) (f none)) : ConsumesAt d Q (attempt p >>= f) where
  lt := by
    rintro s b t rfl hs hd -
    obtain ⟨o, u, ho, hd⟩ := bind_eq_done.1 hd
    obtain ⟨a, rfl, h⟩ | ⟨rfl, -⟩ := attempt_eq_done.1 ho
    · exact Nat.lt_of_le_of_lt ((hsome a).length_le hd) (hp.lt hs h trivial)
    · exact hnone.cursor_eq hd ▸ length_skipStop hs hk

end

section

variable (g : Grammar) [hg : g.Forward]

/-! ### Rules that consume a token -/

instance Forward.embedded (tokens : List Token) : Forward (embedded g tokens) :=
  ⟨fun _ => Tracks.embedded (n := 0) g g trivial⟩

theorem Consumes.primary : Consumes Always (primary g) := by
  refine .cursor_next fun d => ?_
  extract_lets token
  have htake {f : Token → Parser Expr} (hf : ∀ t, Forward (f t)) (hk : token.kind.isEof = false) :
      ConsumesAt d Always (Parser.advance >>= f) := (ConsumesAt.advance hk).seq hf
  generalize hk : token.kind = k at htake
  split
  · next value hvalue =>
    exact htake inferInstance (by cases k <;> first | rfl | cases hvalue)
  · next name _ hname =>
    exact htake inferInstance (by cases k <;> first | rfl | cases hname)
  · split
    · exact htake inferInstance rfl
    · exact htake inferInstance rfl
    · refine htake (fun _ => ⟨fun c => ?_⟩) rfl
      exact Tracks.seq (fun _ => inferInstance)
        (Tracks.mapM _ fun part _ => Tracks.embedded (n := 0) g g trivial)
    · exact (Tracks.ifElse_led g g).consumesAt (by rw [Cursor.kind, hk]; rfl)
    · exact (Tracks.whenOf_led g g).consumesAt (by rw [Cursor.kind, hk]; rfl)
    · exact (Consumes.next (.expect _)).at
    · exact Consumes.fail.at

theorem Consumes.of_starts {α β : Type} {p q : Parser α} {r r' : Parser β}
    (h : Starts Cursor.Unbounded 1 p q r r') (hp : Consumes Always p) : Consumes Always r where
  lt hs hd _ := by
    obtain ⟨f, f', rfl, -, hf⟩ := h.exists_next
    obtain ⟨a, u, hp', hd⟩ := bind_eq_done.1 hd
    have hle := ((hf u.cursor a).along (s := u) ⟨.here, trivial⟩).leads.reaches.rest_suffix.length_le
    rw [hd] at hle
    exact Nat.lt_of_le_of_lt hle (hp.lt hs hp' trivial)

theorem Consumes.binary {operand : Parser Expr} (h : Consumes Always operand)
    (hf : Forward operand) : ∀ os, Consumes Always (binary operand os)
  | [] => h
  | o :: tighter =>
    .of_starts (Tracks.chain_starts (Tracks.binary hf.tracks tighter) o) (binary h hf tighter)

theorem Consumes.signed {operand : Parser Expr} (h : Consumes Always operand) :
    Consumes Always (signed operand) := by
  refine .behind (fun ops => .seq h fun inner => ⟨fun c => ?_⟩) ⟨fun c => ?_⟩
  · exact Tracks.foldlM (fun e op => inferInstance) ops inner
  · refine Tracks.loop (fun ops => Tracks.next fun k => ?_) _
    cases UnaryOp.ofToken? k <;> infer_instance

/-- A primary with its suffixes, signs and casts. -/
theorem Consumes.operand : Consumes Always (castChain g (Parser.signed (suffixed g))) :=
  .of_starts (Tracks.castChain_starts g g _ (Parser.signed (suffixed g)))
    (.signed (.of_starts (Tracks.suffixed_starts g g) (.primary g)))

theorem Forward.operand : Forward (castChain g (Parser.signed (suffixed g))) :=
  ⟨fun _ => (Tracks.castChain_starts g g _ _).tracks (Tracks.signed fun _ => inferInstance)⟩

theorem Consumes.expression : Consumes Always (expression g) :=
  .binary (.operand g) (.operand g) _

/-! ### Suffixes -/

theorem Consumes.callTypeArgs {d : Cursor} (hd : d.kind.isMark .less = true) :
    ConsumesAt d (fun o => o.isSome = true) (callTypeArgs g) where
  lt := by
    rintro s o t rfl hs hdone ho
    rw [callTypeArgs_eq_loop] at hdone
    have hinner : ConsumesAt s.cursor Always
        (Parser.advance >>= fun _ => loop (Rounds.callTypeArgs g) []) :=
      (ConsumesAt.advance (TokenKind.isEof_of_isMark hd)).seq fun _ =>
        ⟨fun c => Tracks.loop (Tracks.callTypeArgsRound g g) _⟩
    obtain ⟨c, u, hc, hdone⟩ := bind_eq_done.1 hdone
    cases hc
    obtain ⟨args, u, hattempt, hdone⟩ := bind_eq_done.1 hdone
    obtain ⟨args, rfl, hp⟩ | ⟨rfl, -⟩ := attempt_eq_done.1 hattempt
    · cases hdone
      exact hinner.lt rfl hs hp trivial
    · cases hdone
      exact nomatch ho

/-- What is called with a bracket behind it consumes the bracket. -/
theorem ConsumesAt.call {d : Cursor}
    (hd : d.kind.isMark .leftParen = true ∨ d.kind.isMark .leftBrace = true) (callee : Expr)
    (types : List TypeRef) : ConsumesAt d Always (call g callee types) := by
  refine .atMark_next ?_
  extract_lets made trailing
  have hmade : ∀ args, Forward (made args) := inferInstance
  have htrailing (args) : Forward (trailing args) := by
    refine ⟨fun c => Tracks.next fun brace => ?_⟩
    split
    · exact Tracks.next fun f => Tracks.next fun all => (hmade all).tracks c
    · exact Tracks.next fun all => (hmade all).tracks c
  split
  · have harguments : Consumes Always (arguments g) :=
      .seq (.expect _) fun _ => ⟨fun c => Tracks.loop (Tracks.argumentsRound (n := 1) g g) _⟩
    exact harguments.at.seq htrailing
  · next hparen =>
    have hbrace := hd.resolve_left hparen
    have hlambda : Consumes Always (lambda g) := .seq (.expect _) fun start =>
      ⟨fun c => Tracks.next fun params => Tracks.next fun it => inferInstance⟩
    rw [pure_bind]
    refine .atMark_next ?_
    rw [if_pos hbrace]
    exact hlambda.at.seq fun f => ⟨fun c => Tracks.next fun all => (hmade all).tracks c⟩

/-- A suffix takes a token at least. -/
theorem Consumes.suffix (e : Expr) : Consumes (fun o => o.isSome = true) (suffix g e) := by
  refine .cursor_next fun d => ?_
  extract_lets callable
  split
  · refine (Consumes.at ?_).map _
    exact .after fun _ => .after fun _ => .seq .expectName fun name => inferInstance
  split
  · exact .found (Consumes.callTypeArgs g (Bool.and_eq_true_iff.1 ‹_›).1) (fun args => inferInstance)
      (.answer nofun)
  split
  · next h =>
    exact (ConsumesAt.call g (by grind) e []).map _
  split
  · next h =>
    exact ((ConsumesAt.advance (TokenKind.isEof_of_isMark h)).seq fun _ =>
      ⟨fun c => Tracks.seq (fun _ => inferInstance) (Tracks.loop inferInstance _)⟩).map _
  split
  · next h => exact (ConsumesAt.advance (TokenKind.isEof_of_isMark h)).seq fun _ => inferInstance
  · exact (Consumes.answer (by simp)).at

/-! ### Declarations and statements -/

theorem Consumes.statement : Consumes Always (statement g) := by
  refine .kind_next fun d => ?_
  generalize hd : d.kind = k
  split
  · exact ((Tracks.valDecl_led g g).consumesAt (hd ▸ rfl)).seq fun v => inferInstance
  · exact ((Tracks.valDecl_led g g).consumesAt (hd ▸ rfl)).seq fun v => inferInstance
  · exact ((Tracks.funDecl_led g g).consumesAt (hd ▸ rfl)).map _
  · exact (Tracks.returned_led g g).consumesAt (hd ▸ rfl)
  · refine (Consumes.seq (.expression g) fun target => ⟨fun c => Tracks.next fun assigned => ?_⟩).at
    split <;> infer_instance

/-- A member of a class, or an item, starts with a token of its own. -/
theorem Consumes.member (seen : Members) : Consumes Always (member g seen) := by
  refine .after fun as => .after fun _ => .kind_next fun d => ?_
  generalize hd : d.kind = k
  split
  · exact ((Tracks.valDecl_led g g).consumesAt (hd ▸ rfl)).seq fun v => inferInstance
  · exact ((Tracks.valDecl_led g g).consumesAt (hd ▸ rfl)).seq fun v => inferInstance
  · exact ((Tracks.funDecl_led g g).consumesAt (hd ▸ rfl)).seq fun f => inferInstance
  · exact Consumes.fail.at

theorem Consumes.item : Consumes Always (item g) := by
  refine .after fun as => .after fun _ => .kind_next fun d => ?_
  generalize hd : d.kind = k
  split
  · exact ((Tracks.classDecl_led g g as true).consumesAt (hd ▸ rfl)).map _
  · exact (ConsumesAt.advance (hd ▸ rfl)).seq fun _ => inferInstance
  · exact ((Tracks.classDecl_led g g as false).consumesAt (hd ▸ rfl)).map _
  · exact ((Tracks.funDecl_led g g).consumesAt (hd ▸ rfl)).seq fun f => inferInstance
  · exact ((Tracks.valDecl_led g g).consumesAt (hd ▸ rfl)).seq fun v => inferInstance
  · exact ((Tracks.valDecl_led g g).consumesAt (hd ▸ rfl)).seq fun v => inferInstance
  · exact Consumes.fail.at

end

/-! ## Rounds -/

/-- The loop goes on. -/
def Round.GoesOn : Round σ β → Prop
  | .next _ => True
  | .stop _ => False

/-- A round after which the loop goes on has consumed a token. -/
def Progresses (step : σ → Parser (Round σ β)) : Prop := ∀ a, Consumes Round.GoesOn (step a)

namespace Progresses

theorem stop (a : β) : Consumes (Round.GoesOn (σ := σ)) (pure (.stop a)) := .answer id

/-- Elements with commas between them. -/
theorem comma {a : σ} {p : Parser (Round σ β)} (h : Consumes Round.GoesOn p) :
    Consumes Round.GoesOn (eat .comma >>= fun more => if more = true then pure (.next a) else p) := by
  refine .eat_next ?_ ?_
  · simpa using h
  · simp only [↓reduceIte]
    infer_instance

theorem chain (o : Precedence) {operand : Parser Expr} (h : Consumes Always operand) :
    Progresses (Rounds.chain o operand) := by
  refine fun left => .cursor_next fun d => ?_
  split
  · split
    · refine (Consumes.after fun _ => .after fun _ => .after fun _ => ?_).at
      exact .seq h fun right => inferInstance
    · exact (stop _).at
  · exact (stop _).at

theorem signed : Progresses Rounds.signed := by
  refine fun ops => .kind_next fun d => ?_
  cases hop : UnaryOp.ofToken? d.kind with
  | none => exact (stop _).at
  | some op =>
    refine (ConsumesAt.advance ?_).next
    cases hk : d.kind <;> first | rfl | (rw [hk] at hop; exact nomatch hop)

theorem annotationName : Progresses Rounds.annotationName :=
  fun _ => .eat_next (by simpa using stop _) (by simp only [↓reduceIte]; infer_instance)

theorem skipTypeParameters : Progresses Rounds.skipTypeParameters := by
  refine fun depth => .advance_next (fun token htoken => ?_) inferInstance
  rw [if_pos htoken]
  exact .fail

variable (g : Grammar) [hg : g.Forward]

theorem castChain : Progresses (Rounds.castChain g) :=
  fun _ => .eatIf_next (fun k hk => by cases k <;> first | rfl | exact nomatch hk)
    (by simpa using stop _) (by simp only [↓reduceIte]; infer_instance)

theorem suffixed : Progresses (Rounds.suffixed g) :=
  fun e => .of_at fun _ => .found (Consumes.suffix g e).at inferInstance (stop _)

theorem indexOf : Progresses (Rounds.indexOf g) :=
  fun _ => .after fun _ => .after fun _ => .after fun _ => comma (stop _)

theorem lambdaParams : Progresses (Rounds.lambdaParams g) := by
  refine fun params => .kind_next fun d => ?_
  cases hname : d.kind.plainName? with
  | none => exact Consumes.failBefore.at
  | some name =>
    rw [show orFail (some name) = pure name from rfl, pure_bind]
    refine (ConsumesAt.advance ?_).seq fun _ => ⟨fun c => Tracks.next fun typed => ?_⟩
    · cases hk : d.kind <;> first | rfl | (rw [hk] at hname; exact nomatch hname)
    · extract_lets declare
      have hdeclare : ∀ type, Tracks Cursor.Unbounded c 1 (declare type) (declare type) := inferInstance
      split <;> exact Tracks.next hdeclare

theorem annotations : Progresses (Rounds.annotations g) := by
  refine fun seen => .of_at fun d => .atMark_next ?_
  split
  · next hat =>
    refine (ConsumesAt.advance (TokenKind.isEof_of_isMark hat)).seq fun start =>
      ⟨fun c => Tracks.next fun name => Tracks.next fun opened => ?_⟩
    extract_lets entry
    have hentry : ∀ args, Tracks Cursor.Unbounded c 1 (entry args) (entry args) := inferInstance
    split <;> exact Tracks.next hentry
  · exact (stop _).at

theorem typeArgs : Progresses (Rounds.typeArgs g) :=
  fun _ => .after fun _ => .after fun _ => comma (stop _)

theorem callTypeArgs : Progresses (Rounds.callTypeArgs g) := by
  refine fun args => .after fun arg => comma (.after fun _ => .after fun k => ?_)
  split
  · exact stop _
  · exact .fail

theorem arguments : Progresses (Rounds.arguments g) := by
  refine fun args => .after fun _ => .after fun closed => ?_
  split
  · exact stop _
  · exact .after fun name => .after fun _ => .after fun value => .after fun _ =>
      comma (.after fun _ => .after fun _ => stop _)

theorem whenConditions : Progresses (Rounds.whenConditions g) :=
  fun _ => .after fun _ => .after fun _ => .after fun _ => comma (stop _)

theorem whenBranches : Progresses (Rounds.whenBranches g) := by
  refine fun branches => .after fun _ => .after fun closed => ?_
  split
  · exact stop _
  · refine .seq (.after fun isElse => ?_) fun b => inferInstance
    extract_lets arm
    have harm (conditions : List Expr) : Consumes Always (arm conditions) :=
      .after fun _ => .next (.expect _)
    split
    · exact .after harm
    · exact .behind harm ⟨fun c => Tracks.loop inferInstance _⟩

omit hg in
theorem declared {one : List α → Parser (List α)} (h : ∀ seen, Forward (one seen)) :
    Progresses (Rounds.declared one) := by
  refine fun seen => .after fun _ => .after fun closed => ?_
  split
  · exact stop _
  · exact .after fun seen => .after fun _ => comma (.after fun _ => stop _)

theorem statements : Progresses (Rounds.statements g) := by
  refine fun stmts => .after fun _ => .after fun closed => ?_
  split
  · exact stop _
  refine .kind_next fun d => ?_
  split
  · exact Consumes.failBefore.at
  · refine .cursor_next (.attempt_next (Bool.eq_false_iff.2 ‹_›) (.next (.statement g)) ?_ ?_)
    · exact fun stmt => inferInstance
    · exact .next fun declared => .skipUnparsed _ _

theorem classBody : Progresses (Rounds.classBody g) := by
  refine fun seen => .after fun _ => .after fun closed => ?_
  split
  · exact stop _
  refine .kind_next fun d => ?_
  split
  · exact Consumes.failBefore.at
  · refine .cursor_next (.attempt_next (Bool.eq_false_iff.2 ‹_›) (.member g seen) ?_ ?_)
    · exact fun more => inferInstance
    · exact .skipUnparsed _ _

theorem items : Progresses (Rounds.items g) := by
  refine fun items => .after fun _ => .kind_next fun d => ?_
  generalize hd : d.kind = k
  split
  · exact (stop _).at
  · exact .next (.skipLine (by rw [hd]; rfl) (by rw [hd]; rfl))
  · exact .next (.skipLine (by rw [hd]; rfl) (by rw [hd]; rfl))
  · refine .cursor_next (.attempt_next ?_ (.item g) ?_ ?_)
    · exact hd ▸ TokenKind.isEof_eq_false ‹_›
    · exact fun i => inferInstance
    · exact .next fun declared => .skipUnparsed _ _

end Progresses

/-! ## Loops -/

section

variable {step : σ → Parser (Round σ β)}

/-- The tokens bound the rounds, and more rounds change nothing. -/
theorem Progresses.rounds_eq (h : Progresses step) (hf : ∀ a, Forward (step a)) :
    ∀ (n m : Nat) (a : σ) (s : ParseState), Token.Ends s.cursor.rest → s.cursor.rest.length ≤ n →
      n ≤ m → rounds step n a s = rounds step m a s
  | 0, _, _, s, _, hn, _ => absurd hn (Nat.not_le.2 (Nat.succ_pos _))
  | n + 1, 0, _, _, _, _, hm => absurd hm (Nat.not_succ_le_zero n)
  | n + 1, m + 1, a, s, hs, hn, hm => by
    show (step a >>= _) s = (step a >>= _) s
    cases hd : step a s with
    | failed t => rw [bind_of_failed hd, bind_of_failed hd]
    | done r t =>
      rw [bind_of_done hd, bind_of_done hd]
      cases r with
      | stop b => rfl
      | next b =>
        have hlt := (h a).lt hs hd trivial
        exact h.rounds_eq hf n m b t ((hf a).ends hs hd) (by omega) (Nat.le_of_succ_le_succ hm)

theorem Progresses.rounds_eq_loop (h : Progresses step) (hf : ∀ a, Forward (step a)) {n : Nat}
    {a : σ} {s : ParseState} (hs : Token.Ends s.cursor.rest) (hn : s.cursor.rest.length ≤ n) :
    rounds step n a s = loop step a s :=
  (h.rounds_eq hf _ n a s hs (Nat.le_refl _) hn).symm

/-- After a round the loop goes on as if it started there. -/
theorem Progresses.loop_next (h : Progresses step) (hf : ∀ a, Forward (step a)) {a b : σ}
    {s t : ParseState} (hs : Token.Ends s.cursor.rest) (hd : step a s = .done (.next b) t) :
    loop step a s = loop step b t :=
  (bind_of_done hd).trans
    (h.rounds_eq_loop hf ((hf a).ends hs hd) (Nat.le_of_lt_succ ((h a).lt hs hd trivial)))

/-- The parser returns from every state. -/
def Total (p : Parser α) : Prop := ∀ s, ∃ a t, p s = .done a t

theorem Total.next {p : Parser α} {f : α → Parser β} (hp : Total p) (hf : ∀ a, Total (f a)) :
    Total (p >>= f) := by
  intro s
  obtain ⟨a, t, ha⟩ := hp s
  obtain ⟨b, u, hb⟩ := hf a t
  exact ⟨b, u, bind_eq_done.2 ⟨a, t, ha, hb⟩⟩

theorem Total.answer (a : α) : Total (pure a : Parser α) := fun s => ⟨a, s, rfl⟩

theorem Total.attempt (p : Parser α) : Total (attempt p) := by
  intro s
  cases h : p s with
  | done a t => exact ⟨_, _, attempt_of_done h⟩
  | failed t => exact ⟨_, _, attempt_of_failed h⟩

theorem Total.unparsedVal (g : Grammar) (start : Cursor) : Total (unparsedVal g start) :=
  have hdeclare (v : DeclId → ValDecl) : Total (newDecl >>= fun d => pure (some (v d))) :=
    Total.next (fun _ => ⟨_, _, rfl⟩) fun _ => .answer _
  unparsedVal_cases (P := fun p => Total (p g)) (.answer _) (fun _ _ _ _ => hdeclare _)
    fun _ _ _ _ => Total.next (fun _ => ⟨_, _, rfl⟩) fun _ =>
      (Total.attempt _).next fun _ => hdeclare _

/-- A round over the items of a text does not fail. -/
theorem Total.items (g : Grammar) (seen : List Item) : Total (Rounds.items g seen) := by
  refine Total.next (fun _ => ⟨_, _, rfl⟩) fun _ => Total.next (fun _ => ⟨_, _, rfl⟩) fun k => ?_
  split
  · exact .answer _
  · exact Total.next (fun _ => ⟨_, _, rfl⟩) fun _ => .answer _
  · exact Total.next (fun _ => ⟨_, _, rfl⟩) fun _ => .answer _
  refine Total.next (fun _ => ⟨_, _, rfl⟩) fun start => (Total.attempt _).next fun parsed => ?_
  cases parsed with
  | some i => exact .answer _
  | none =>
    exact (Total.unparsedVal g start).next fun declared =>
      Total.next (fun _ => ⟨_, _, rfl⟩) fun _ => .answer _

/-- A loop of which no round fails, and each but the last consumes a token, does not fail. -/
theorem Progresses.loop_done (h : Progresses step) (hf : ∀ a, Forward (step a))
    (ht : ∀ a, Total (step a)) (start : σ) (s : ParseState) (hs : Token.Ends s.cursor.rest) :
    ∃ b t, loop step start s = .done b t := by
  have hrounds : ∀ n a s, Token.Ends s.cursor.rest → s.cursor.rest.length ≤ n →
      ∃ b t, rounds step n a s = .done b t := by
    intro n
    induction n with
    | zero => exact fun a s _ hn => absurd hn (Nat.not_le.2 (Nat.succ_pos _))
    | succ n ih =>
      intro a s hs hn
      obtain ⟨r, t, hr⟩ := ht a s
      cases r with
      | stop b => exact ⟨b, t, bind_eq_done.2 ⟨_, t, hr, rfl⟩⟩
      | next a' =>
        have hlt := (h a).lt hs hr trivial
        obtain ⟨b, u, hu⟩ := ih a' t ((hf a).ends hs hr) (by omega)
        exact ⟨b, u, bind_eq_done.2 ⟨_, t, hr, hu⟩⟩
  exact hrounds _ start s hs (Nat.le_refl _)

end

/-- The items of a text that ends are read without failing. -/
theorem items_done (g : Grammar) [g.Forward] (s : ParseState) (hs : Token.Ends s.cursor.rest) :
    ∃ items t, Parser.items g s = .done items t :=
  (Progresses.items g).loop_done inferInstance (Total.items g) [] s hs

end Parser

/-! ## Scanned texts -/

/-- The tree of a text holds all that is read from its tokens. -/
theorem SourceUnit.exists_items {text : String} {u : SourceUnit} (h : ofText text = .ok u) :
    ∃ ts t, Token.scan text = .ok ts ∧
      Parser.items (Grammar.ofDepth (Token.listWeight ts)) (start ts) = .done u.items t ∧
        u.skipped = t.skipped.reverse := by
  unfold ofText at h
  cases hs : Token.scan text with
  | error e =>
    rw [hs] at h
    cases h
  | ok ts =>
    rw [hs] at h
    cases h
    have hends := (Token.ended_of_scan hs).ends
    have hrest : Token.Ends (start ts).cursor.rest := by
      rwa [start, Cursor.rest_ofTokens hends.ne_nil]
    obtain ⟨items, t, hitems⟩ :=
      Parser.items_done (Grammar.ofDepth (Token.listWeight ts)) (start ts) hrest
    refine ⟨ts, t, rfl, ?_⟩
    rw [ofTokens, hitems]
    exact ⟨rfl, rfl⟩

end FrameCheck
