import FrameCheck.Parse.Unit

/-!
# Outcomes of parsers

A parser is a function from a state to an outcome, and parsers combine as in any monad. What a
combined parser comes to is known from its parts (`Parser.bind_eq_done`, `Parser.state_bind`), and
what an attempt comes to from the parser that is tried (`Parser.attempt_eq_done`). Of the parsers for
one token, and of those for other tokens, the rest of the theory knows what is said here.
-/

namespace FrameCheck

/-- The state in which a parser ends. -/
def Outcome.state {α : Type} : Outcome α → ParseState
  | .done _ t | .failed t => t

/-- What a parser returns, if it returns. -/
def Outcome.value? {α : Type} : Outcome α → Option α
  | .done a _ => some a
  | .failed _ => none

/-- Two choices that are made alike are related if what is chosen is. -/
theorem rel_ite {α β : Type} {R : α → β → Prop} {c c' : Prop} [Decidable c] [Decidable c']
    {a b : α} {a' b' : β} (hc : c' ↔ c) (h : c → R a a') (h' : ¬c → R b b') :
    R (if c then a else b) (if c' then a' else b') := by
  by_cases hh : c
  · rw [if_pos hh, if_pos (hc.2 hh)]
    exact h hh
  · rw [if_neg hh, if_neg fun h => hh (hc.1 h)]
    exact h' hh

/-- A mark that is expected does not end the text. -/
theorem TokenKind.isEof_of_isMark {k : TokenKind} {m : Mark} (h : k.isMark m = true) :
    k.isEof = false := by
  cases k <;> first | rfl | exact nomatch h

theorem TokenKind.isEof_of_isKeyword {k : TokenKind} {w : Keyword} (h : k.isKeyword w = true) :
    k.isEof = false := by
  cases k <;> first | rfl | exact nomatch h

namespace Parser

variable {α β σ : Type}

theorem bind_eq_done {p : Parser α} {f : α → Parser β} {s u : ParseState} {b : β} :
    (p >>= f) s = .done b u ↔ ∃ a t, p s = .done a t ∧ f a t = .done b u := by
  show (match p s with | .done a t => f a t | .failed t => .failed t) = _ ↔ _
  cases p s with
  | failed t => simp
  | done a t =>
    constructor
    · exact fun h => ⟨a, t, rfl, h⟩
    · rintro ⟨_, _, h, h'⟩
      cases h
      exact h'

theorem state_bind (p : Parser α) (f : α → Parser β) (s : ParseState) :
    ((p >>= f) s).state = (p s).state ∨ ∃ a t, p s = .done a t ∧
      ((p >>= f) s).state = (f a t).state := by
  show (match p s with | .done a t => f a t | .failed t => Outcome.failed t).state = _ ∨
    ∃ a t, _ ∧ (match p s with | .done a t => f a t | .failed t => Outcome.failed t).state = _
  cases p s with
  | failed t => exact Or.inl rfl
  | done a t => exact Or.inr ⟨a, t, rfl, rfl⟩

theorem bind_of_done {p : Parser α} {f : α → Parser β} {s t : ParseState} {a : α}
    (h : p s = .done a t) : (p >>= f) s = f a t := by
  simp only [bind, h]

theorem bind_of_failed {p : Parser α} {f : α → Parser β} {s t : ParseState}
    (h : p s = .failed t) : (p >>= f) s = .failed t := by
  simp only [bind, h]

instance : LawfulMonad Parser := LawfulMonad.mk' Parser
  (fun p => by
    funext s
    show (match p s with | .done a t => .done a t | .failed t => .failed t) = p s
    cases p s <;> rfl)
  (fun _ _ => rfl)
  (fun p f g => by
    funext s
    show (match (match p s with | .done a t => f a t | .failed t => .failed t) with
      | .done b t => g b t | .failed t => .failed t) =
      match p s with
      | .done a t => (match f a t with | .done b t => g b t | .failed t => .failed t)
      | .failed t => .failed t
    cases p s <;> rfl)

/-! ### Attempts -/

theorem attempt_of_done {p : Parser α} {s t : ParseState} {a : α} (h : p s = .done a t) :
    attempt p s = .done (some a) t := by
  rw [attempt, h]

theorem attempt_of_failed {p : Parser α} {s t : ParseState} (h : p s = .failed t) :
    attempt p s = .done none t := by
  rw [attempt, h]

/-- An attempt is always done, where the parser was. -/
theorem attempt_eq_done {p : Parser α} {s t : ParseState} {o : Option α} :
    attempt p s = .done o t ↔
      (∃ a, o = some a ∧ p s = .done a t) ∨ o = none ∧ p s = .failed t := by
  cases h : p s with
  | done a u =>
    rw [attempt_of_done h]
    constructor
    · rintro ⟨⟩
      exact Or.inl ⟨a, rfl, rfl⟩
    · rintro (⟨b, rfl, ⟨⟩⟩ | ⟨-, ⟨⟩⟩)
      rfl
  | failed u =>
    rw [attempt_of_failed h]
    constructor
    · rintro ⟨⟩
      exact Or.inr ⟨rfl, rfl⟩
    · rintro (⟨b, -, ⟨⟩⟩ | ⟨rfl, ⟨⟩⟩)
      rfl

theorem state_attempt (p : Parser α) (s : ParseState) : (attempt p s).state = (p s).state := by
  cases h : p s with
  | done a t => rw [attempt_of_done h, Outcome.state, Outcome.state]
  | failed t => rw [attempt_of_failed h, Outcome.state, Outcome.state]

/-! ### Tokens that are eaten or expected -/

theorem eatIf_of_pos {test : TokenKind → Bool} {s : ParseState} (h : test s.cursor.kind = true) :
    eatIf test s = .done true { s with cursor := s.cursor.advance } := if_pos h

theorem eatIf_of_neg {test : TokenKind → Bool} {s : ParseState} (h : ¬test s.cursor.kind = true) :
    eatIf test s = .done false s := if_neg h

theorem eatIf_eq_true {test : TokenKind → Bool} {s t : ParseState} :
    eatIf test s = .done true t ↔
      test s.cursor.kind = true ∧ t = { s with cursor := s.cursor.advance } := by
  by_cases h : test s.cursor.kind = true
  · simp [eatIf_of_pos h, h, eq_comm]
  · simp [eatIf_of_neg h, h]

theorem expect_of_isMark {m : Mark} {s : ParseState} (h : s.cursor.kind.isMark m = true) :
    expect m s = .done s.cursor.here { s with cursor := s.cursor.advance } := if_pos h

theorem expect_of_not_isMark {m : Mark} {s : ParseState} (h : ¬s.cursor.kind.isMark m = true) :
    expect m s = .failed s := if_neg h

theorem expect_eq_done {m : Mark} {s t : ParseState} {token : Token} :
    expect m s = .done token t ↔ s.cursor.kind.isMark m = true ∧ token = s.cursor.here ∧
      t = { s with cursor := s.cursor.advance } := by
  by_cases h : s.cursor.kind.isMark m = true
  · simp [expect_of_isMark h, h, eq_comm]
  · simp [expect_of_not_isMark h, h]

/-! ### Other tokens -/

theorem within_of_done {p : Parser α} {tokens : List Token} {s t : ParseState} {a : α}
    (h : p { s with cursor := .ofTokens tokens } = .done a t) :
    within tokens p s = .done a { t with cursor := s.cursor } := by
  rw [within, h]

theorem within_of_failed {p : Parser α} {tokens : List Token} {s t : ParseState}
    (h : p { s with cursor := .ofTokens tokens } = .failed t) :
    within tokens p s = .failed { t with cursor := s.cursor } := by
  rw [within, h]

theorem within_eq_done {p : Parser α} {tokens : List Token} {s t : ParseState} {a : α} :
    within tokens p s = .done a t ↔
      ∃ u, p { s with cursor := .ofTokens tokens } = .done a u ∧ t = { u with cursor := s.cursor } := by
  cases h : p { s with cursor := .ofTokens tokens } with
  | done b u =>
    rw [within_of_done h]
    constructor
    · rintro ⟨⟩
      exact ⟨u, rfl, rfl⟩
    · rintro ⟨_, ⟨⟩, rfl⟩
      rfl
  | failed u =>
    rw [within_of_failed h]
    exact ⟨nofun, fun ⟨_, hd, _⟩ => nomatch hd⟩

theorem state_within (p : Parser α) (tokens : List Token) (s : ParseState) :
    (within tokens p s).state
      = { (p { s with cursor := .ofTokens tokens }).state with cursor := s.cursor } := by
  cases h : p { s with cursor := .ofTokens tokens } with
  | done a t => rw [within_of_done h, Outcome.state, Outcome.state]
  | failed t => rw [within_of_failed h, Outcome.state, Outcome.state]

/-! ### What did not parse -/

/-- A name declared in place of what did not parse. -/
def unparsed (mutable : Bool) (name : String) (nameSpan span : Span) (type : Option TypeRef)
    (d : DeclId) : ValDecl :=
  ⟨d, mutable, none, name, nameSpan, type, none, .absent, span⟩

/-- Nothing is declared in place of what did not parse, or a name, without a type or with what can be
read of its type. -/
theorem unparsedVal_cases {start : Cursor} {P : (Grammar → Parser (Option ValDecl)) → Prop}
    (nothing : P fun _ => pure none)
    (untyped : ∀ mutable name nameSpan span,
      P fun _ => newDecl >>= fun d => pure (some (unparsed mutable name nameSpan span none d)))
    (typed : ∀ mutable name nameSpan span, P fun g =>
      moveTo start.advance.advance.advance >>= fun _ => attempt (typeRef g) >>= fun type =>
        newDecl >>= fun d => pure (some (unparsed mutable name nameSpan span type d))) :
    P fun g => unparsedVal g start := by
  unfold unparsedVal
  extract_lets mutable
  split
  · split
    · extract_lets after
      split
      · exact nothing
      · split
        · exact typed ..
        · exact untyped ..
    · exact nothing
  · exact nothing

end Parser

end FrameCheck
