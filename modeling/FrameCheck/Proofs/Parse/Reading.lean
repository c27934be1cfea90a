import FrameCheck.Proofs.Parse.Relocation
import FrameCheck.Proofs.Parse.Totality

/-!
# What a parser reads

`Takes p before after P` says all of a run of `p` that starts at the tokens `before` : it is not
given up, it comes to the tokens `after`, and its value satisfies `P`. The rules run a parser on
known tokens, one for each way in which parsers are combined; a loop is run round by round, for
a round that goes on has consumed a token, and the rounds that are left suffice for the tokens
that are left.

* `Takes.next`, `Takes.attempt`, `Takes.loop_next`, `Takes.loop_stop` : the rules for combined
  parsers.
* `Takes.advance`, `Takes.eat`, `Takes.expect` : single tokens.
-/

namespace FrameCheck

theorem Cursor.kind_of_rest {c : Cursor} {t : Token} {ts : List Token} (h : c.rest = t :: ts) :
    c.kind = t.kind := by
  rw [kind, (List.cons.inj h).1]

/-- Tokens that are skipped are left behind, if any are left that are not. -/
theorem Cursor.rest_skipWhile {skipped : TokenKind → Bool} {c : Cursor} {t : Token}
    {ts : List Token} (ht : skipped t.kind = false) :
    ∀ before : List Token, (∀ u ∈ before, skipped u.kind = true) → c.rest = before ++ t :: ts →
      (c.skipWhile skipped).rest = t :: ts := by
  obtain ⟨here, ahead, last⟩ := c
  intro before hbefore hrest
  induction before generalizing here ahead last with
  | nil =>
    obtain ⟨rfl, rfl⟩ := List.cons.inj hrest
    unfold skipWhile
    cases ahead with
    | nil => rfl
    | cons u ahead => exact congrArg rest (if_neg (Bool.eq_false_iff.1 ht))
  | cons u before ih =>
    obtain ⟨rfl, hahead⟩ := List.cons.inj hrest
    cases ahead with
    | nil => exact absurd hahead.symm (List.append_ne_nil_of_right_ne_nil _ (List.cons_ne_nil t ts))
    | cons v ahead =>
      have hskip : skipped here.kind = true := hbefore here List.mem_cons_self
      rw [show skipWhile ⟨here, v :: ahead, last⟩ skipped = skipWhile ⟨v, ahead, here.span⟩ skipped
        from if_pos hskip]
      exact ih _ _ _ (fun w hw => hbefore w (List.mem_cons_of_mem here hw)) hahead

theorem Cursor.rest_skipWhile_of_not {skipped : TokenKind → Bool} {c : Cursor} {t : Token}
    {ts : List Token} (ht : skipped t.kind = false) (h : c.rest = t :: ts) :
    (c.skipWhile skipped).rest = t :: ts :=
  rest_skipWhile ht [] (fun _ hu => absurd hu List.not_mem_nil) h

theorem Cursor.rest_pastNewlines {c : Cursor} {t : Token} {ts : List Token}
    (ht : t.kind.isNewline = false) (h : c.rest = t :: ts) : c.pastNewlines.rest = t :: ts :=
  rest_skipWhile_of_not ht h

theorem Cursor.rest_advance {c : Cursor} {t : Token} {ts : List Token} (h : c.rest = t :: ts)
    (hts : ts ≠ []) : c.advance.rest = ts := by
  obtain ⟨here, ahead, last⟩ := c
  obtain ⟨rfl, rfl⟩ := List.cons.inj h
  cases ahead with
  | nil => exact absurd rfl hts
  | cons u ahead => rfl

namespace Parser

variable {α β σ : Type}

/-- Started at the tokens `before`, the parser comes to the tokens `after` with such a value. -/
def Takes (p : Parser α) (before after : List Token) (P : α → Prop) : Prop :=
  ∀ s, s.cursor.rest = before → ∃ a t, p s = .done a t ∧ t.cursor.rest = after ∧ P a

/-- Started at these tokens, the parser is given up. -/
def Fails (p : Parser α) (before : List Token) : Prop :=
  ∀ s, s.cursor.rest = before → ∃ t, p s = .failed t

/-- More rounds than are needed change nothing. -/
theorem rounds_mono {step : σ → Parser (Round σ β)} {m n : ℕ} (hmn : m ≤ n) {a : σ}
    {s t : ParseState} {b : β} (h : rounds step m a s = .done b t) :
    rounds step n a s = .done b t := by
  induction m generalizing n a s with
  | zero => cases h
  | succ m ih =>
    obtain ⟨n, rfl⟩ : ∃ k, n = k + 1 := ⟨n - 1, by omega⟩
    obtain ⟨r, u, hr, hrest⟩ := bind_eq_done.1 h
    refine bind_eq_done.2 ⟨r, u, hr, ?_⟩
    cases r with
    | next b => exact ih (Nat.le_of_succ_le_succ hmn) hrest
    | stop b => exact hrest

namespace Takes

variable {p : Parser α} {before m after : List Token} {P Q : α → Prop} {R : β → Prop}

/-! ### Combined parsers -/

theorem mono (h : Takes p before after P) (hPQ : ∀ a, P a → Q a) : Takes p before after Q :=
  fun s hs => by
    obtain ⟨a, t, hd, ht, ha⟩ := h s hs
    exact ⟨a, t, hd, ht, hPQ a ha⟩

theorem answer {a : α} (h : P a) : Takes (pure a) before before P :=
  fun s hs => ⟨a, s, rfl, hs, h⟩

theorem next {f : α → Parser β} (hp : Takes p before m P)
    (hf : ∀ a, P a → Takes (f a) m after R) : Takes (p >>= f) before after R :=
  fun s hs => by
    obtain ⟨a, t, hd, ht, ha⟩ := hp s hs
    obtain ⟨b, u, hd', hu, hb⟩ := hf a ha t ht
    exact ⟨b, u, bind_eq_done.2 ⟨a, t, hd, hd'⟩, hu, hb⟩

/-- A parser with one value only, and then one that goes on. -/
theorem known {a : α} {f : α → Parser β} (hp : Takes p before m (· = a))
    (hf : Takes (f a) m after R) : Takes (p >>= f) before after R :=
  hp.next fun _ ha => ha ▸ hf

theorem map {f : α → β} (h : Takes p before after fun a => R (f a)) :
    Takes (f <$> p) before after R :=
  h.next fun _ ha => answer ha

theorem ite_pos {c : Prop} [Decidable c] {q : Parser α} (hc : c) (h : Takes p before after P) :
    Takes (if c then p else q) before after P := by
  rw [if_pos hc]
  exact h

theorem ite_neg {c : Prop} [Decidable c] {q : Parser α} (hc : ¬c) (h : Takes q before after P) :
    Takes (if c then p else q) before after P := by
  rw [if_neg hc]
  exact h

/-- What a parser finds at a cursor, of which only the tokens are known. -/
theorem ofCursor {f : Cursor → Parser β}
    (hf : ∀ c, c.rest = before → Takes (f c) before after R) :
    Takes (Parser.cursor >>= f) before after R :=
  fun s hs => hf s.cursor hs s hs

theorem attempt (h : Takes p before after P) :
    Takes (attempt p) before after fun o => ∃ a, o = some a ∧ P a :=
  fun s hs => by
    obtain ⟨a, t, hd, ht, ha⟩ := h s hs
    refine ⟨some a, t, ?_, ht, a, rfl, ha⟩
    rw [Parser.attempt, hd]

theorem loop_next {step : σ → Parser (Round σ β)} {a : σ} {S : σ → Prop}
    (hstep : Takes (step a) before m fun r => ∃ b, r = .next b ∧ S b)
    (hshort : m.length < before.length)
    (hrest : ∀ b, S b → Takes (loop step b) m after R) : Takes (loop step a) before after R :=
  fun s hs => by
    obtain ⟨r, t, hd, ht, b, rfl, hb⟩ := hstep s hs
    obtain ⟨result, u, hloop, hu, hresult⟩ := hrest b hb t ht
    refine ⟨result, u, bind_eq_done.2 ⟨_, t, hd, rounds_mono ?_ hloop⟩, hu, hresult⟩
    subst hs ht
    exact Nat.lt_of_succ_lt_succ hshort

theorem loop_stop {step : σ → Parser (Round σ β)} {a : σ}
    (hstep : Takes (step a) before after fun r => ∃ b, r = .stop b ∧ R b) :
    Takes (loop step a) before after R :=
  fun s hs => by
    obtain ⟨r, t, hd, ht, b, rfl, hb⟩ := hstep s hs
    exact ⟨b, t, bind_eq_done.2 ⟨_, t, hd, rfl⟩, ht, hb⟩

/-- A loop over items of which each takes a round, and then a round that stops. -/
theorem loop_items {ι : Type} {step : σ → Parser (Round σ β)} {T : List ι → List Token}
    {S : List ι → σ → Prop}
    (hround : ∀ x xs a, S (x :: xs) a → (T xs).length < (T (x :: xs)).length ∧
      Takes (step a) (T (x :: xs)) (T xs) fun r => ∃ b, r = .next b ∧ S xs b)
    (hstop : ∀ a, S [] a → Takes (step a) (T []) after fun r => ∃ b, r = .stop b ∧ R b) :
    ∀ xs a, S xs a → Takes (loop step a) (T xs) after R := by
  intro xs
  induction xs with
  | nil => exact fun a ha => loop_stop (hstop a ha)
  | cons x xs ih =>
    intro a ha
    obtain ⟨hshort, hstep⟩ := hround x xs a ha
    exact loop_next hstep hshort ih

/-- A loop over items which stops with the round of the last one. -/
theorem loop_separated {ι : Type} {step : σ → Parser (Round σ β)} {T : List ι → List Token}
    {S : List ι → σ → Prop}
    (hround : ∀ x y xs a, S (x :: y :: xs) a →
      (T (y :: xs)).length < (T (x :: y :: xs)).length ∧
        Takes (step a) (T (x :: y :: xs)) (T (y :: xs))
          fun r => ∃ b, r = .next b ∧ S (y :: xs) b)
    (hstop : ∀ x a, S [x] a → Takes (step a) (T [x]) after fun r => ∃ b, r = .stop b ∧ R b) :
    ∀ x xs a, S (x :: xs) a → Takes (loop step a) (T (x :: xs)) after R := by
  intro x xs
  induction xs generalizing x with
  | nil => exact fun a ha => loop_stop (hstop x a ha)
  | cons y xs ih =>
    intro a ha
    obtain ⟨hshort, hstep⟩ := hround x y xs a ha
    exact loop_next hstep hshort (ih y)

/-- Other tokens are read up to some place among them, and then the parser goes on where it was. -/
theorem within {tokens : List Token} (h : Takes p tokens m P) (hne : tokens ≠ []) :
    Takes (within tokens p) before before P :=
  fun s hs => by
    have hrest : (Cursor.ofTokens tokens).rest = tokens := by
      cases tokens with
      | nil => exact absurd rfl hne
      | cons t ts => rfl
    obtain ⟨a, t, hd, ht, ha⟩ := h { s with cursor := Cursor.ofTokens tokens } hrest
    refine ⟨a, { t with cursor := s.cursor }, ?_, hs, ha⟩
    rw [Parser.within, hd]

theorem orFail {a : α} : Takes (Parser.orFail (some a)) before before (· = a) := answer rfl

/-! ### Single tokens -/

variable {t : Token} {ts : List Token}

theorem kind : Takes Parser.kind (t :: ts) (t :: ts) (· = t.kind) :=
  fun s hs => ⟨_, s, rfl, hs, Cursor.kind_of_rest hs⟩

theorem atMark (m : Mark) : Takes (Parser.atMark m) (t :: ts) (t :: ts) (· = t.kind.isMark m) :=
  fun s hs => ⟨_, s, rfl, hs, by rw [Cursor.kind_of_rest hs]⟩

theorem lastSpan : Takes Parser.lastSpan before before fun _ => True :=
  fun s hs => ⟨_, s, rfl, hs, trivial⟩

theorem newDecl : Takes Parser.newDecl before before fun _ => True :=
  fun s hs => ⟨_, { s with nextDecl := s.nextDecl + 1 }, rfl, hs, trivial⟩

theorem newExpr (span : Span) (kind : ExprKind) :
    Takes (Parser.newExpr span kind) before before (·.kind = kind) :=
  fun s hs => ⟨_, { s with nextExpr := s.nextExpr + 1 }, rfl, hs, rfl⟩

theorem moveTo {c : Cursor} (h : c.rest = after) :
    Takes (Parser.moveTo c) before after fun _ => True :=
  fun s _ => ⟨(), { s with cursor := c }, rfl, h, trivial⟩

theorem advance (hts : ts ≠ []) : Takes Parser.advance (t :: ts) ts (· = t) :=
  fun s hs => ⟨_, { s with cursor := s.cursor.advance }, rfl, Cursor.rest_advance hs hts,
    (List.cons.inj hs).1⟩

theorem skipNewlines (h : t.kind.isNewline = false) :
    Takes Parser.skipNewlines (t :: ts) (t :: ts) fun _ => True :=
  fun s hs => ⟨(), { s with cursor := s.cursor.pastNewlines }, rfl,
    Cursor.rest_skipWhile_of_not h hs, trivial⟩

theorem skipSeparators (h : t.kind.isSeparator = false) :
    Takes Parser.skipSeparators (t :: ts) (t :: ts) fun _ => True :=
  fun s hs => ⟨(), { s with cursor := s.cursor.skipWhile TokenKind.isSeparator }, rfl,
    Cursor.rest_skipWhile_of_not h hs, trivial⟩

theorem eatIf {test : TokenKind → Bool} (h : test t.kind = true) (hts : ts ≠ []) :
    Takes (Parser.eatIf test) (t :: ts) ts (· = true) :=
  fun s hs => ⟨true, { s with cursor := s.cursor.advance },
    if_pos ((congrArg test (Cursor.kind_of_rest hs)).trans h), Cursor.rest_advance hs hts, rfl⟩

theorem eatIf_not {test : TokenKind → Bool}
    (h : ∀ c : Cursor, c.rest = before → test c.kind = false) :
    Takes (Parser.eatIf test) before before (· = false) :=
  fun s hs => ⟨false, s, if_neg (by rw [h _ hs]; exact Bool.false_ne_true), hs, rfl⟩

theorem eat_not {m : Mark} (h : t.kind.isMark m = false) :
    Takes (Parser.eat m) (t :: ts) (t :: ts) (· = false) :=
  eatIf_not fun _ hc => by rw [Cursor.kind_of_rest hc, h]

theorem expect {m : Mark} (h : t.kind.isMark m = true) (hts : ts ≠ []) :
    Takes (Parser.expect m) (t :: ts) ts (· = t) :=
  fun s hs => by
    obtain ⟨a, u, hd, hu, ha⟩ := advance (t := t) hts s hs
    exact ⟨a, u, (if_pos (by rw [Cursor.kind_of_rest hs, h])).trans hd, hu, ha⟩

theorem expectName {name : String} (h : t.kind.asName? = some name) (hts : ts ≠ []) :
    Takes Parser.expectName (t :: ts) ts fun a => a.1 = name :=
  (advance hts).known (by rw [h]; exact answer rfl)

end Takes

/-! ### Attempts that are given up -/

namespace Fails

variable {p : Parser α} {before m after : List Token} {P : α → Prop} {R : β → Prop}

theorem first {f : α → Parser β} (h : Fails p before) : Fails (p >>= f) before :=
  fun s hs => by
    obtain ⟨t, ht⟩ := h s hs
    exact ⟨t, bind_failed ht⟩

theorem next {f : α → Parser β} (hp : Takes p before m P) (hf : ∀ a, P a → Fails (f a) m) :
    Fails (p >>= f) before :=
  fun s hs => by
    obtain ⟨a, t, hd, ht, ha⟩ := hp s hs
    obtain ⟨u, hu⟩ := hf a ha t ht
    exact ⟨u, (bind_of_done hd).trans hu⟩

theorem fail : Fails (Parser.fail : Parser α) before := fun s _ => ⟨s, rfl⟩

/-- A loop is given up with its first round. -/
theorem loop {step : σ → Parser (Round σ β)} {a : σ} (h : Fails (step a) before) :
    Fails (Parser.loop step a) before :=
  fun s hs => by
    obtain ⟨t, ht⟩ := h s hs
    exact ⟨t, bind_failed ht⟩

theorem expectName {t : Token} {ts : List Token} (h : t.kind.asName? = none) :
    Fails Parser.expectName (t :: ts) :=
  fun s hs => by
    refine ⟨{ s with cursor := s.cursor.advance }, ?_⟩
    rw [Parser.expectName, bind_of_done (show Parser.advance s = _ from rfl),
      (List.cons.inj hs).1, h]
    rfl

/-- Where a failed attempt leaves the cursor does not matter to what returns to a known place. -/
theorem attempt {f : Option α → Parser β} (h : Fails p before)
    (hf : ∀ m, Takes (f none) m after R) : Takes (Parser.attempt p >>= f) before after R :=
  fun s hs => by
    obtain ⟨t, ht⟩ := h s hs
    obtain ⟨b, u, hd, hu, hb⟩ := hf _ t rfl
    refine ⟨b, u, bind_eq_done.2 ⟨none, t, ?_, hd⟩, hu, hb⟩
    rw [Parser.attempt, ht]

end Fails

end Parser

end FrameCheck
