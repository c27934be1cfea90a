import FrameCheck.Proofs.Parse.Erasure
import FrameCheck.Proofs.Parse.Frontier
import FrameCheck.Proofs.Parse.Totality

/-!
# Parsers that concur

A parser runs on two lists of tokens that are the same up to a frontier. `Parser.Concurs` says of the
two runs that both fail, or both return, and what then holds of their values and states; the first
one may also fail by itself where this is allowed. At a bracket that is never the case. At a line it
is, for there the one list ends, and a parser that needs a token fails at the end of the one and reads
on in the other.

* `Parser.Concurs.next`, `Parser.Concurs.loop` : the rules for combined parsers.
* `Parser.Concurs.expectOpening`, `Parser.Concurs.expectClosing` : into brackets and out of them.
* `Parser.Concurs.skipNewlines_next` : a line break before what needs a token.
-/

namespace FrameCheck

open Erasable

/-- Two runs stand at the same token before a frontier. The second one has skipped `base` before, and
the same since then. -/
structure Frontier.Aligned (F : Frontier) (base : List Span) (s s' : ParseState) : Prop where
  places : F.Places s.cursor s'.cursor
  skipped : s'.skipped = s.skipped ++ base

namespace Parser

variable {α β γ δ σ τ : Type} {may : Prop} {base : List Span} {F F₁ : Frontier}

/-- Both runs return, in states and with values as `Q` says, or both fail, having skipped the same; or
the first one fails, if it may. -/
def Concurs (may : Prop) (base : List Span) (Q : α → β → ParseState → ParseState → Prop)
    (p : Parser α) (p' : Parser β) (s s' : ParseState) : Prop :=
  match p s, p' s' with
  | .done a t, .done b t' => Q a b t t'
  | .failed t, .failed t' => may ∨ t'.skipped = t.skipped ++ base
  | .failed _, .done _ _ => may
  | .done _ _, .failed _ => False

/-- The same value up to ids, and at the same token again. -/
def Read (F : Frontier) (base : List Span) [Erasable α] (a b : α) (t t' : ParseState) : Prop :=
  Erasable.Alike a b ∧ F.Aligned base t t'

/-- The parser may read on in a line where the other run has come to the end. -/
def Local [Erasable α] (p : Parser α) : Prop :=
  ∀ ⦃base F s s'⦄, F.Aligned base s s' → Concurs F.IsLine base (Read F base) p p s s'

/-- At a token of this kind the parser fails, and takes nothing. -/
def Refuses (k : TokenKind) (p : Parser α) : Prop := ∀ s, s.cursor.kind = k → p s = .failed s

/-- A token that is no name is passed over all the same. -/
theorem expectName_failed {s : ParseState} (h : s.cursor.kind.asName? = none) :
    expectName s = .failed { s with cursor := s.cursor.advance } := by
  refine (bind_of_done (rfl : Parser.advance s = .done s.cursor.here _)).trans ?_
  rw [show s.cursor.here.kind.asName? = none from h]
  rfl

namespace Concurs

variable {Q : α → β → ParseState → ParseState → Prop} {R : γ → δ → ParseState → ParseState → Prop}
  {p : Parser α} {p' : Parser β} {f : α → Parser γ} {f' : β → Parser δ} {s s' : ParseState}

/-! ### Combined parsers -/

theorem done {a : α} {b : β} (h : Q a b s s') : Concurs may base Q (pure a) (pure b) s s' := h

theorem fail (h : F.Aligned base s s') : Concurs may base Q Parser.fail Parser.fail s s' :=
  Or.inr h.skipped

/-- The first run fails by itself. -/
theorem failed (h : may) (hp : ∃ t, p s = .failed t) : Concurs may base Q p p' s s' := by
  obtain ⟨t, ht⟩ := hp
  unfold Concurs
  rw [ht]
  cases p' s' with
  | done => exact h
  | failed => exact Or.inl h

theorem weaken {may' : Prop} (h : Concurs may base Q p p' s s') (hmay : may → may') :
    Concurs may' base Q p p' s s' := by
  unfold Concurs at h ⊢
  cases hd : p s <;> cases hd' : p' s' <;> rw [hd, hd'] at h
  case failed.done => exact hmay h
  case failed.failed => exact h.imp_left hmay
  all_goals exact h

theorem next (hp : Concurs may base Q p p' s s')
    (hf : ∀ a b t t', p s = .done a t → p' s' = .done b t' → Q a b t t' →
      Concurs may base R (f a) (f' b) t t') :
    Concurs may base R (p >>= f) (p' >>= f') s s' := by
  unfold Concurs at hp
  cases hd : p s with
  | done a t =>
    cases hd' : p' s' with
    | done b t' =>
      rw [hd, hd'] at hp
      unfold Concurs
      rw [bind_of_done hd, bind_of_done hd']
      exact hf a b t t' hd hd' hp
    | failed t' =>
      rw [hd, hd'] at hp
      exact hp.elim
  | failed t =>
    have hfail := bind_of_failed (f := f) hd
    cases hd' : p' s' with
    | done b t' =>
      rw [hd, hd'] at hp
      exact failed hp ⟨t, hfail⟩
    | failed t' =>
      rw [hd, hd'] at hp
      unfold Concurs
      rw [hfail, bind_of_failed hd']
      exact hp

theorem ite {c c' : Prop} [Decidable c] [Decidable c'] {q : Parser α} {q' : Parser β} (hc : c' ↔ c)
    (h : c → Concurs may base Q p p' s s') (h' : ¬c → Concurs may base Q q q' s s') :
    Concurs may base Q (if c then p else q) (if c' then p' else q') s s' :=
  rel_ite (R := fun p p' => Concurs may base Q p p' s s') hc h h'

theorem map {g : α → γ} {g' : β → δ} (hp : Concurs may base Q p p' s s')
    (hg : ∀ a b t t', Q a b t t' → R (g a) (g' b) t t') :
    Concurs may base R (g <$> p) (g' <$> p') s s' :=
  next hp fun a b t t' _ _ h => done (hg a b t t' h)

/-- What comes of an attempt where both runs return, and where both are given up. -/
theorem attempt_next {f : Option α → Parser γ} {f' : Option β → Parser δ}
    (hp : Concurs False base Q p p' s s')
    (hsome : ∀ a b t t', p s = .done a t → Q a b t t' →
      Concurs may base R (f (some a)) (f' (some b)) t t')
    (hnone : ∀ t t', t'.skipped = t.skipped ++ base → Concurs may base R (f none) (f' none) t t') :
    Concurs may base R (attempt p >>= f) (attempt p' >>= f') s s' := by
  unfold Concurs at hp
  cases hd : p s <;> cases hd' : p' s' <;> rw [hd, hd'] at hp
  case done.done a t b t' =>
    have hattempt : attempt p s = .done (some a) t := by rw [attempt, hd]
    have hattempt' : attempt p' s' = .done (some b) t' := by rw [attempt, hd']
    unfold Concurs
    rw [bind_of_done hattempt, bind_of_done hattempt']
    exact hsome a b t t' hd hp
  case failed.failed t t' =>
    have hattempt : attempt p s = .done none t := by rw [attempt, hd]
    have hattempt' : attempt p' s' = .done none t' := by rw [attempt, hd']
    unfold Concurs
    rw [bind_of_done hattempt, bind_of_done hattempt']
    exact hnone t t' (hp.resolve_left id)
  all_goals exact hp.elim

/-- Both runs read the same tokens of a template. -/
theorem within [Erasable α] {p p' : Parser α} {tokens : List Token} (h : F.Aligned base s s')
    (hp : ∀ t t', Frontier.none.Aligned base t t' → Concurs False base (Read .none base) p p' t t') :
    Concurs may base (Read F base) (within tokens p) (within tokens p') s s' := by
  have hboth := hp { s with cursor := .ofTokens tokens } { s' with cursor := .ofTokens tokens }
    ⟨.same _, h.skipped⟩
  unfold Concurs at hboth ⊢
  unfold Parser.within
  cases hd : p { s with cursor := .ofTokens tokens } <;>
    cases hd' : p' { s' with cursor := .ofTokens tokens } <;> rw [hd, hd'] at hboth
  case done.done a t b t' => exact ⟨hboth.1, h.places, hboth.2.skipped⟩
  case failed.failed t t' => exact Or.inr (hboth.resolve_left id)
  all_goals exact hboth.elim

/-! ### The token -/

theorem cursor_next {f : Cursor → Parser γ} {f' : Cursor → Parser δ}
    (hf : Concurs may base R (f s.cursor) (f' s'.cursor) s s') :
    Concurs may base R (Parser.cursor >>= f) (Parser.cursor >>= f') s s' := hf

theorem kind_next {f : TokenKind → Parser γ} {f' : TokenKind → Parser δ}
    (hf : Concurs may base R (f s.cursor.kind) (f' s'.cursor.kind) s s') :
    Concurs may base R (Parser.kind >>= f) (Parser.kind >>= f') s s' := hf

theorem lastSpan_next {f : Span → Parser γ} {f' : Span → Parser δ} (h : F.Aligned base s s')
    (hf : ∀ last, Concurs may base R (f last) (f' last) s s') :
    Concurs may base R (Parser.lastSpan >>= f) (Parser.lastSpan >>= f') s s' := by
  show Concurs may base R (f s.cursor.last) (f' s'.cursor.last) s s'
  rw [h.places.last_eq]
  exact hf _

theorem moveTo_next {c c' : Cursor} {f : Unit → Parser γ} {f' : Unit → Parser δ}
    (hc : F.Places c c') (hs : s'.skipped = s.skipped ++ base)
    (hf : ∀ t t', F.Aligned base t t' → Concurs may base R (f ()) (f' ()) t t') :
    Concurs may base R (moveTo c >>= f) (moveTo c' >>= f') s s' :=
  hf { s with cursor := c } { s' with cursor := c' } ⟨hc, hs⟩

/-- A token that is no bracket is taken in both runs. -/
theorem advance (h : F.Aligned base s s') (hk : s.cursor.kind.isUnbracketed = true) :
    Concurs may base (Read F base) Parser.advance Parser.advance s s' :=
  ⟨h.places.here_eq (TokenKind.isUnbracketed_iff.1 hk).2, h.places.advance hk, h.skipped⟩

/-- In the same list any token is taken. -/
theorem advanceSame (h : Frontier.none.Aligned base s s') :
    Concurs may base (Read .none base) Parser.advance Parser.advance s s' := by
  have hcursor := h.places.eq_of_none
  refine ⟨congrArg Cursor.here hcursor, ?_, h.skipped⟩
  show Frontier.none.Places s.cursor.advance s'.cursor.advance
  rw [hcursor]
  exact .same _

/-- A token is eaten in both runs or in none. -/
theorem eatIf_of {test : TokenKind → Bool} {Q : Bool → Bool → ParseState → ParseState → Prop}
    (hk : test s'.cursor.kind = test s.cursor.kind)
    (heaten : test s.cursor.kind = true →
      Q true true { s with cursor := s.cursor.advance } { s' with cursor := s'.cursor.advance })
    (hleft : Q false false s s') :
    Concurs may base Q (Parser.eatIf test) (Parser.eatIf test) s s' := by
  unfold Concurs
  by_cases ht : test s.cursor.kind = true
  · rw [eatIf_of_pos ht, eatIf_of_pos (hk.trans ht)]
    exact heaten ht
  · rw [eatIf_of_neg ht, eatIf_of_neg (hk ▸ ht)]
    exact hleft

/-- A mark that is expected stands in both runs or in none. -/
theorem expect_of {m : Mark} {Q : Token → Token → ParseState → ParseState → Prop}
    (h : F.Aligned base s s') (htaken : s.cursor.kind.isMark m = true →
      Concurs may base Q Parser.advance Parser.advance s s') :
    Concurs may base Q (Parser.expect m) (Parser.expect m) s s' := by
  have hk := h.places.kind_eq (TokenKind.isMark m) fun _ => rfl
  unfold Concurs
  by_cases ht : s.cursor.kind.isMark m = true
  · rw [expect_of_isMark ht, expect_of_isMark (hk.trans ht)]
    exact htaken ht
  · rw [expect_of_not_isMark ht, expect_of_not_isMark (hk ▸ ht)]
    exact Or.inr h.skipped

section

variable (h : F.Aligned base s s')

include h

theorem eatIf {test : TokenKind → Bool} (htest : ∀ k, test k = true → k.isUnbracketed = true)
    (hline : test .newline = false) :
    Concurs may base (Read F base) (Parser.eatIf test) (Parser.eatIf test) s s' := by
  have heof : test .eof = false := Bool.eq_false_iff.2 fun he => nomatch htest _ he
  have hk := h.places.kind_eq test fun _ => hline.trans heof.symm
  exact eatIf_of hk (fun ht => ⟨rfl, h.places.advance (htest _ ht), h.skipped⟩) ⟨rfl, h⟩

theorem eat {m : Mark} (hm : (TokenKind.mark m).isUnbracketed = true) :
    Concurs may base (Read F base) (Parser.eat m) (Parser.eat m) s s' :=
  eatIf h (fun k hk => by rwa [TokenKind.isMark_iff.1 hk]) rfl

theorem eatKeyword (w : Keyword) :
    Concurs may base (Read F base) (Parser.eatKeyword w) (Parser.eatKeyword w) s s' :=
  eatIf h (fun _ => Token.isUnbracketed_of_isKeyword) rfl

theorem atMark (m : Mark) :
    Concurs may base (fun a b t t' => b = a ∧ t = s ∧ F.Aligned base t t') (Parser.atMark m)
      (Parser.atMark m) s s' :=
  ⟨h.places.kind_eq (TokenKind.isMark m) fun _ => rfl, rfl, h⟩

theorem expect {m : Mark} (hm : (TokenKind.mark m).isUnbracketed = true) :
    Concurs may base (Read F base) (Parser.expect m) (Parser.expect m) s s' :=
  expect_of h fun ht => advance h (by rwa [TokenKind.isMark_iff.1 ht])

/-- Behind a bracket that is opened both runs are inside of it. -/
theorem advanceOpening {o b : Mark} (hk : s.cursor.kind = .mark o) (hb : o.closing? = some b) :
    Concurs may base (fun x y t t' => y = x ∧ ∃ F₁ : Frontier, F₁.Inside b F ∧ F₁.Aligned base t t')
      Parser.advance Parser.advance s s' := by
  obtain ⟨F₁, hin, hplaces⟩ := h.places.opening hk hb
  have hhead := TokenKind.isClosing_eq_false_of_isOpening (TokenKind.isOpening_of_closing? hb).1
  exact ⟨h.places.here_eq (by rw [hk]; exact ⟨hhead.1, hhead.2.1⟩), F₁, hin, hplaces, h.skipped⟩

theorem expectOpening {o b : Mark} (hb : o.closing? = some b) :
    Concurs may base (fun x y t t' => y = x ∧ ∃ F₁ : Frontier, F₁.Inside b F ∧ F₁.Aligned base t t')
      (Parser.expect o) (Parser.expect o) s s' :=
  expect_of h fun ht => advanceOpening h (TokenKind.isMark_iff.1 ht) hb

theorem eatOpening {o b : Mark} (hb : o.closing? = some b) :
    Concurs may base (fun x y t t' => y = x ∧ if x = true then
        ∃ F₁ : Frontier, F₁.Inside b F ∧ F₁.Aligned base t t' else F.Aligned base t t')
      (Parser.eat o) (Parser.eat o) s s' := by
  refine eatIf_of (h.places.kind_eq (TokenKind.isMark o) fun _ => rfl) (fun ht => ?_) ⟨rfl, h⟩
  obtain ⟨F₁, hin, hplaces⟩ := h.places.opening (TokenKind.isMark_iff.1 ht) hb
  exact ⟨rfl, F₁, hin, hplaces, h.skipped⟩

end

section

variable {b : Mark} (h : F₁.Aligned base s s') (hin : F₁.Inside b F)

include h hin

/-- Behind the bracket that closes both runs are outside of it. -/
theorem expectClosing :
    Concurs may base (fun _ _ t t' => F.Aligned base t t') (Parser.expect b) (Parser.expect b)
      s s' :=
  expect_of h fun ht => ⟨hin.leave h.places (TokenKind.isMark_iff.1 ht), h.skipped⟩

theorem eatClosing : Concurs may base
    (fun x y t t' => y = x ∧ if x = true then F.Aligned base t t' else t = s ∧ F₁.Aligned base t t')
    (Parser.eat b) (Parser.eat b) s s' :=
  eatIf_of (h.places.kind_eq (TokenKind.isMark b) fun _ => rfl)
    (fun ht => ⟨rfl, hin.leave h.places (TokenKind.isMark_iff.1 ht), h.skipped⟩) ⟨rfl, rfl, h⟩

end

/-! ### Names and ids -/

theorem expectName (h : F.Aligned base s s') :
    Concurs may base (Read F base) Parser.expectName Parser.expectName s s' := by
  cases hn : s.cursor.kind.asName? with
  | some n =>
    have hk := TokenKind.isUnbracketed_of_asName? hn
    refine next (advance h hk) fun token token' t t' hd _ htoken => ?_
    obtain rfl := htoken.1.eq
    cases hd
    rw [show s.cursor.here.kind.asName? = some n from hn]
    exact done ⟨rfl, htoken.2⟩
  | none =>
    have hn' := (h.places.kind_eq TokenKind.asName? fun _ => rfl).trans hn
    unfold Concurs
    rw [expectName_failed hn, expectName_failed hn']
    exact Or.inr h.skipped

theorem newDecl (h : F.Aligned base s s') :
    Concurs may base (fun _ _ t t' => F.Aligned base t t') Parser.newDecl Parser.newDecl s s' :=
  ⟨h.places, h.skipped⟩

theorem newExpr {span span' : Span} {kind kind' : ExprKind} (h : F.Aligned base s s')
    (hspan : span' = span) (hk : kind'.unnumbered = kind.unnumbered) :
    Concurs may base (Read F base) (Parser.newExpr span kind) (Parser.newExpr span' kind')
      s s' := by
  refine ⟨?_, h.places, h.skipped⟩
  show Expr.unnumbered _ = Expr.unnumbered _
  rw [Expr.unnumbered, Expr.unnumbered, hspan, hk]

/-! ### Passing over line breaks -/

section

variable (h : F.Aligned base s s')

include h

/-- Where no end is behind the line breaks, both runs pass over them. -/
theorem skipNewlines (hk : F.IsLine → s.cursor.pastNewlines.kind ≠ .eof) :
    Concurs may base (fun _ _ t t' => t.cursor = s.cursor.pastNewlines ∧ F.Aligned base t t')
      Parser.skipNewlines Parser.skipNewlines s s' := by
  rcases h.places.pastNewlines with hplaces | ⟨hline, heof, -⟩
  · exact ⟨rfl, hplaces, h.skipped⟩
  · exact absurd heof (hk hline)

/-- Line breaks before what needs a token. -/
theorem skipNewlines_next {f : Unit → Parser γ} {f' : Unit → Parser δ}
    (hf : ∀ t t', F.Aligned base t t' → Concurs may base R (f ()) (f' ()) t t')
    (hneeds : F.IsLine → may ∧ Refuses .eof (f ())) :
    Concurs may base R (Parser.skipNewlines >>= f) (Parser.skipNewlines >>= f') s s' := by
  rcases h.places.pastNewlines with hplaces | ⟨hline, heof, -⟩
  · exact hf _ _ ⟨hplaces, h.skipped⟩
  · obtain ⟨hmay, hneeds⟩ := hneeds hline
    exact failed hmay ⟨_, hneeds { s with cursor := s.cursor.pastNewlines } heof⟩

theorem skipSeparators (hline : ¬F.IsLine) : Concurs may base (fun _ _ t t' =>
      t.cursor = s.cursor.skipWhile TokenKind.isSeparator ∧ F.Aligned base t t')
    Parser.skipSeparators Parser.skipSeparators s s' := by
  rcases h.places.skipWhile Frontier.Places.isUnbracketed_of_isSeparator with hplaces | ⟨h, -⟩
  · exact ⟨rfl, hplaces, h.skipped⟩
  · exact absurd h hline

end

/-! ### Repetition -/

/-- After a round that goes on both runs are at the same token. -/
def RoundPost (F : Frontier) (base : List Span) [Erasable σ]
    (Q : α → β → ParseState → ParseState → Prop) :
    Round σ α → Round σ β → ParseState → ParseState → Prop
  | .next a, .next b, t, t' => Read F base a b t t'
  | .stop a, .stop b, t, t' => Q a b t t'
  | _, _, _, _ => False

/-- The rounds suffice for the tokens up to the frontier. -/
def Enough (F : Frontier) (n n' : Nat) (c : Cursor) : Prop :=
  F = .none ∧ n' = n ∨ F ≠ .none ∧ c.rest.length < n + F.fst.length ∧
    c.rest.length < n' + F.fst.length

section

variable [Erasable σ] {step : σ → Parser (Round σ α)} {step' : σ → Parser (Round σ β)}
  (hstep : ∀ a b s s', Erasable.Alike a b → F.Aligned base s s' →
    Concurs may base (RoundPost F base Q) (step a) (step' b) s s')
  (hprog : Progresses step)

include hstep hprog

theorem rounds : ∀ n n' a b s s', Erasable.Alike a b → F.Aligned base s s' →
    Enough F n n' s.cursor →
      Concurs may base Q (Parser.rounds step n a) (Parser.rounds step' n' b) s s'
  | 0, 0, _, _, _, _, _, h, _ => fail h
  | 0, _ + 1, _, _, s, _, _, h, hn | _ + 1, 0, _, _, s, _, _, h, hn => by
    rcases hn with ⟨-, hn⟩ | ⟨hne, hlt, hlt'⟩
    · exact absurd hn (by omega)
    · have hle := h.places.length_le
      omega
  | n + 1, n' + 1, a, b, s, s', hab, h, hn => by
    refine next (hstep a b s s' hab h) fun r r' t t' hd _ hpost => ?_
    cases r <;> cases r'
    case next.next d d' hd' =>
      refine rounds n n' d d' t t' hpost.1 hpost.2 (hn.imp (And.imp_right Nat.succ.inj) ?_)
      rintro ⟨hne, hlt, hlt'⟩
      have := (hprog _).lt (h.places.ends_of_ne hne) hd trivial
      exact ⟨hne, by omega, by omega⟩
    case stop.stop => exact done hpost
    all_goals exact hpost.elim

theorem loop {a b : σ} (hab : Erasable.Alike a b) (h : F.Aligned base s s') :
    Concurs may base Q (Parser.loop step a) (Parser.loop step' b) s s' := by
  refine rounds hstep hprog _ _ a b s s' hab h ?_
  have hplaces := h.places
  generalize s.cursor = c at hplaces ⊢
  generalize s'.cursor = c' at hplaces ⊢
  cases hplaces with
  | same => exact Or.inl ⟨rfl, rfl⟩
  | @ends _ w _ _ hF _ hr hr' =>
    have hlength := congrArg List.length hr
    have hlength' := congrArg List.length hr'
    have hfst := List.length_pos_of_ne_nil hF.fst_ne_nil
    have hsnd := List.length_pos_of_ne_nil hF.snd_ne_nil
    refine Or.inr ⟨fun hF' => ?_, ?_, ?_⟩
    · subst hF'
      exact hF
    all_goals
      simp only [Cursor.rest, List.length_cons, List.length_append] at hlength hlength' ⊢
      omega

end

theorem foldlM {step : α → γ → Parser α} [Erasable α] (h : ∀ e e' x s s', Erasable.Alike e e' →
      F.Aligned base s s' → Concurs may base (Read F base) (step e x) (step e' x) s s') :
    ∀ (l : List γ) (e e' : α) (s s' : ParseState), Erasable.Alike e e' → F.Aligned base s s' →
      Concurs may base (Read F base) (l.foldlM step e) (l.foldlM step e') s s'
  | [], _, _, _, _, he, hs => done ⟨he, hs⟩
  | x :: l, e, e', s, s', he, hs => by
    rw [List.foldlM_cons, List.foldlM_cons]
    exact next (h e e' x s s' he hs) fun d d' t t' _ _ hd => foldlM h l d d' t t' hd.1 hd.2

theorem mapM {g : γ → Parser α} [Erasable α] : ∀ (l : List γ) (s s' : ParseState),
    (∀ x ∈ l, ∀ s s', F.Aligned base s s' → Concurs may base (Read F base) (g x) (g x) s s') →
      F.Aligned base s s' → Concurs may base (Read F base) (l.mapM g) (l.mapM g) s s'
  | [], _, _, _, hs => done ⟨rfl, hs⟩
  | x :: l, s, s', h, hs => by
    rw [List.mapM_cons]
    refine next (h x List.mem_cons_self s s' hs) fun a a' t t' _ _ ha => ?_
    refine next (mapM l t t' (fun y hy => h y (List.mem_cons_of_mem x hy)) ha.2)
      fun as as' u u' _ _ has => ?_
    exact done ⟨congrArg₂ List.cons ha.1 has.1, has.2⟩

end Concurs

end Parser

end FrameCheck
