import FrameCheck.Proofs.Parse.Closed
import FrameCheck.Proofs.Parse.TrackedUnits

/-!
# The same tokens before other ones

Two lists of tokens have the same tokens up to a frontier, and behind it each goes on in its own way.
At a bracket that closes, both have the bracket. At a line, the one comes to its end, and the other to
a line break before a token that continues no statement. As long as the tokens before the frontier
have closed brackets, places in the two lists go on together (`Frontier.Places`): a bracket that is
opened before the frontier is a frontier of its own, and behind it the places meet again
(`Frontier.Inside`).

* `Frontier.Places` : two places at the same token before a frontier.
* `Frontier.Places.opening` : the frontier of a bracket.
* `Frontier.Places.pastNewlines` : only a line break may carry a place over a frontier.
-/

namespace FrameCheck

namespace TokenKind

/-- A token with which a statement may go on in a later line. -/
def continues : TokenKind → Bool
  | mark m => m ∈ [.dot, .safeDot, .elvis, .ampersands, .pipePipe]
  | keyword w => w == .elseKw
  | name s => s == "get"
  | _ => false

end TokenKind

namespace Cursor

theorem kindAt?_succ {c : Cursor} (h : c.ahead ≠ []) (n : Nat) :
    c.kindAt? (n + 1) = c.advance.kindAt? n := by
  obtain ⟨here, ahead, last⟩ := c
  cases ahead with
  | nil => exact absurd rfl h
  | cons t ts => cases n <;> rfl

theorem kindAt?_eq_rest (c : Cursor) (n : Nat) : c.kindAt? n = c.rest[n]?.map Token.kind := by
  cases n <;> rfl

theorem kindAt?_of_nil {c : Cursor} (h : c.ahead = []) (n : Nat) : c.kindAt? (n + 1) = none := by
  rw [kindAt?, h]
  rfl

theorem skipWhile_of_not {c : Cursor} {skipped : TokenKind → Bool} (h : skipped c.kind = false) :
    c.skipWhile skipped = c := by
  obtain ⟨here, ahead, last⟩ := c
  cases ahead with
  | nil => rfl
  | cons t ts => exact if_neg (Bool.eq_false_iff.1 h)

theorem skipWhile_of {c : Cursor} {skipped : TokenKind → Bool} (h : skipped c.kind = true) :
    c.skipWhile skipped = c.advance.skipWhile skipped := by
  obtain ⟨here, ahead, last⟩ := c
  cases ahead with
  | nil => rfl
  | cons t ts => exact if_pos h

/-- Where the tokens end, what is skipped is left behind. -/
theorem kind_skipWhile {c : Cursor} {skipped : TokenKind → Bool} (heof : skipped .eof = false)
    (h : Token.Ends (c.skipWhile skipped).rest) : skipped (c.skipWhile skipped).kind = false := by
  obtain ⟨here, ahead, last⟩ := c
  induction ahead generalizing here last with
  | nil =>
    obtain ⟨e, he, hend⟩ := h
    obtain rfl : here = e := Option.some.inj he
    show skipped here.kind = false
    cases hk : here.kind <;> first | exact heof | (rw [hk] at hend; exact nomatch hend)
  | cons t ts ih =>
    by_cases hskipped : skipped here.kind = true
    · have hskip : skipWhile ⟨here, t :: ts, last⟩ skipped = skipWhile ⟨t, ts, here.span⟩ skipped :=
        if_pos hskipped
      rw [hskip] at h ⊢
      exact ih t here.span h
    · rw [skipWhile_of_not (Bool.eq_false_iff.2 hskipped)]
      exact Bool.eq_false_iff.2 hskipped

theorem ahead_ne_nil {c : Cursor} {t : Token} {ts : List Token} (h : c.rest = t :: ts)
    (hts : ts ≠ []) : c.ahead ≠ [] := (List.cons.inj h).2 ▸ hts

end Cursor

namespace Parser

/-- A statement that is skipped up to a place ahead. -/
theorem skipStop_of_past {c : Cursor} {seen more : List Token} (hseen : seen ≠ [])
    (h : c.rest = seen ++ more) (hmore : more ≠ []) (hskip : skipStatement 0 c = c.past seen) :
    skipStop c = c.past seen ∧ skipSpan c = c.here.span.join (c.past seen).last := by
  have hmoved : (c.past seen).ahead.length < c.ahead.length := by
    have hrest := congrArg List.length (Cursor.rest_past h hmore)
    have hlength := congrArg List.length h
    have := List.length_pos_of_ne_nil hseen
    simp only [Cursor.rest, List.length_cons, List.length_append] at hrest hlength
    omega
  have hstop : skipStop c = c.past seen := by
    show (if (skipStatement 0 c).ahead.length < c.ahead.length then skipStatement 0 c
      else (skipStatement 0 c).advance) = _
    rw [hskip, if_pos hmoved]
  exact ⟨hstop, by rw [skipSpan, hstop, if_pos hmoved]⟩

end Parser

/-- What stands behind the tokens that two lists have alike. -/
inductive Frontier where
  /-- The lists do not differ. -/
  | none
  /-- A bracket that closes, and what follows it in each list. -/
  | bracket (b : Token) (r r' : List Token)
  /-- The end of the one list; a line break in the other, and what follows it. -/
  | line (e n m : Token) (ms : List Token)

namespace Frontier

def fst : Frontier → List Token
  | none => []
  | bracket b r _ => b :: r
  | line e _ _ _ => [e]

def snd : Frontier → List Token
  | none => []
  | bracket b _ r' => b :: r'
  | line _ n m ms => n :: m :: ms

def IsLine : Frontier → Prop
  | line .. => True
  | _ => False

/-- The tokens at the frontier are such as the frontier says. -/
def Sound : Frontier → Prop
  | none => False
  | bracket b _ _ => b.kind.isClosing = true
  | line e n m _ => e.kind = .eof ∧ n.kind = .newline ∧ m.kind.isNewline = false ∧
      m.kind.continues = false

/-- The two places are at the same token, with closed brackets from there to the frontier. -/
inductive Places : Frontier → Cursor → Cursor → Prop
  | same (c : Cursor) : Places none c c
  | ends {F w c c'} (hF : F.Sound) (hw : Token.Closed w) (h : c.rest = w ++ F.fst)
    (h' : c'.rest = w ++ F.snd) (hlast : c'.last = c.last) (hends : Token.Ends c.rest) :
    Places F c c'

/-- The first frontier is a bracket inside of the second one, and from behind it places go on
together. -/
structure Inside (F₁ : Frontier) (b : Mark) (F : Frontier) : Prop where
  not_line : ¬F₁.IsLine
  closes : ∀ {t r r'}, F₁ = bracket t r r' → t.kind = .mark b
  leave : ∀ {d d'}, F₁.Places d d' → d.kind = .mark b → F.Places d.advance d'.advance

variable {F : Frontier} {c c' : Cursor}

theorem Sound.fst_ne_nil (h : F.Sound) : F.fst ≠ [] := by
  cases F with
  | none => exact h.elim
  | _ => exact List.cons_ne_nil _ _

theorem Sound.snd_ne_nil (h : F.Sound) : F.snd ≠ [] := by
  cases F with
  | none => exact h.elim
  | _ => exact List.cons_ne_nil _ _

/-- Looking at the next token tells no difference but that between a line break and the end. -/
theorem Sound.any_head (hF : F.Sound) (w : List Token) (test : TokenKind → Bool)
    (htest : test .newline = test .eof) :
    ((w ++ F.snd)[0]?.any fun t => test t.kind) = (w ++ F.fst)[0]?.any fun t => test t.kind := by
  cases w with
  | cons t w => rfl
  | nil =>
    cases F with
    | none => exact hF.elim
    | bracket => rfl
    | line e n m ms =>
      show test n.kind = test e.kind
      rw [hF.1, hF.2.1, htest]

namespace Places

/-- The tokens are of one kind, or a line begins that continues nothing. -/
theorem kind_cases (h : F.Places c c') : c'.kind = c.kind ∨
    F.IsLine ∧ c.kind = .eof ∧ c'.kind = .newline ∧ c'.pastNewlines.kind.continues = false := by
  cases h with
  | same => exact Or.inl rfl
  | @ends _ w _ _ hF hw h h' =>
    cases w with
    | cons t w => exact Or.inl (by rw [Cursor.kind_of_rest h, Cursor.kind_of_rest h'])
    | nil =>
      cases F with
      | none => exact hF.elim
      | bracket b r r' => exact Or.inl (by rw [Cursor.kind_of_rest h, Cursor.kind_of_rest h'])
      | line e n m ms =>
        refine Or.inr ⟨trivial, (Cursor.kind_of_rest h).trans hF.1,
          (Cursor.kind_of_rest h').trans hF.2.1, ?_⟩
        rw [Cursor.pastNewlines, Cursor.skipWhile_of (by rw [Cursor.kind_of_rest h', hF.2.1]; rfl),
          Cursor.kind_of_rest (Cursor.rest_skipWhile_of_not hF.2.2.1
            (Cursor.rest_advance h' (List.cons_ne_nil m ms)))]
        exact hF.2.2.2

/-- Looking at the token tells no difference but that between a line break and the end. -/
theorem kind_eq {γ : Sort*} (h : F.Places c c') (f : TokenKind → γ)
    (hf : F.IsLine → f .newline = f .eof) : f c'.kind = f c.kind := by
  rcases h.kind_cases with hk | ⟨hF, heof, hline, -⟩
  · rw [hk]
  · rw [heof, hline, hf hF]

theorem kind_eq_of_not_line (h : F.Places c c') (hF : ¬F.IsLine) : c'.kind = c.kind :=
  h.kind_eq id fun hline => absurd hline hF

/-- A token that stands for something is before the frontier. -/
theorem exists_cons (h : F.Places c c') (hk : c.kind.isClosing = false ∧ c.kind.isEof = false) :
    F = .none ∧ c' = c ∨ ∃ t w, F.Sound ∧ Token.Closed (t :: w) ∧ c.rest = t :: (w ++ F.fst) ∧
      c'.rest = t :: (w ++ F.snd) ∧ c'.last = c.last ∧ Token.Ends c.rest := by
  cases h with
  | same => exact Or.inl ⟨rfl, rfl⟩
  | @ends _ w _ _ hF hw h h' hlast hends =>
    cases w with
    | cons t w => exact Or.inr ⟨t, w, hF, hw, h, h', hlast, hends⟩
    | nil =>
      cases F with
      | none => exact hF.elim
      | bracket b r r' =>
        rw [Cursor.kind_of_rest h, show b.kind.isClosing = true from hF] at hk
        exact absurd hk.1 (by decide)
      | line e n m ms =>
        rw [Cursor.kind_of_rest h, hF.1] at hk
        exact absurd hk.2 (by decide)

theorem eq_of_none (h : Frontier.none.Places c c') : c' = c := by
  cases h with
  | same => rfl
  | ends hF => exact hF.elim

theorem here_eq (h : F.Places c c') (hk : c.kind.isClosing = false ∧ c.kind.isEof = false) :
    c'.here = c.here := by
  rcases h.exists_cons hk with ⟨-, rfl⟩ | ⟨t, w, -, -, hr, hr', -, -⟩
  · rfl
  · rw [(List.cons.inj hr).1, (List.cons.inj hr').1]

theorem last_eq (h : F.Places c c') : c'.last = c.last := by
  cases h with
  | same => rfl
  | ends _ _ _ _ hlast => exact hlast

theorem length_le (h : F.Places c c') : F.fst.length ≤ c.rest.length := by
  cases h with
  | same => exact Nat.zero_le _
  | ends _ _ hr => rw [hr, List.length_append]; exact Nat.le_add_left _ _

theorem ends_of_ne (h : F.Places c c') (hF : F ≠ .none) : Token.Ends c.rest := by
  cases h with
  | same => exact absurd rfl hF
  | ends _ _ _ _ _ hends => exact hends

theorem advance_ends {t : Token} {w : List Token} (hF : F.Sound) (hw : Token.Closed w)
    (h : c.rest = t :: (w ++ F.fst)) (h' : c'.rest = t :: (w ++ F.snd))
    (hends : Token.Ends c.rest) : F.Places c.advance c'.advance := by
  have hne := List.append_ne_nil_of_right_ne_nil w hF.fst_ne_nil
  have hne' := List.append_ne_nil_of_right_ne_nil w hF.snd_ne_nil
  refine .ends hF hw (Cursor.rest_advance h hne) (Cursor.rest_advance h' hne') ?_ ?_
  · rw [Cursor.last_advance h hne, Cursor.last_advance h' hne']
  · exact hends.of_suffix c.advance_rest c.advance.rest_ne_nil

/-- Where the one place has come to the frontier, the other one has, too. -/
theorem rest_snd (h : F.Places c c') (hF : F ≠ .none) (hrest : c.rest = F.fst) :
    c'.rest = F.snd := by
  cases h with
  | same => exact absurd rfl hF
  | ends _ _ hr hr' =>
    have hw := List.append_left_eq_self.1 (hr.symm.trans hrest)
    rw [hr', hw, List.nil_append]

/-- A token that is no bracket is passed in both lists. -/
theorem advance (h : F.Places c c') (hk : c.kind.isUnbracketed = true) :
    F.Places c.advance c'.advance := by
  rcases h.exists_cons (TokenKind.isUnbracketed_iff.1 hk).2 with
    ⟨rfl, rfl⟩ | ⟨t, w, hF, hw, hr, hr', hlast, hends⟩
  · exact .same _
  · rw [Cursor.kind_of_rest hr] at hk
    exact advance_ends hF (hw.tail hk) hr hr' hends

theorem ahead_eq_nil_iff (h : F.Places c c') (hk : c.kind.isUnbracketed = true) :
    c'.ahead = [] ↔ c.ahead = [] := by
  rcases h.exists_cons (TokenKind.isUnbracketed_iff.1 hk).2 with
    ⟨-, rfl⟩ | ⟨t, w, hF, -, hr, hr', -, -⟩
  · exact Iff.rfl
  · have hne := Cursor.ahead_ne_nil hr (List.append_ne_nil_of_right_ne_nil w hF.fst_ne_nil)
    have hne' := Cursor.ahead_ne_nil hr' (List.append_ne_nil_of_right_ne_nil w hF.snd_ne_nil)
    exact iff_of_false hne' hne

/-- Behind a bracket that is opened, places go on together to the bracket that closes it. -/
theorem opening {o b : Mark} (h : F.Places c c') (hk : c.kind = .mark o)
    (hb : o.closing? = some b) :
    ∃ F₁ : Frontier, F₁.Inside b F ∧ F₁.Places c.advance c'.advance := by
  have hhead := TokenKind.isClosing_eq_false_of_isOpening (TokenKind.isOpening_of_closing? hb).1
  rcases h.exists_cons (by rw [hk]; exact ⟨hhead.1, hhead.2.1⟩) with
    ⟨rfl, rfl⟩ | ⟨t, w, hF, hw, hr, hr', hlast, hends⟩
  · refine ⟨.none, ⟨id, nofun, fun hd _ => ?_⟩, .same _⟩
    cases hd with
    | same => exact .same _
    | ends hF => exact hF.elim
  · rw [Cursor.kind_of_rest hr] at hk
    obtain ⟨inner, close, more, rfl, hclose, hinner, hmore⟩ := hw.exists_group hk hb
    have hF₁ : Sound (.bracket close (more ++ F.fst) (more ++ F.snd)) := by
      show close.kind.isClosing = true
      rw [hclose]
      exact (TokenKind.isOpening_of_closing? hb).2
    refine ⟨_, ⟨id, ?_, ?_⟩, advance_ends hF₁ hinner (by simpa [fst] using hr)
      (by simpa [snd] using hr') hends⟩
    · intro t r r' heq
      obtain ⟨rfl, -, -⟩ := Frontier.bracket.inj heq
      exact hclose
    · intro d d' hd hdk
      -- The next closing bracket stands at the frontier.
      cases hd with
      | @ends _ v _ _ _ hv hd hd' _ hdends =>
        cases v with
        | nil => exact advance_ends hF hmore hd hd' hdends
        | cons u v =>
          rw [Cursor.kind_of_rest hd] at hdk
          have hclosing := hv.head.1
          rw [hdk, (TokenKind.isOpening_of_closing? hb).2] at hclosing
          cases hclosing

/-! ### Passing over tokens -/

variable {skipped : TokenKind → Bool}

/-- Tokens that are no brackets are passed over together, up to a line. -/
theorem skipWhile (hskipped : ∀ k, skipped k = true → k.isUnbracketed = true) (h : F.Places c c') :
    F.Places (c.skipWhile skipped) (c'.skipWhile skipped) ∨
      F.IsLine ∧ (c.skipWhile skipped).rest = F.fst ∧
        ∃ d : Cursor, d.rest = F.snd ∧ c'.skipWhile skipped = d.skipWhile skipped := by
  cases h with
  | same => exact Or.inl (.same _)
  | @ends _ w _ _ hF hw h h' hlast hends =>
    induction w generalizing c c' with
    | nil =>
      have hplaces : F.Places c c' := .ends hF hw h h' hlast hends
      cases F with
      | none => exact hF.elim
      | bracket b r r' =>
        have hb : skipped b.kind = false := by
          refine Bool.eq_false_iff.2 fun hb => ?_
          have := (TokenKind.isUnbracketed_iff.1 (hskipped _ hb)).2.1
          rw [show b.kind.isClosing = true from hF] at this
          cases this
        rw [Cursor.skipWhile_of_not (by rwa [Cursor.kind_of_rest h]),
          Cursor.skipWhile_of_not (by rwa [Cursor.kind_of_rest h'])]
        exact Or.inl hplaces
      | line e n m ms =>
        have he : skipped e.kind = false := by
          refine Bool.eq_false_iff.2 fun he => ?_
          have := (TokenKind.isUnbracketed_iff.1 (hskipped _ he)).2.2
          rw [hF.1] at this
          cases this
        rw [Cursor.skipWhile_of_not (by rwa [Cursor.kind_of_rest h])]
        exact Or.inr ⟨trivial, h, c', h', rfl⟩
    | cons t w ih =>
      cases ht : skipped t.kind with
      | false =>
        rw [Cursor.skipWhile_of_not (by rwa [Cursor.kind_of_rest h]),
          Cursor.skipWhile_of_not (by rwa [Cursor.kind_of_rest h'])]
        exact Or.inl (.ends hF hw h h' hlast hends)
      | true =>
        have hskip : ∀ {d : Cursor} {ts}, d.rest = t :: ts →
            d.skipWhile skipped = d.advance.skipWhile skipped := fun hd =>
          Cursor.skipWhile_of (by rwa [Cursor.kind_of_rest hd])
        have hne := List.append_ne_nil_of_right_ne_nil w hF.fst_ne_nil
        have hne' := List.append_ne_nil_of_right_ne_nil w hF.snd_ne_nil
        rw [hskip h, hskip h']
        refine ih (hw.tail (hskipped _ ht)) (hends.of_suffix c.advance_rest c.advance.rest_ne_nil)
          (Cursor.rest_advance h hne) (Cursor.rest_advance h' hne') ?_
        rw [Cursor.last_advance h hne, Cursor.last_advance h' hne']

theorem isUnbracketed_of_isNewline (k : TokenKind) (h : k.isNewline = true) :
    k.isUnbracketed = true := by
  cases k <;> first | rfl | exact nomatch h

theorem isUnbracketed_of_isSeparator (k : TokenKind) (h : k.isSeparator = true) :
    k.isUnbracketed = true := by
  cases k with
  | mark m => cases m <;> first | rfl | exact nomatch h
  | _ => first | rfl | exact nomatch h

/-- Line breaks are passed over together, or over the frontier: then the one place is at the end, and
the other at a token that continues no statement. -/
theorem pastNewlines (h : F.Places c c') : F.Places c.pastNewlines c'.pastNewlines ∨
    F.IsLine ∧ c.pastNewlines.kind = .eof ∧ c'.pastNewlines.kind.continues = false := by
  refine (h.skipWhile isUnbracketed_of_isNewline).imp_right ?_
  rintro ⟨hline, hrest, d, hd, hskip⟩
  have hF : F.Sound := by
    cases h with
    | same => exact hline.elim
    | ends hF => exact hF
  cases F with
  | line e n m ms =>
    refine ⟨trivial, ?_, ?_⟩
    · rw [Cursor.pastNewlines, Cursor.kind_of_rest hrest]
      exact hF.1
    · rw [Cursor.pastNewlines, hskip,
        Cursor.skipWhile_of (by rw [Cursor.kind_of_rest hd, hF.2.1]; rfl),
        Cursor.kind_of_rest (Cursor.rest_skipWhile_of_not hF.2.2.1
          (Cursor.rest_advance hd (List.cons_ne_nil m ms)))]
      exact hF.2.2.2
  | _ => exact hline.elim

/-- Tokens up to which the brackets are closed are passed over together. -/
theorem past_ends {seen left : List Token} (hF : F.Sound) (hleft : Token.Closed left)
    (h : c.rest = seen ++ (left ++ F.fst)) (h' : c'.rest = seen ++ (left ++ F.snd))
    (hlast : c'.last = c.last) (hends : Token.Ends c.rest) :
    F.Places (c.past seen) (c'.past seen) := by
  have hne := List.append_ne_nil_of_right_ne_nil left hF.fst_ne_nil
  have hne' := List.append_ne_nil_of_right_ne_nil left hF.snd_ne_nil
  have hrest := Cursor.rest_past h hne
  refine .ends hF hleft hrest (Cursor.rest_past h' hne') (Cursor.last_past hlast h h' hne hne') ?_
  rw [h] at hends
  rw [hrest]
  exact hends.of_suffix (List.suffix_append _ _) hne

/-! ### Statements and type parameters -/

/-- In a block a statement is skipped up to the same place. -/
theorem skipStop {F₁ : Frontier} (h : F₁.Places c c') (hin : F₁.Inside .rightBrace F)
    (hk : Token.Ends c.rest → c.kind.endsStatement = false) :
    F₁.Places (Parser.skipStop c) (Parser.skipStop c') ∧
      Parser.skipSpan c' = Parser.skipSpan c := by
  cases h with
  | same => exact ⟨.same _, rfl⟩
  | @ends _ w _ _ hF hw h h' hlast hends =>
    cases F₁ with
    | none => exact hF.elim
    | line => exact absurd trivial hin.not_line
    | bracket b r r' =>
      have hb : b.kind.endsStatement = true := by rw [hin.closes rfl]; rfl
      obtain ⟨seen, left, y, ys, rfl, hleft, hy, hyends, hskip⟩ := Parser.skipStatement_closed hw hb
      have hseen : seen ≠ [] := by
        rintro rfl
        have hk := hk hends
        rw [Cursor.kind_of_rest (h.trans (show left ++ b :: r = y :: (ys ++ r) by
          rw [List.append_cons, hy, List.cons_append])), hyends] at hk
        cases hk
      have hskipped := hskip c r h
      have hskipped' := hskip c' r' h'
      rw [List.append_assoc] at h h'
      have hplaces := past_ends hF hleft h h' hlast hends
      obtain ⟨hstop, hspan⟩ := Parser.skipStop_of_past hseen h (by simp [fst]) hskipped
      obtain ⟨hstop', hspan'⟩ :=
        Parser.skipStop_of_past hseen h' (by simp [snd]) hskipped'
      have hhere : c'.here = c.here := by
        obtain ⟨t, seen, rfl⟩ := List.exists_cons_of_ne_nil hseen
        rw [(List.cons.inj h).1, (List.cons.inj h').1]
      have hlast' : (c'.past seen).last = (c.past seen).last :=
        Cursor.last_past hlast h h' (by simp [fst]) (by simp [snd])
      rw [hstop, hstop', hspan, hspan', hhere, hlast']
      exact ⟨hplaces, rfl⟩

/-- Type parameters of a function end at the same place. -/
theorem typeParameters (h : F.Places c c') (hk : c.kind.isKeyword .funKw = true)
    (hl : c.advance.kind.isMark .less = true) : F = .none ∧ c' = c ∨ ∃ params more more',
      Token.Angles 0 params ∧ more ≠ [] ∧ more' ≠ [] ∧ c.advance.advance.rest = params ++ more ∧
        c'.advance.advance.rest = params ++ more' ∧
        F.Places (c.advance.advance.past params) (c'.advance.advance.past params) := by
  have hplain := Token.isUnbracketed_of_isKeyword hk
  rcases h.exists_cons (TokenKind.isUnbracketed_iff.1 hplain).2 with
    hsame | ⟨f, w, hF, hw, hr, hr', -, hends⟩
  · exact Or.inl hsame
  right
  rw [Cursor.kind_of_rest hr] at hk hplain
  have hne := List.append_ne_nil_of_right_ne_nil w hF.fst_ne_nil
  have hne' := List.append_ne_nil_of_right_ne_nil w hF.snd_ne_nil
  have hless : c.advance.kind.isUnbracketed = true := by
    rw [TokenKind.isMark_iff] at hl
    rw [hl]
    rfl
  have hadvance : F.Places c.advance c'.advance := advance_ends hF (hw.tail hplain) hr hr' hends
  have hr := Cursor.rest_advance hr hne
  have hr' := Cursor.rest_advance hr' hne'
  cases w with
  | nil =>
    rcases hadvance.exists_cons (TokenKind.isUnbracketed_iff.1 hless).2 with
      ⟨rfl, -⟩ | ⟨t, v, -, -, ht, -⟩
    · exact hF.elim
    · have hlength := congrArg List.length (hr.symm.trans ht)
      simp only [List.nil_append, List.length_cons, List.length_append] at hlength
      omega
  | cons l w =>
    rw [Cursor.kind_of_rest hr] at hl
    obtain ⟨params, left, rfl, hparams, hleft⟩ := hw.exists_angles hk hl
    have hr₂ : c.advance.advance.rest = params ++ left ++ F.fst :=
      Cursor.rest_advance hr (by simp [hF.fst_ne_nil])
    have hr₂' : c'.advance.advance.rest = params ++ left ++ F.snd :=
      Cursor.rest_advance hr' (by simp [hF.snd_ne_nil])
    rw [List.append_assoc] at hr₂ hr₂'
    have hends₁ := hends.of_suffix c.advance_rest c.advance.rest_ne_nil
    have hends₂ := hends₁.of_suffix c.advance.advance_rest c.advance.advance.rest_ne_nil
    refine ⟨params, _, _, hparams, List.append_ne_nil_of_right_ne_nil left hF.fst_ne_nil,
      List.append_ne_nil_of_right_ne_nil left hF.snd_ne_nil, hr₂, hr₂', ?_⟩
    refine past_ends hF hleft hr₂ hr₂' ?_ hends₂
    rw [Cursor.last_advance hr (by simp [hF.fst_ne_nil]),
      Cursor.last_advance hr' (by simp [hF.snd_ne_nil])]

/-! ### Looking ahead -/

theorem any_kindAt?_one (h : F.Places c c') (hk : c.kind.isUnbracketed = true)
    {test : TokenKind → Bool} (htest : test .newline = test .eof) :
    (c'.kindAt? 1).any test = (c.kindAt? 1).any test := by
  by_cases hc : c.ahead = []
  · rw [Cursor.kindAt?_of_nil hc, Cursor.kindAt?_of_nil ((h.ahead_eq_nil_iff hk).2 hc)]
  · rw [Cursor.kindAt?_succ hc, Cursor.kindAt?_succ (fun hc' => hc ((h.ahead_eq_nil_iff hk).1 hc'))]
    exact (h.advance hk).kind_eq test fun _ => htest

/-- Whether a getter stands there is told by the same tokens, and its parentheses are passed over. -/
theorem isGetter (h : F.Places c c') : Parser.isGetter c' = Parser.isGetter c ∧
    (Parser.isGetter c = true → F.Places c.advance.advance.advance c'.advance.advance.advance) := by
  have hget := h.kind_eq (TokenKind.isName "get") fun _ => rfl
  cases hk : c.kind.isName "get" with
  | false => simp [Parser.isGetter, hget, hk]
  | true =>
    have hplain : c.kind.isUnbracketed = true := by
      cases hc : c.kind <;> first | rfl | simp [hc, TokenKind.isName] at hk
    rcases h.exists_cons (TokenKind.isUnbracketed_iff.1 hplain).2 with
      ⟨rfl, rfl⟩ | ⟨t, w, hF, hw, hr, hr', hlast, hends⟩
    · exact ⟨rfl, fun _ => .same _⟩
    have hw := hw.tail (by rwa [Cursor.kind_of_rest hr] at hplain)
    simp only [Parser.isGetter, hget, hk, Cursor.kindAt?_eq_rest, hr, hr', List.getElem?_cons_succ,
      Bool.true_and]
    have hhead := hF.any_head w (TokenKind.isMark .leftParen) rfl
    cases hopen : (w ++ F.fst)[0]?.any fun t => t.kind.isMark .leftParen with
    | false => simp [Option.any_map, hhead, hopen]
    | true =>
      -- The bracket that is opened stands before the frontier, and so does the one that closes it.
      obtain ⟨l, v, rfl, hl⟩ : ∃ l v, w = l :: v ∧ l.kind = .mark .leftParen := by
        cases w with
        | cons l v => exact ⟨l, v, rfl, TokenKind.isMark_iff.1 hopen⟩
        | nil =>
          cases F with
          | none => exact hF.elim
          | bracket b r r' =>
            have hkind : b.kind.isMark .leftParen = true := hopen
            rw [Sound, TokenKind.isMark_iff.1 hkind] at hF
            exact nomatch hF
          | line e n m ms =>
            have he : e.kind.isMark .leftParen = true := hopen
            rw [hF.1] at he
            exact nomatch he
      obtain ⟨inner, r, more, rfl, hclose, hinner, hmore⟩ := hw.exists_group hl rfl
      cases inner with
      | cons u inner =>
        have hu : u.kind.isMark .rightParen = false := by
          refine Bool.eq_false_iff.2 fun hu => ?_
          have hclosing := hinner.head.1
          rw [TokenKind.isMark_iff.1 hu] at hclosing
          exact nomatch hclosing
        simp [hu]
      | nil =>
        have hmore' := hF.any_head more
          (fun k => k.isMark .equal || k.isMark .leftBrace || k.isMark .colon) rfl
        refine ⟨?_, fun _ => @past_ends _ _ _ [t, l, r] more hF hmore hr hr' hlast hends⟩
        simpa [Option.any_map, Function.comp_def] using congrArg _ hmore'

end Places

end Frontier

end FrameCheck
