import FrameCheck.Proofs.Parse.Reading

/-!
# Tokens whose brackets are closed

What a parser does with tokens that stand in brackets depends on nothing behind the bracket that
closes them, if each bracket that is opened is closed by its own kind. Only the type parameters of a
function may run over a bracket, up to the angle bracket that closes them.

* `Token.Balanced` : tokens whose brackets are closed.
* `Token.Closed` : in addition, type parameters end between the same brackets.
* `Cursor.past` : the place behind a number of tokens.
-/

namespace FrameCheck

/-- The bracket that closes what an opening one opens. -/
def Mark.closing? : Mark → Option Mark
  | leftParen => some rightParen
  | leftBrace => some rightBrace
  | leftBracket => some rightBracket
  | _ => none

namespace TokenKind

/-- No bracket, and not the end. -/
def isUnbracketed (k : TokenKind) : Bool := !k.isOpening && !k.isClosing && !k.isEof

theorem isMark_iff {k : TokenKind} {m : Mark} : k.isMark m = true ↔ k = .mark m := by
  cases k <;> simp [isMark]

theorem isKeyword_iff {k : TokenKind} {w : Keyword} : k.isKeyword w = true ↔ k = .keyword w := by
  cases k <;> simp [isKeyword]

theorem isOpening_of_closing? {o c : Mark} (h : o.closing? = some c) :
    (mark o).isOpening = true ∧ (mark c).isClosing = true := by
  cases o <;> cases h <;> exact ⟨rfl, rfl⟩

theorem isClosing_eq_false_of_isOpening {k : TokenKind} (h : k.isOpening = true) :
    k.isClosing = false ∧ k.isEof = false ∧ k.endsStatement = false := by
  cases k with
  | mark m => cases m <;> first | exact ⟨rfl, rfl, rfl⟩ | exact nomatch h
  | _ => exact nomatch h

theorem isUnbracketed_iff {k : TokenKind} :
    k.isUnbracketed = true ↔ k.isOpening = false ∧ k.isClosing = false ∧ k.isEof = false := by
  simp [isUnbracketed, and_assoc]

theorem isUnbracketed_of_plainName? {k : TokenKind} (h : k.plainName?.isSome = true) :
    k.isUnbracketed = true := by
  cases k <;> first | rfl | exact nomatch h

theorem isUnbracketed_of_asName? {k : TokenKind} {n : String} (h : k.asName? = some n) :
    k.isUnbracketed = true := by
  cases k <;> first | rfl | exact nomatch h

theorem isUnbracketed_of_isName {k : TokenKind} {n : String} (h : k.isName n = true) :
    k.isUnbracketed = true := by
  cases k <;> first | rfl | exact nomatch h

theorem isUnbracketed_of_isMark {k : TokenKind} {m : Mark} (h : k.isMark m = true)
    (hm : (mark m).isUnbracketed = true) : k.isUnbracketed = true := by
  rwa [isMark_iff.1 h]

theorem isUnbracketed_eq_false {k : TokenKind} {o c : Mark} (hk : k = .mark o)
    (h : o.closing? = some c) : k.isUnbracketed = false := by
  subst hk
  rw [isUnbracketed, (isOpening_of_closing? h).1]
  rfl

end TokenKind

namespace Token

/-- Each bracket is closed, and the tokens outside of brackets are of some kind. -/
inductive Balanced : (TokenKind → Bool) → List Token → Prop
  | nil {outside} : Balanced outside []
  | plain {outside t ts} (ht : t.kind.isUnbracketed = true) (hout : outside t.kind = true)
    (h : Balanced outside ts) : Balanced outside (t :: ts)
  | group {outside l r inner ts o c} (hl : l.kind = .mark o) (hc : o.closing? = some c)
    (hr : r.kind = .mark c) (hinner : Balanced (fun _ => true) inner) (h : Balanced outside ts) :
    Balanced outside (l :: (inner ++ r :: ts))

/-- What is passed over behind an opening angle bracket, up to the one that closes it, where `depth`
more are open. -/
inductive Angles : Nat → List Token → Prop
  | stop {t} (ht : t.kind.isMark .greater = true) : Angles 0 [t]
  | greater {depth t ts} (ht : t.kind.isMark .greater = true) (h : Angles depth ts) :
    Angles (depth + 1) (t :: ts)
  | less {depth t ts} (ht : t.kind.isMark .less = true) (h : Angles (depth + 1) ts) :
    Angles depth (t :: ts)
  | other {depth t ts} (ht : t.kind.isMark .less = false ∧ t.kind.isMark .greater = false)
    (hend : t.kind.isEof = false) (h : Angles depth ts) : Angles depth (t :: ts)

/-- Each bracket is closed, and so are the type parameters of functions, between the same
brackets. -/
inductive Closed : List Token → Prop
  | nil : Closed []
  | plain {t ts} (ht : t.kind.isUnbracketed = true)
    (hfun : t.kind.isKeyword .funKw = true → ∀ u us, ts = u :: us → u.kind.isMark .less = false)
    (h : Closed ts) : Closed (t :: ts)
  | group {l r inner ts o c} (hl : l.kind = .mark o) (hc : o.closing? = some c)
    (hr : r.kind = .mark c) (hinner : Closed inner) (h : Closed ts) :
    Closed (l :: (inner ++ r :: ts))
  | generic {f l params ts} (hf : f.kind.isKeyword .funKw = true) (hl : l.kind.isMark .less = true)
    (hparams : Angles 0 params) (hall : Closed (params ++ ts)) (h : Closed ts) :
    Closed (f :: l :: (params ++ ts))

theorem isUnbracketed_of_isKeyword {k : TokenKind} {w : Keyword} (h : k.isKeyword w = true) :
    k.isUnbracketed = true := by
  cases k with
  | keyword v => rfl
  | _ => exact nomatch h

namespace Closed

variable {t f l : Token} {ts : List Token} {o c : Mark}

theorem less (h : Closed ts) (hl : l.kind.isMark .less = true) : Closed (l :: ts) := by
  rw [TokenKind.isMark_iff] at hl
  exact .plain (by rw [hl]; rfl) (by rw [hl]; exact nofun) h

theorem tail (h : Closed (t :: ts)) (ht : t.kind.isUnbracketed = true) : Closed ts := by
  cases h with
  | plain _ _ h => exact h
  | group hl hc =>
    rw [TokenKind.isUnbracketed_eq_false hl hc] at ht
    cases ht
  | generic _ hl _ hall => exact hall.less hl

/-- What an opening bracket stands before. -/
theorem exists_group (h : Closed (t :: ts)) (ht : t.kind = .mark o) (hc : o.closing? = some c) :
    ∃ inner r rest, ts = inner ++ r :: rest ∧ r.kind = .mark c ∧ Closed inner ∧ Closed rest := by
  have hnot := TokenKind.isUnbracketed_eq_false ht hc
  cases h with
  | plain hplain => exact absurd hplain (by rw [hnot]; exact Bool.false_ne_true)
  | group hl hc' hr hinner h =>
    rw [ht] at hl
    cases hl
    rw [hc] at hc'
    cases hc'
    exact ⟨_, _, _, rfl, hr, hinner, h⟩
  | generic hf =>
    exact absurd (isUnbracketed_of_isKeyword hf) (by rw [hnot]; exact Bool.false_ne_true)

theorem head (h : Closed (t :: ts)) : t.kind.isClosing = false ∧ t.kind.isEof = false := by
  cases h with
  | plain ht => exact (TokenKind.isUnbracketed_iff.1 ht).2
  | group hl hc =>
    have hopen := TokenKind.isClosing_eq_false_of_isOpening (TokenKind.isOpening_of_closing? hc).1
    rw [hl]
    exact ⟨hopen.1, hopen.2.1⟩
  | generic hf => exact (TokenKind.isUnbracketed_iff.1 (isUnbracketed_of_isKeyword hf)).2

theorem exists_angles (h : Closed (f :: l :: ts)) (hf : f.kind.isKeyword .funKw = true)
    (hl : l.kind.isMark .less = true) :
    ∃ params rest, ts = params ++ rest ∧ Angles 0 params ∧ Closed rest := by
  generalize htail : l :: ts = tail at h
  cases h with
  | plain _ hfun =>
    exact absurd hl (by rw [hfun hf l ts htail.symm]; exact Bool.false_ne_true)
  | group hl' hc =>
    exact absurd (isUnbracketed_of_isKeyword hf)
      (by rw [TokenKind.isUnbracketed_eq_false hl' hc]; exact Bool.false_ne_true)
  | generic _ _ hparams _ h =>
    obtain ⟨-, rfl⟩ := List.cons.inj htail
    exact ⟨_, _, rfl, hparams, h⟩

theorem balanced (h : Closed ts) : Balanced (fun _ => true) ts := by
  induction h with
  | nil => exact .nil
  | plain ht _ _ ih => exact .plain ht rfl ih
  | group hl hc hr _ _ hinner ih => exact .group hl hc hr hinner ih
  | generic hf hl _ _ _ ih _ =>
    rw [TokenKind.isMark_iff] at hl
    exact .plain (isUnbracketed_of_isKeyword hf) rfl (.plain (by rw [hl]; rfl) rfl ih)

end Closed

end Token

/-! ## Places behind tokens -/

namespace Cursor

/-- The place behind these tokens. -/
def past : List Token → Cursor → Cursor
  | [], c => c
  | _ :: ts, c => past ts c.advance

variable {c c' : Cursor} {ts more more' : List Token}

theorem past_append (ts us : List Token) (c : Cursor) :
    c.past (ts ++ us) = (c.past ts).past us := by
  induction ts generalizing c with
  | nil => rfl
  | cons t ts ih => exact ih c.advance

theorem rest_past (h : c.rest = ts ++ more) (hmore : more ≠ []) : (c.past ts).rest = more := by
  induction ts generalizing c with
  | nil => exact h
  | cons t ts ih => exact ih (rest_advance h (List.append_ne_nil_of_right_ne_nil _ hmore))

theorem last_advance {t : Token} (h : c.rest = t :: more) (hmore : more ≠ []) :
    c.advance.last = t.span := by
  obtain ⟨here, ahead, last⟩ := c
  obtain ⟨rfl, rfl⟩ := List.cons.inj h
  cases ahead with
  | nil => exact absurd rfl hmore
  | cons u ahead => rfl

theorem last_past (hlast : c'.last = c.last) (h : c.rest = ts ++ more) (h' : c'.rest = ts ++ more')
    (hmore : more ≠ []) (hmore' : more' ≠ []) : (c'.past ts).last = (c.past ts).last := by
  induction ts generalizing c c' with
  | nil => exact hlast
  | cons t ts ih =>
    have hne := List.append_ne_nil_of_right_ne_nil ts hmore
    have hne' := List.append_ne_nil_of_right_ne_nil ts hmore'
    refine ih ?_ (rest_advance h hne) (rest_advance h' hne')
    rw [last_advance h hne, last_advance h' hne']

/-- The token before a place is the last one that was passed. -/
theorem last_past_cons {t : Token} (h : c.rest = t :: (ts ++ more)) (hmore : more ≠ []) :
    (c.past (t :: ts)).last = ((t :: ts).getLast (List.cons_ne_nil t ts)).span := by
  have hne := List.append_ne_nil_of_right_ne_nil ts hmore
  induction ts generalizing t c with
  | nil => exact last_advance h hne
  | cons u ts ih =>
    have hne' := List.append_ne_nil_of_right_ne_nil ts hmore
    exact ih (rest_advance h hne) hne'

end Cursor

/-! ## Passing over tokens -/

namespace Parser

/-- The end of the statement that holds a place, with `depth` brackets open before it. -/
def skipStatement (depth : Nat) (c : Cursor) : Cursor :=
  skipStatementFrom depth c.here c.last c.ahead

section

variable {c : Cursor} {t : Token} {ts more : List Token} {depth : Nat}

theorem skipStatement_step (h : c.rest = t :: ts) (hts : ts ≠ []) : skipStatement depth c =
    if t.kind.isEof || (depth == 0 && t.kind.endsStatement) then c
    else skipStatement (if t.kind.isOpening then depth + 1 else if t.kind.isClosing then depth - 1
      else depth) c.advance := by
  obtain ⟨here, ahead, last⟩ := c
  obtain ⟨rfl, rfl⟩ := List.cons.inj h
  cases ahead with
  | nil => exact absurd rfl hts
  | cons u ahead => rfl

theorem skipStatement_plain (h : c.rest = t :: ts) (hts : ts ≠ [])
    (ht : t.kind.isUnbracketed = true)
    (hends : depth = 0 → t.kind.endsStatement = false) :
    skipStatement depth c = skipStatement depth c.advance := by
  obtain ⟨hopening, hclosing, heof⟩ := TokenKind.isUnbracketed_iff.1 ht
  rw [skipStatement_step h hts, heof, hopening, hclosing]
  cases depth with
  | zero => simp [hends rfl]
  | succ depth => simp

theorem skipStatement_opening (h : c.rest = t :: ts) (hts : ts ≠ [])
    (ht : t.kind.isOpening = true) :
    skipStatement depth c = skipStatement (depth + 1) c.advance := by
  obtain ⟨-, heof, hends⟩ := TokenKind.isClosing_eq_false_of_isOpening ht
  rw [skipStatement_step h hts, heof, hends, ht]
  simp

theorem skipStatement_closing (h : c.rest = t :: ts) (hts : ts ≠ []) {m : Mark}
    (ht : t.kind = .mark m) (hm : (TokenKind.mark m).isClosing = true) :
    skipStatement (depth + 1) c = skipStatement depth c.advance := by
  have hopening : t.kind.isOpening = false := by
    refine Bool.eq_false_iff.2 fun hopening => ?_
    rw [ht, (TokenKind.isClosing_eq_false_of_isOpening (ht ▸ hopening)).1] at *
    exact absurd hm Bool.false_ne_true
  rw [skipStatement_step h hts, hopening, ht, hm]
  simp [TokenKind.isEof]

/-- Tokens whose brackets are closed do not end a statement that has an open bracket. -/
theorem skipStatement_balanced {outside : TokenKind → Bool} (hts : Token.Balanced outside ts)
    (h : c.rest = ts ++ more) (hmore : more ≠ []) :
    skipStatement (depth + 1) c = skipStatement (depth + 1) (c.past ts) := by
  induction hts generalizing c depth more with
  | nil => rfl
  | @plain _ _ ts ht _ _ ih =>
    have hne := List.append_ne_nil_of_right_ne_nil ts hmore
    rw [skipStatement_plain h hne ht fun h => absurd h (Nat.succ_ne_zero depth)]
    exact ih (Cursor.rest_advance h hne) hmore
  | @group outside l r inner ts o m hl hc hr _ _ hinner ih =>
    obtain ⟨hopening, hclosing⟩ := TokenKind.isOpening_of_closing? hc
    have h : c.rest = l :: (inner ++ r :: (ts ++ more)) := by simpa using h
    have hadvance :=
      Cursor.rest_advance h (List.append_ne_nil_of_right_ne_nil _ (List.cons_ne_nil _ _))
    have hpast := Cursor.rest_past hadvance (List.cons_ne_nil _ _)
    have hne := List.append_ne_nil_of_right_ne_nil ts hmore
    rw [skipStatement_opening h (List.append_ne_nil_of_right_ne_nil _ (List.cons_ne_nil _ _))
      (hl ▸ hopening), hinner hadvance (List.cons_ne_nil _ _),
      skipStatement_closing hpast hne hr hclosing,
      ih (Cursor.rest_advance hpast hne) hmore, Cursor.past, Cursor.past_append, Cursor.past]

/-- A bracket with what it encloses is passed over. -/
theorem skipStatement_group {outside : TokenKind → Bool} {l r : Token} {inner : List Token}
    {o m : Mark} (hl : l.kind = .mark o) (hc : o.closing? = some m) (hr : r.kind = .mark m)
    (hinner : Token.Balanced outside inner) (h : c.rest = l :: (inner ++ r :: more))
    (hmore : more ≠ []) :
    skipStatement depth c = skipStatement depth (c.past (l :: (inner ++ [r]))) ∧
      (c.past (l :: (inner ++ [r]))).rest = more := by
  obtain ⟨hopening, hclosing⟩ := TokenKind.isOpening_of_closing? hc
  have hne := List.append_ne_nil_of_right_ne_nil inner (List.cons_ne_nil r more)
  have hadvance := Cursor.rest_advance h hne
  have hpast := Cursor.rest_past hadvance (List.cons_ne_nil _ _)
  rw [skipStatement_opening h hne (hl ▸ hopening), skipStatement_balanced hinner hadvance
    (List.cons_ne_nil _ _), skipStatement_closing hpast hmore hr hclosing, Cursor.past,
    Cursor.past_append]
  exact ⟨rfl, Cursor.rest_advance hpast hmore⟩

theorem skipStatement_of_ends (h : c.rest = t :: ts) (ht : t.kind.endsStatement = true) :
    skipStatement 0 c = c := by
  obtain ⟨here, ahead, last⟩ := c
  obtain ⟨rfl, rfl⟩ := List.cons.inj h
  cases ahead with
  | nil => rfl
  | cons u ahead =>
    rw [skipStatement_step rfl (List.cons_ne_nil _ _), ht]
    simp

/-- Tokens that have nothing which ends a statement outside of brackets are skipped up to one that
does. -/
theorem skipStatement_outside {x : Token} (hts : Token.Balanced (fun k => !k.isSeparator) ts)
    (hx : x.kind.endsStatement = true) (h : c.rest = ts ++ x :: more) :
    skipStatement 0 c = c.past ts := by
  generalize houtside : (fun k : TokenKind => !k.isSeparator) = outside at hts
  induction hts generalizing c with
  | nil => exact skipStatement_of_ends h hx
  | @plain _ t ts ht hout _ ih =>
    subst houtside
    have hne := List.append_ne_nil_of_right_ne_nil ts (List.cons_ne_nil x more)
    obtain ⟨-, hclosing, heof⟩ := TokenKind.isUnbracketed_iff.1 ht
    have hends : t.kind.endsStatement = false := by
      simp only [TokenKind.isClosing, Bool.or_eq_false_iff] at hclosing
      simp only [Bool.not_eq_true'] at hout
      simp [TokenKind.endsStatement, hout, hclosing, heof]
    rw [skipStatement_plain h hne ht fun _ => hends]
    exact ih (Cursor.rest_advance h hne) rfl
  | @group _ l r inner ts o m hl hc hr hinner _ _ ih =>
    have hgroup : c.rest = l :: (inner ++ r :: (ts ++ x :: more)) := by simpa using h
    obtain ⟨hskip, hrest⟩ := @skipStatement_group c _ 0 _ _ _ _ _ _ hl hc hr hinner hgroup
      (List.append_ne_nil_of_right_ne_nil ts (List.cons_ne_nil x more))
    rw [hskip, ih hrest houtside, ← Cursor.past_append]
    simp

/-- A statement that stands before a token which ends it is skipped up to a place outside of
brackets, whatever follows. -/
theorem skipStatement_closed {x : Token} (hts : Token.Closed ts)
    (hx : x.kind.endsStatement = true) :
    ∃ seen left y ys, ts = seen ++ left ∧ Token.Closed left ∧ left ++ [x] = y :: ys ∧
      y.kind.endsStatement = true ∧
      ∀ c : Cursor, ∀ more, c.rest = ts ++ x :: more → skipStatement 0 c = c.past seen := by
  induction hts with
  | nil => exact ⟨[], [], x, [], rfl, .nil, rfl, hx, fun c more h => skipStatement_of_ends h hx⟩
  | @plain t ts ht hfun hts ih =>
    by_cases hends : t.kind.endsStatement = true
    · exact ⟨[], t :: ts, t, ts ++ [x], rfl, .plain ht hfun hts, rfl, hends,
        fun c more h => skipStatement_of_ends h hends⟩
    · obtain ⟨seen, left, y, ys, rfl, hleft, hy, hends', hskip⟩ := ih
      refine ⟨t :: seen, left, y, ys, rfl, hleft, hy, hends', fun c more h => ?_⟩
      have hne := List.append_ne_nil_of_right_ne_nil (seen ++ left) (List.cons_ne_nil x more)
      rw [skipStatement_plain h hne ht fun _ => Bool.eq_false_iff.2 hends]
      exact hskip _ more (Cursor.rest_advance h hne)
  | @group l r inner ts o m hl hc hr hinner _ _ ih =>
    obtain ⟨seen, left, y, ys, rfl, hleft, hy, hends, hskip⟩ := ih
    refine ⟨l :: (inner ++ [r]) ++ seen, left, y, ys, by simp, hleft, hy, hends, fun c more h => ?_⟩
    have hgroup : c.rest = l :: (inner ++ r :: (seen ++ left ++ x :: more)) := by simpa using h
    obtain ⟨hskipGroup, hrest⟩ := @skipStatement_group c _ 0 _ _ _ _ _ _ hl hc hr hinner.balanced
      hgroup (by simp)
    rw [hskipGroup, hskip _ more hrest, ← Cursor.past_append]
  | @generic f l params ts hf hl _ _ _ ih _ =>
    obtain ⟨seen, left, y, ys, hparams, hleft, hy, hends, hskip⟩ := ih
    refine ⟨f :: l :: seen, left, y, ys, by rw [hparams]; rfl, hleft, hy, hends, fun c more h => ?_⟩
    have hne : params ++ ts ++ x :: more ≠ [] := by simp
    have hf' : f.kind.endsStatement = false := by
      cases hk : f.kind <;> simp [hk, TokenKind.isKeyword] at hf
      rfl
    rw [TokenKind.isMark_iff] at hl
    rw [skipStatement_plain h (List.cons_ne_nil _ _) (Token.isUnbracketed_of_isKeyword hf)
      fun _ => hf']
    have hadvance := Cursor.rest_advance h (List.cons_ne_nil _ _)
    rw [skipStatement_plain hadvance hne (by rw [hl]; rfl) fun _ => by rw [hl]; rfl]
    exact hskip _ more (Cursor.rest_advance hadvance hne)

end

end Parser

end FrameCheck
