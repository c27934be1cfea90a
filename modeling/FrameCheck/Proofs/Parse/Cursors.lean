import FrameCheck.Parse.Decl
import FrameCheck.Parse.Unit
import FrameCheck.Proofs.Token.Tiling

/-!
# Places in a list of tokens

A cursor goes from token to token (`Cursor.Reaches`), so it stands on a token of the list that it
was made for (`Cursor.Stands`), also at the end, where it stays. What it looks at ahead is a token of
the list as well. A token that does not end a list has one behind it, so consuming it makes what is
left shorter, and lighter by what its templates weigh.

* `Cursor.Stands.reaches` : the cursor never leaves its list and never goes back in it.
* `Token.Ended` : a list that comes to an end, with those of its templates at any depth.
* `Cursor.Fits` : what is left comes to an end and has a bounded weight.
-/

namespace FrameCheck

/-! ## Texts that end -/

theorem TokenKind.isEof_eq_false {k : TokenKind} (h : k ≠ .eof) : k.isEof = false := by
  cases k <;> first | rfl | exact absurd rfl h

namespace Token

/-- The list of tokens comes to an end. -/
def Ends (ts : List Token) : Prop := ∃ e, ts.getLast? = some e ∧ e.kind.isEof = true

theorem Ends.of_suffix {ts us : List Token} (h : Ends us) (hs : ts <:+ us) (hne : ts ≠ []) :
    Ends ts := by
  obtain ⟨before, rfl⟩ := hs
  obtain ⟨e, he, hend⟩ := h
  exact ⟨e, by rwa [List.getLast?_append_of_ne_nil _ hne] at he, hend⟩

theorem Ends.ne_nil {ts : List Token} (h : Ends ts) : ts ≠ [] := by
  obtain ⟨e, he, -⟩ := h
  rintro rfl
  cases he

theorem Ends.append {us : List Token} (h : Ends us) (ts : List Token) : Ends (ts ++ us) := by
  obtain ⟨e, he, hend⟩ := h
  exact ⟨e, by rw [List.getLast?_append, he]; rfl, hend⟩

theorem Apart.ends_list {text : List Char} {stop : Nat} {ts : List Token}
    (h : Apart text stop ts) : Ends ts := by
  obtain ⟨init, rfl, -⟩ := h.ends
  exact ⟨_, List.getLast?_concat, rfl⟩

/-- The list comes to an end, and so do those of its templates, at any depth. -/
def Ended (ts : List Token) : Prop := ∀ us, Within ts us → Ends us

theorem Ended.ends {ts : List Token} (h : Ended ts) : Ends ts := h ts .self

theorem Ended.within {ts us : List Token} (h : Ended ts) (hus : Within ts us) : Ended us :=
  fun vs hvs => h vs (hus.trans hvs)

/-- What belongs to an end of a list is that end or belongs to the list. -/
theorem Within.of_suffix {ts us vs : List Token} (hs : ts <:+ us) (h : Within ts vs) :
    vs = ts ∨ Within us vs := by
  induction h with
  | self => exact .inl rfl
  | part hws ht hpart ih =>
    rcases ih with rfl | hws
    · exact .inr (.part .self (hs.subset ht) hpart)
    · exact .inr (.part hws ht hpart)

theorem Ended.of_suffix {ts us : List Token} (h : Ended us) (hs : ts <:+ us) (hne : ts ≠ []) :
    Ended ts := by
  intro vs hvs
  rcases hvs.of_suffix hs with rfl | hvs
  · exact h.ends.of_suffix hs hne
  · exact h vs hvs

theorem ended_of_scan {text : String} {ts : List Token} (h : scan text = .ok ts) : Ended ts := by
  intro us hus
  obtain ⟨stop, hapart⟩ := apart_of_scan h hus
  exact hapart.ends_list

/-! ## Weights -/

theorem listWeight_append (ts us : List Token) :
    listWeight (ts ++ us) = listWeight ts + listWeight us := by
  induction ts with
  | nil => rw [List.nil_append, listWeight, Nat.zero_add]
  | cons t ts ih => rw [List.cons_append, listWeight, listWeight, ih, Nat.add_assoc]

theorem listWeight_le_of_suffix {ts us : List Token} (h : ts <:+ us) :
    listWeight ts ≤ listWeight us := by
  obtain ⟨before, rfl⟩ := h
  rw [listWeight_append]
  exact Nat.le_add_left _ _

theorem listWeight_le_partsWeight {ts : List Token} {parts : List (List Token)}
    (h : ts ∈ parts) : listWeight ts ≤ partsWeight parts := by
  induction parts with
  | nil => exact absurd h List.not_mem_nil
  | cons us parts ih =>
    rw [partsWeight]
    rcases List.mem_cons.1 h with rfl | h
    · omega
    · have := ih h
      omega

theorem weight_eq (t : Token) : t.weight = partsWeight t.kind.parts + 1 := by
  obtain ⟨kind, span⟩ := t
  rw [weight]
  cases kind <;> rfl

theorem length_le_listWeight (ts : List Token) : ts.length ≤ listWeight ts := by
  induction ts with
  | nil => exact Nat.zero_le _
  | cons t ts ih =>
    rw [List.length_cons, listWeight, weight_eq]
    omega

end Token

namespace Cursor

/-! ## Going on -/

/-- The tokens from the cursor on. -/
def rest (c : Cursor) : List Token := c.here :: c.ahead

theorem rest_ne_nil (c : Cursor) : c.rest ≠ [] := List.cons_ne_nil _ _

theorem rest_ofTokens {ts : List Token} (h : ts ≠ []) : (ofTokens ts).rest = ts := by
  cases ts with
  | nil => exact absurd rfl h
  | cons t ts => rfl

theorem kindAt_succ (c : Cursor) (n : Nat) : c.kindAt (n + 1) = c.advance.kindAt n := by
  obtain ⟨here, ahead, last⟩ := c
  cases ahead with
  | nil => cases n <;> rfl
  | cons t ts =>
    cases n with
    | zero => rfl
    | succ n => rw [kindAt, kindAt, advance, List.getElem?_cons_succ, List.getLastD_cons]

theorem advance_rest (c : Cursor) : c.advance.rest <:+ c.rest := by
  unfold advance
  split
  · exact List.suffix_refl _
  · next t ts h =>
    rw [rest, rest, h]
    exact List.suffix_cons c.here (t :: ts)

/-- The second place comes from the first, one token after the other. -/
inductive Reaches (c : Cursor) : Cursor → Prop
  | here : Reaches c c
  | step {d : Cursor} (h : Reaches c d) : Reaches c d.advance

variable {c d e : Cursor}

theorem Reaches.trans (h : c.Reaches d) (h' : d.Reaches e) : c.Reaches e := by
  induction h' with
  | here => exact h
  | step _ ih => exact ih.step

theorem Reaches.of_advance (h : c.advance.Reaches d) : c.Reaches d := Reaches.here.step.trans h

theorem Reaches.rest_suffix (h : c.Reaches d) : d.rest <:+ c.rest := by
  induction h with
  | here => exact List.suffix_refl _
  | step _ ih => exact (advance_rest _).trans ih

theorem reaches_skipFrom (skipped : TokenKind → Bool) :
    ∀ (ahead : List Token) (here : Token) (last : Span),
      Reaches ⟨here, ahead, last⟩ (skipFrom skipped here last ahead)
  | [], _, _ => .here
  | t :: ts, here, last => by
    rw [skipFrom]
    split
    · exact Reaches.of_advance (reaches_skipFrom skipped ts t here.span)
    · exact .here

theorem reaches_skipWhile (c : Cursor) (skipped : TokenKind → Bool) :
    c.Reaches (c.skipWhile skipped) :=
  reaches_skipFrom skipped c.ahead c.here c.last

theorem skipWhile_rest (c : Cursor) (skipped : TokenKind → Bool) :
    (c.skipWhile skipped).rest <:+ c.rest :=
  (c.reaches_skipWhile skipped).rest_suffix

theorem reaches_skipStatementFrom :
    ∀ (ahead : List Token) (depth : Nat) (here : Token) (last : Span),
      Reaches ⟨here, ahead, last⟩ (Parser.skipStatementFrom depth here last ahead)
  | [], _, _, _ => .here
  | t :: ts, depth, here, last => by
    rw [Parser.skipStatementFrom]
    split
    · exact .here
    · exact Reaches.of_advance (reaches_skipStatementFrom ts _ t here.span)

/-- A token that does not end the text has one behind it. -/
theorem length_advance (h : Token.Ends c.rest) (hk : c.kind.isEof = false) :
    c.advance.rest.length < c.rest.length := by
  obtain ⟨here, ahead, last⟩ := c
  cases ahead with
  | nil =>
    obtain ⟨e, he, hend⟩ := h
    cases he
    exact absurd (hk.symm.trans hend) Bool.false_ne_true
  | cons t ts => exact Nat.lt_succ_self _

/-! ## Places -/

/-- The cursor stands on the token with this index in the list, and its last span is that of the
token before, or of the first token where there is none before. -/
structure Stands (c : Cursor) (ts : List Token) (i : Nat) : Prop where
  here : ts[i]? = some c.here
  ahead : ts.drop (i + 1) = c.ahead
  last : (ts[i - 1]?).map Token.span = some c.last

section

variable {ts : List Token} {i : Nat}

theorem stands_ofTokens (h : ts ≠ []) : (ofTokens ts).Stands ts 0 := by
  cases ts with
  | nil => exact absurd rfl h
  | cons t ts => exact ⟨rfl, rfl, rfl⟩

/-- The index is in range. -/
theorem Stands.lt (h : c.Stands ts i) : i < ts.length := (List.getElem?_eq_some_iff.1 h.here).1

theorem Stands.rest_eq (h : c.Stands ts i) : c.rest = ts.drop i := by
  obtain ⟨hlt, hi⟩ := List.getElem?_eq_some_iff.1 h.here
  rw [rest, ← h.ahead, ← hi, List.getElem_cons_drop]

theorem Stands.length_rest (h : c.Stands ts i) : c.rest.length = ts.length - i := by
  rw [h.rest_eq, List.length_drop]

/-- The cursor goes to the next token, unless it stands on the last. -/
theorem Stands.advance (h : c.Stands ts i) :
    c.advance.Stands ts (i + 1) ∨ c.ahead = [] ∧ c.advance = c := by
  obtain ⟨here, ahead, last⟩ := c
  cases ahead with
  | nil => exact .inr ⟨rfl, rfl⟩
  | cons t more =>
    have hnext : ts[i + 1]? = some t := by
      rw [← List.head?_drop, h.ahead]
      rfl
    refine .inl ⟨hnext, ?_, by rw [Nat.add_sub_cancel, h.here]; rfl⟩
    rw [← List.tail_drop, h.ahead]
    rfl

/-- The cursor stays in its list and does not go back. -/
theorem Stands.reaches (h : c.Stands ts i) (hd : c.Reaches d) : ∃ j, i ≤ j ∧ d.Stands ts j := by
  induction hd with
  | here => exact ⟨i, Nat.le_refl _, h⟩
  | step _ ih =>
    obtain ⟨j, hij, hj⟩ := ih
    rcases hj.advance with hnext | ⟨-, hsame⟩
    · exact ⟨j + 1, Nat.le_succ_of_le hij, hnext⟩
    · exact ⟨j, hij, hsame.symm ▸ hj⟩

/-- What is looked at ahead is a token of the list, the last one if there are not that many. -/
theorem Stands.kindAt_eq (h : c.Stands ts i) (n : Nat) :
    (ts[min (i + n) (ts.length - 1)]?).map Token.kind = some (c.kindAt n) := by
  have hlt := h.lt
  cases n with
  | zero =>
    rw [Nat.add_zero, Nat.min_eq_left (by omega), h.here]
    rfl
  | succ n =>
    have hlength : c.ahead.length = ts.length - (i + 1) := by rw [← h.ahead, List.length_drop]
    rw [kindAt]
    rcases Nat.lt_or_ge n c.ahead.length with hn | hn
    · rw [Nat.min_eq_left (by omega), ← h.ahead, List.getElem?_drop,
        show i + 1 + n = i + (n + 1) by omega, List.getElem?_eq_getElem (by omega)]
      rfl
    · have hlast : ts[ts.length - 1]? = some (c.ahead.getLastD c.here) := by
        have hrest : c.here :: c.ahead = ts.drop i := h.rest_eq
        rw [← List.getLast?_eq_getElem?, List.getLastD_eq_getLast?, ← List.getLast?_cons, hrest,
          List.getLast?_drop, if_neg (by omega)]
      rw [Nat.min_eq_right (by omega), hlast, List.getElem?_eq_none hn]
      rfl

theorem Stands.kindAt?_eq (h : c.Stands ts i) (n : Nat) :
    c.kindAt? n = (ts[i + n]?).map Token.kind := by
  cases n with
  | zero =>
    rw [Nat.add_zero, h.here]
    rfl
  | succ n =>
    rw [kindAt?, ← h.ahead, List.getElem?_drop, show i + 1 + n = i + (n + 1) by omega]

end

/-! ## What is left -/

/-- What is left comes to an end, and its weight is bounded. -/
def Fits (n : Nat) (c : Cursor) : Prop := Token.Ended c.rest ∧ Token.listWeight c.rest ≤ n

variable {n : Nat}

theorem Fits.advance (h : c.Fits n) : c.advance.Fits n :=
  ⟨h.1.of_suffix c.advance_rest (rest_ne_nil _),
    (Token.listWeight_le_of_suffix c.advance_rest).trans h.2⟩

/-- A consumed token takes its weight away. -/
theorem Fits.consume (h : c.Fits (n + 1)) (hk : c.kind.isEof = false) : c.advance.Fits n := by
  refine ⟨h.advance.1, ?_⟩
  obtain ⟨here, ahead, last⟩ := c
  have hlt := length_advance h.1.ends hk
  cases ahead with
  | nil => exact absurd hlt (Nat.lt_irrefl _)
  | cons t ts =>
    have hweight := h.2
    rw [rest, Token.listWeight, Token.weight_eq] at hweight
    simp only [Cursor.advance, rest] at hweight ⊢
    omega

/-- A template is lighter than the token it belongs to. -/
theorem Fits.part (h : c.Fits (n + 1)) {part : List Token} (hpart : part ∈ c.kind.parts) :
    (ofTokens part).Fits n := by
  have hended : Token.Ended part :=
    h.1.within (.part .self (List.mem_cons_self : c.here ∈ c.rest) hpart)
  rw [Fits, rest_ofTokens hended.ends.ne_nil]
  refine ⟨hended, ?_⟩
  have hle := Token.listWeight_le_partsWeight hpart
  have hweight := h.2
  rw [rest, Token.listWeight, Token.weight_eq] at hweight
  simp only [kind] at hle
  omega

end Cursor

end FrameCheck
