import FrameCheck.Proofs.Token.Code

/-!
# Literals of texts

A text is written as a string literal in two ways: in quotes, with an escape for each character
that means something there, or between three quotes as it is, provided that nothing in it closes
the string or opens a template. Either way one token comes of it, and that holds the text.

* `quotedLiteral`, `rawLiteral` : what is written.
* `ReadsBody.quoted`, `ReadsBody.raw` : the inside is read as the text.
* `Token.scan_literal` : the tokens of a literal.
-/

namespace FrameCheck

/-! ## What is written -/

/-- What stands for a character in quotes. -/
def literalChar : Char → List Char
  | '\\' => ['\\', '\\']
  | '"' => ['\\', '"']
  | '$' => ['\\', '$']
  | '\n' => ['\\', 'n']
  | '\r' => ['\\', 'r']
  | '\t' => ['\\', 't']
  | c => [c]

/-- The text in quotes, with escapes. -/
def quotedLiteral (text : List Char) : List Char := '"' :: (text.flatMap literalChar ++ ['"'])

/-- The text between three quotes. -/
def rawLiteral (text : List Char) : List Char :=
  '"' :: '"' :: '"' :: (text ++ ['"', '"', '"'])

/-- The text may stand between three quotes: it neither closes the string, also together with the
quotes behind it, nor opens a template. -/
structure IsRaw (text : List Char) : Prop where
  unclosed : ¬['"', '"', '"'] <:+: text
  last : text.getLast? ≠ some '"'
  plain : ∀ c, ['$', c] <:+: text → c ≠ '\x7b' ∧ Text.isAlphabetic c = false ∧ c ≠ '_'

/-! ## In quotes -/

/-- A character is written with a backslash before what stands for it, or it means nothing in a
string and is written as it is. -/
theorem literalChar_cases (c : Char) :
    (∃ e, literalChar c = ['\\', e] ∧ unescape e = c) ∨
      (literalChar c = [c] ∧ c ≠ '\\' ∧ c ≠ '"' ∧ c ≠ '$' ∧ c ≠ '\n') := by
  unfold literalChar
  split
  · exact Or.inl ⟨_, rfl, rfl⟩
  · exact Or.inl ⟨_, rfl, rfl⟩
  · exact Or.inl ⟨_, rfl, rfl⟩
  · exact Or.inl ⟨_, rfl, rfl⟩
  · exact Or.inl ⟨_, rfl, rfl⟩
  · exact Or.inl ⟨_, rfl, rfl⟩
  · next hslash hquote hdollar hline _ _ => exact Or.inr ⟨rfl, hslash, hquote, hdollar, hline⟩

/-- A string is closed by quotes only. -/
theorem scanClosing_of_head {cs : List Char} (h : cs.head? ≠ some '"') (raw : Bool) (pos : Nat) :
    scanClosing raw pos cs = none := by
  unfold scanClosing
  split
  · exact absurd rfl h
  · exact absurd rfl h
  · rfl

theorem ReadsBody.quoted (text rest : List Char) (pos : Nat) :
    ReadsBody false pos (text.flatMap literalChar ++ '"' :: rest) ⟨text, []⟩
      (pos + byteLength (text.flatMap literalChar) + 1) rest := by
  induction text generalizing pos with
  | nil =>
    have hclose : scanClosing false pos ('"' :: rest) = some ⟨(), pos + 1, rest, by simp⟩ := rfl
    exact .close hclose
  | cons c text ih =>
    rw [List.flatMap_cons, List.append_assoc]
    rcases literalChar_cases c with ⟨e, hc, he⟩ | ⟨hc, hslash, hquote, hdollar, hline⟩
    · have hread := ReadsBody.escape (scanClosing_of_head (by simp) false pos) (by simp)
        (ih (pos + 1 + e.utf8Size))
      rw [hc, byteLength_append, ← Nat.add_assoc]
      rw [he, Nat.add_assoc pos] at hread
      exact hread
    · rw [hc, byteLength_append, ← Nat.add_assoc]
      refine .char (scanClosing_of_head (by simpa using hquote) false pos) ⟨?_, ?_, ?_, ?_⟩ (ih _)
      · exact fun h => hdollar h.1
      · exact fun h => hslash h.1
      · exact fun h => hline h.1
      · exact fun h => hdollar h.1

/-- Without two quotes behind the first a string is not raw. -/
theorem scanOpening_of_not_quotes {cs : List Char} (h : ¬['"', '"'] <+: cs) (pos : Nat) :
    (scanOpening pos cs).Is false pos cs := by
  unfold scanOpening
  split
  · next inside => exact absurd (List.prefix_append ['"', '"'] inside) h
  · exact ⟨rfl, rfl, rfl⟩

/-- What is written of a text and the quote behind it do not start with two quotes. -/
theorem not_quotes_quoted (text : List Char) {rest : List Char} (h : rest.head? ≠ some '"') :
    ¬['"', '"'] <+: text.flatMap literalChar ++ '"' :: rest := by
  rintro ⟨inside, hsplit⟩
  cases text with
  | nil => exact h (by rw [← (List.cons.inj hsplit).2]; rfl)
  | cons c text =>
    rw [List.flatMap_cons, List.append_assoc] at hsplit
    rcases literalChar_cases c with ⟨e, hc, -⟩ | ⟨hc, -, hquote, -⟩
    · rw [hc] at hsplit
      exact absurd (List.cons.inj hsplit).1 (by decide)
    · rw [hc] at hsplit
      exact hquote (List.cons.inj hsplit).1.symm

/-! ## Between three quotes -/

/-- A raw string is closed by three quotes only. -/
theorem scanClosing_of_not_quotes {cs : List Char} (h : ¬['"', '"', '"'] <+: cs) (pos : Nat) :
    scanClosing true pos cs = none := by
  generalize hraw : true = raw
  unfold scanClosing
  split
  · next more => exact absurd (List.prefix_append ['"', '"', '"'] more) h
  · exact absurd hraw.symm Bool.false_ne_true
  · rfl

namespace IsRaw

variable {c : Char} {text : List Char}

theorem of_cons (h : IsRaw (c :: text)) : IsRaw text where
  unclosed hquotes := h.unclosed (hquotes.trans (List.suffix_cons c text).isInfix)
  last hlast := h.last (by rw [List.getLast?_cons, hlast]; rfl)
  plain d hd := h.plain d (hd.trans (List.suffix_cons c text).isInfix)

/-- Before the end of the text no three quotes come. -/
theorem not_quotes (h : IsRaw (c :: text)) (rest : List Char) :
    ¬['"', '"', '"'] <+: c :: (text ++ '"' :: '"' :: '"' :: rest) := by
  rintro ⟨more, hsplit⟩
  simp only [List.cons_append, List.nil_append, List.cons.injEq] at hsplit
  obtain ⟨rfl, hsplit⟩ := hsplit
  rcases text with _ | ⟨d, text⟩
  · exact h.last rfl
  simp only [List.cons_append, List.cons.injEq] at hsplit
  obtain ⟨rfl, hsplit⟩ := hsplit
  rcases text with _ | ⟨e, text⟩
  · exact h.last rfl
  simp only [List.cons_append, List.cons.injEq] at hsplit
  obtain ⟨rfl, -⟩ := hsplit
  exact h.unclosed (List.prefix_append ['"', '"', '"'] text).isInfix

/-- Each character stands for itself. -/
theorem isPlain (h : IsRaw (c :: text)) (rest : List Char) :
    IsPlain true c (text ++ '"' :: rest) := by
  have hnext (d : Char) (hc : c = '$') (hd : (text ++ '"' :: rest).head? = some d) :
      d ≠ '\x7b' ∧ startsName d = false := by
    rcases text with _ | ⟨e, text⟩
    · obtain rfl := Option.some.inj hd
      exact ⟨by decide, by decide +kernel⟩
    · obtain rfl := Option.some.inj hd
      obtain ⟨hbrace, hletter, hline⟩ :=
        h.plain e (hc ▸ (List.prefix_append [c, e] text).isInfix)
      refine ⟨hbrace, ?_⟩
      rw [startsName, hletter, Bool.false_or, beq_eq_false_iff_ne]
      exact hline
  refine ⟨fun ⟨hc, hd⟩ => (hnext _ hc hd).1 rfl, fun ⟨_, h⟩ => h rfl, fun ⟨_, h⟩ => h rfl, ?_⟩
  rintro ⟨hc, hd⟩
  obtain ⟨d, more, hmore, hname⟩ := exists_cons_of_any_head hd
  rw [(hnext d hc (by rw [hmore]; rfl)).2] at hname
  exact Bool.false_ne_true hname

end IsRaw

theorem ReadsBody.raw {text : List Char} (h : IsRaw text) (rest : List Char) (pos : Nat) :
    ReadsBody true pos (text ++ '"' :: '"' :: '"' :: rest) ⟨text, []⟩
      (pos + byteLength text + 3) rest := by
  induction text generalizing pos with
  | nil =>
    have hclose : scanClosing true pos ('"' :: '"' :: '"' :: rest)
        = some ⟨(), pos + 3, rest, by simp; omega⟩ := rfl
    exact .close hclose
  | cons c text ih =>
    rw [byteLength_cons, ← Nat.add_assoc]
    exact .char (scanClosing_of_not_quotes (h.not_quotes rest) pos) (h.isPlain _) (ih h.of_cons _)

/-! ## Tokens -/

/-- A literal in quotes is one token, if no quote follows. -/
theorem ReadsCode.of_quotedLiteral (text : List Char) {rest : List Char} (h : rest.head? ≠ some '"')
    {nested : Bool} {depth pos p : Nat} {ts : List Token} {left : List Char}
    (hmore : ReadsCode nested depth (pos + byteLength (quotedLiteral text)) rest ts p left) :
    ReadsCode nested depth pos (quotedLiteral text ++ rest)
      (⟨.text (String.ofList text), ⟨pos, pos + byteLength (quotedLiteral text)⟩⟩ :: ts) p left := by
  have hlength : pos + byteLength (quotedLiteral text)
      = pos + 1 + byteLength (text.flatMap literalChar) + 1 := by
    simp only [quotedLiteral, byteLength_cons, byteLength_append, byteLength_nil,
      show '"'.utf8Size = 1 from rfl]
    omega
  obtain ⟨hvalue, hpos, hrest⟩ := scanOpening_of_not_quotes (not_quotes_quoted text h) (pos + 1)
  have hbody := ReadsBody.quoted text rest (pos + 1)
  rw [← hlength] at hbody
  have hkind : TokenKind.text (String.ofList text) = StringBody.kind ⟨text, []⟩ := rfl
  rw [hkind, show quotedLiteral text ++ rest
      = '"' :: (text.flatMap literalChar ++ '"' :: rest) by simp [quotedLiteral]]
  refine .string ?_ hmore
  rw [hvalue, hpos, hrest]
  exact hbody

/-- A literal between three quotes is one token. -/
theorem ReadsCode.of_rawLiteral {text : List Char} (h : IsRaw text) {rest : List Char}
    {nested : Bool} {depth pos p : Nat} {ts : List Token} {left : List Char}
    (hmore : ReadsCode nested depth (pos + byteLength (rawLiteral text)) rest ts p left) :
    ReadsCode nested depth pos (rawLiteral text ++ rest)
      (⟨.text (String.ofList text), ⟨pos, pos + byteLength (rawLiteral text)⟩⟩ :: ts) p left := by
  have hlength : pos + byteLength (rawLiteral text)
      = pos + 1 + 2 + byteLength text + 3 := by
    simp only [rawLiteral, byteLength_cons, byteLength_append, byteLength_nil,
      show '"'.utf8Size = 1 from rfl]
    omega
  have hbody := ReadsBody.raw h rest (pos + 1 + 2)
  rw [← hlength] at hbody
  have hkind : TokenKind.text (String.ofList text) = StringBody.kind ⟨text, []⟩ := rfl
  rw [hkind, show rawLiteral text ++ rest
      = '"' :: '"' :: '"' :: (text ++ '"' :: '"' :: '"' :: rest) by simp [rawLiteral]]
  refine .string ?_ hmore
  exact hbody

namespace Token

/-- The literals of a text are one token each, which holds the text: in quotes for every text, and
between three quotes for each that may stand there. -/
theorem scan_literal (text : String) :
    (∃ stop, scan (String.ofList (quotedLiteral text.toList))
        = .ok [⟨.text text, ⟨0, stop⟩⟩, ⟨.eof, ⟨stop, stop⟩⟩]) ∧
    (IsRaw text.toList → ∃ stop, scan (String.ofList (rawLiteral text.toList))
        = .ok [⟨.text text, ⟨0, stop⟩⟩, ⟨.eof, ⟨stop, stop⟩⟩]) := by
  constructor
  · have hread := @ReadsCode.of_quotedLiteral text.toList [] nofun false 0 0 _ _ _ .done
    rw [List.append_nil, String.ofList_toList] at hread
    exact ⟨_, scan_eq_ok_iff.2 ⟨_, _, hread⟩⟩
  · intro h
    have hread := @ReadsCode.of_rawLiteral _ h [] false 0 0 _ _ _ .done
    rw [List.append_nil, String.ofList_toList] at hread
    exact ⟨_, scan_eq_ok_iff.2 ⟨_, _, hread⟩⟩

/-- A text with quotes at its start and dollars, one of them at its end. -/
def priceText : String := "\"\"x\"\" is $1 or \\ $"

/-- It may stand between three quotes, and both its literals are read as one token. -/
theorem scan_literal_priceText : IsRaw priceText.toList ∧
    (∃ stop, scan (String.ofList (quotedLiteral priceText.toList))
      = .ok [⟨.text priceText, ⟨0, stop⟩⟩, ⟨.eof, ⟨stop, stop⟩⟩]) ∧
    ∃ stop, scan (String.ofList (rawLiteral priceText.toList))
      = .ok [⟨.text priceText, ⟨0, stop⟩⟩, ⟨.eof, ⟨stop, stop⟩⟩] := by
  have hraw : IsRaw priceText.toList := by
    refine ⟨by decide +kernel, by decide +kernel, fun c hc => ?_⟩
    have hall : (priceText.toList.all fun c => !decide (['$', c] <:+: priceText.toList) ||
        c != '\x7b' && !Text.isAlphabetic c && c != '_') = true := by decide +kernel
    simpa [hc, and_assoc] using List.all_eq_true.1 hall c (hc.subset (by simp))
  exact ⟨hraw, (scan_literal priceText).1, (scan_literal priceText).2 hraw⟩

end Token

end FrameCheck
