import FrameCheck.Proofs.Token.Tiling
import Mathlib.Data.Nat.Digits.Defs

/-!
# Integer literals

A literal that starts with a digit goes on over digits and gaps. If neither a point with a digit
behind it nor the suffix of a single follows, it is an integer, and it is read as the number that
its digits spell or, where that is too large, not at all. In every other case it is a float. So the
integers among the tokens of a text, those in its templates too, are spelled where they stand.

* `numeral` : the number that digits spell.
* `scanNumber_integer`, `scanNumber_long`, `scanNumber_tooLarge`, `scanNumber_float` : literals.
* `Token.integers_exact` : all that is said above.
-/

namespace FrameCheck

/-! ## What digits spell -/

def digitValue (c : Char) : Nat := c.toNat - '0'.toNat

/-- The number that digits spell to the base ten, the gaps between them left out. -/
def numeral (cs : List Char) : Nat :=
  Nat.ofDigits 10 ((cs.filter Char.isDigit).map digitValue).reverse

theorem decimalValue_eq_numeral (cs : List Char) : decimalValue cs = numeral cs := by
  rw [numeral, Nat.ofDigits_eq_foldr, List.foldr_reverse, List.foldl_map, List.foldl_filter,
    decimalValue]
  congr 1
  funext n c
  split
  · exact Nat.add_comm _ _
  · rfl

theorem maxInteger_eq : maxInteger = 2 ^ 63 - 1 := by decide

/-- Digits and gaps at the front of a text, from the digit `d` on and as far as they go. -/
structure DigitsFirst (d : Char) (run rest : List Char) : Prop where
  digit : d.isDigit = true
  run : ∀ c ∈ run, isDigitOrGap c = true
  rest : rest.head?.any isDigitOrGap = false

/-- What follows the digits makes a float of them: a point with a digit behind it, or the suffix
of a single. -/
inductive MakesFloat : List Char → Prop
  | point {e : Char} {more : List Char} (he : e.isDigit = true) : MakesFloat ('.' :: e :: more)
  | suffix {c : Char} {more : List Char} (hc : c = 'f' ∨ c = 'F') : MakesFloat (c :: more)

theorem head?_of_not_makesFloat {rest : List Char} (h : ¬MakesFloat rest) :
    rest.head?.any (fun c => c == 'f' || c == 'F') = false := by
  rw [Bool.eq_false_iff]
  intro hc
  obtain ⟨c, more, rfl, hsuffix⟩ := exists_cons_of_any_head hc
  rw [Bool.or_eq_true, beq_iff_eq, beq_iff_eq] at hsuffix
  exact h (.suffix hsuffix)

theorem exists_digitsFirst {d : Char} (hd : d.isDigit = true) (cs : List Char) :
    ∃ run rest, cs = run ++ rest ∧ DigitsFirst d run rest :=
  ⟨cs.takeWhile isDigitOrGap, cs.dropWhile isDigitOrGap, List.takeWhile_append_dropWhile.symm,
    hd, fun _ hc => List.mem_takeWhile_imp hc, head?_dropWhile_any isDigitOrGap cs⟩

/-! ## What is read -/

section

variable {d : Char} {run rest : List Char} (h : DigitsFirst d run rest) (pos : Nat)

include h

theorem scanDigits_of_not_makesFloat (hf : ¬MakesFloat rest) :
    (scanDigits d pos (run ++ rest)).Is (d :: run, none) (pos + byteLength run) rest := by
  refine scanDigits_of_whole pos h.run h.rest ?_
  rintro e more rfl
  exact Bool.eq_false_iff.2 fun he => hf (.point he)

theorem scanNumber_integer (hf : ¬MakesFloat rest) (hl : rest.head? ≠ some 'L')
    (hv : numeral (d :: run) ≤ maxInteger) :
    Reads (scanNumber d pos (run ++ rest)) (.integer (numeral (d :: run)))
      (pos + byteLength run) rest := by
  rw [← decimalValue_eq_numeral] at hv ⊢
  refine scanNumber_of_integer (scanDigits_of_not_makesFloat h pos hf)
    (head?_of_not_makesFloat hf) ?_ hv
  rw [Bool.eq_false_iff]
  intro hany
  obtain ⟨c, more, rfl, hc⟩ := exists_cons_of_any_head hany
  exact hl (congrArg some (eq_of_beq hc))

theorem scanNumber_long {more : List Char} (hrest : rest = 'L' :: more) (hf : ¬MakesFloat rest)
    (hv : numeral (d :: run) ≤ maxInteger) :
    Reads (scanNumber d pos (run ++ rest)) (.long (numeral (d :: run)))
      (pos + byteLength run + 1) more := by
  have hdigits := scanDigits_of_not_makesFloat h pos hf
  rw [← decimalValue_eq_numeral] at hv ⊢
  subst hrest
  exact scanNumber_of_long hdigits rfl hv

theorem scanNumber_tooLarge (hf : ¬MakesFloat rest) (hv : maxInteger < numeral (d :: run)) :
    scanNumber d pos (run ++ rest)
      = .error (.integerTooLarge (String.ofList ((d :: run).filter Char.isDigit))) := by
  rw [← decimalValue_eq_numeral] at hv
  rw [scanNumber_of_whole (scanDigits_of_not_makesFloat h pos hf) (head?_of_not_makesFloat hf),
    if_neg (Nat.not_le_of_lt hv)]

theorem scanNumber_float (hf : MakesFloat rest) : ∃ kind p more,
    Reads (scanNumber d pos (run ++ rest)) kind p more ∧
      ∃ v, kind = .single v ∨ kind = .double v := by
  cases hf with
  | @point e more he =>
    have hfraction : ∀ c ∈ more.takeWhile isDigitOrGap, isDigitOrGap c = true :=
      fun _ hc => List.mem_takeWhile_imp hc
    have hdigits := scanDigits_of_fraction (d := d) pos h.run he hfraction
      (head?_dropWhile_any isDigitOrGap more)
    rw [List.append_assoc, List.cons_append, List.cons_append,
      List.takeWhile_append_dropWhile] at hdigits
    by_cases hs : (more.dropWhile isDigitOrGap).head?.any (fun c => c == 'f' || c == 'F') = true
    · obtain ⟨c, behind, hbehind, hc⟩ := exists_cons_of_any_head hs
      rw [hbehind] at hdigits
      exact ⟨_, _, _, scanNumber_of_single hdigits hc, _, Or.inl rfl⟩
    · exact ⟨_, _, _, scanNumber_of_double hdigits (Bool.eq_false_iff.2 hs), _, Or.inr rfl⟩
  | @suffix c more hc =>
    have hp : ∀ e more', c :: more = '.' :: e :: more' → e.isDigit = false := by
      rintro e more' heq
      obtain rfl := (List.cons.inj heq).1
      rcases hc with hc | hc <;> exact absurd hc (by decide)
    have hdigits := scanDigits_of_whole (d := d) pos h.run h.rest hp
    exact ⟨_, _, _, scanNumber_of_single hdigits (by simpa using hc), _, Or.inl rfl⟩

end

/-! ## Tokens -/

def TokenKind.isInteger : TokenKind → Bool
  | .integer _ | .long _ => true
  | _ => false

/-- The literals of integers, where `rest` stands behind them: digits and gaps, with a suffix if
they are long. The token has the number that they spell, and this is not too large. -/
inductive SpellsInteger : List Char → List Char → TokenKind → Prop
  | integer {d : Char} {run rest : List Char} (h : DigitsFirst d run rest) (hf : ¬MakesFloat rest)
    (hl : rest.head? ≠ some 'L') (hv : numeral (d :: run) ≤ 2 ^ 63 - 1) :
    SpellsInteger (d :: run) rest (.integer (numeral (d :: run)))
  | long {d : Char} {run rest : List Char} (h : DigitsFirst d run ('L' :: rest))
    (hv : numeral (d :: run) ≤ 2 ^ 63 - 1) :
    SpellsInteger (d :: run ++ ['L']) rest (.long (numeral (d :: run)))

/-- An integer that is read is spelled by what it is read from. -/
theorem spellsInteger_of_scanNumber {d : Char} (hd : d.isDigit = true) {pos : Nat}
    {cs : List Char} {kind : TokenKind} {q : Nat} {mid : List Char}
    (h : Reads (scanNumber d pos cs) kind q mid) (hk : kind.isInteger = true) :
    ∃ used, cs = used ++ mid ∧ SpellsInteger (d :: used) mid kind := by
  obtain ⟨run, rest, rfl, hfirst⟩ := exists_digitsFirst hd cs
  by_cases hf : MakesFloat rest
  · obtain ⟨kind', _, _, hread, v, hv⟩ := scanNumber_float hfirst pos hf
    obtain ⟨rfl, -, -⟩ := h.unique hread
    rcases hv with rfl | rfl <;> exact absurd hk Bool.false_ne_true
  by_cases hv : numeral (d :: run) ≤ maxInteger
  · have hv' := maxInteger_eq ▸ hv
    by_cases hl : rest.head? = some 'L'
    · obtain ⟨more, rfl⟩ := List.head?_eq_some_iff.1 hl
      obtain ⟨rfl, -, rfl⟩ := h.unique (scanNumber_long hfirst pos rfl hf hv)
      exact ⟨run ++ ['L'], by simp, .long hfirst hv'⟩
    · obtain ⟨rfl, -, rfl⟩ := h.unique (scanNumber_integer hfirst pos hf hl hv)
      exact ⟨run, rfl, .integer hfirst hf hl hv'⟩
  · obtain ⟨s, hs, -⟩ := h
    rw [scanNumber_tooLarge hfirst pos hf (Nat.lt_of_not_le hv)] at hs
    exact nomatch hs

theorem spellsInteger_of_scanToken {c : Char} {pos : Nat} {cs : List Char} {kind : TokenKind}
    {q : Nat} {mid : List Char} (h : Reads (scanToken c pos cs) kind q mid)
    (hk : kind.isInteger = true) :
    ∃ used, cs = used ++ mid ∧ SpellsInteger (c :: used) mid kind := by
  obtain ⟨hd, hnumber⟩ | rfl | ⟨_, rfl⟩ | ⟨_, rfl⟩ | ⟨word, rfl⟩ | ⟨_, rfl⟩ := scanToken_cases h
  · exact spellsInteger_of_scanNumber hd hnumber hk
  · exact absurd hk Bool.false_ne_true
  · exact absurd hk Bool.false_ne_true
  · exact absurd hk Bool.false_ne_true
  · unfold TokenKind.ofWord at hk
    split at hk <;> exact absurd hk Bool.false_ne_true
  · exact absurd hk Bool.false_ne_true

namespace Token

/-- The text from offset `pos` on is `cs`. If the token is an integer, its literal stands in its
span. -/
def IntegerIn (pos : Nat) (cs : List Char) (t : Token) : Prop :=
  t.kind.isInteger = true → ∃ before literal rest, cs = before ++ (literal ++ rest) ∧
    t.span = ⟨pos + byteLength before, pos + byteLength before + byteLength literal⟩ ∧
    SpellsInteger literal rest t.kind

theorem IntegerIn.of_false {pos : Nat} {cs : List Char} {t : Token}
    (h : t.kind.isInteger = false) : t.IntegerIn pos cs :=
  fun hk => absurd (h.symm.trans hk) Bool.false_ne_true

/-- Anything may stand before. -/
theorem IntegerIn.behind {pos : Nat} {cs : List Char} {t : Token} (front : List Char)
    (h : t.IntegerIn (pos + byteLength front) cs) : t.IntegerIn pos (front ++ cs) := by
  intro hk
  obtain ⟨before, literal, rest, rfl, hspan, hspells⟩ := h hk
  refine ⟨front ++ before, literal, rest, by rw [List.append_assoc], ?_, hspells⟩
  rw [hspan, byteLength_append, Nat.add_assoc pos]

/-- A list of tokens within a list is that list, or it is one within a template. -/
theorem Within.eq_or_exists {ts us : List Token} (h : Within ts us) :
    us = ts ∨ ∃ t ∈ ts, ∃ part ∈ t.kind.parts, Within part us := by
  induction h with
  | self => exact Or.inl rfl
  | part _ ht hpart ih =>
    rcases ih with rfl | ⟨u, hu, front, hfront, h⟩
    · exact Or.inr ⟨_, ht, _, hpart, .self⟩
    · exact Or.inr ⟨u, hu, front, hfront, h.part ht hpart⟩

/-- The property holds of the tokens, and of those of their templates at any depth. -/
def Throughout (P : Token → Prop) (ts : List Token) : Prop := ∀ us, Within ts us → ∀ t ∈ us, P t

namespace Throughout

variable {P Q : Token → Prop} {t : Token} {ts : List Token}

theorem mono (h : Throughout P ts) (hPQ : ∀ t, P t → Q t) : Throughout Q ts :=
  fun us hus u hu => hPQ u (h us hus u hu)

theorem nil : Throughout P [] := by
  intro us hus
  rcases hus.eq_or_exists with rfl | ⟨_, ht, -⟩
  · nofun
  · exact nomatch ht

theorem cons (ht : P t) (hparts : ∀ part ∈ t.kind.parts, Throughout P part)
    (hts : Throughout P ts) : Throughout P (t :: ts) := by
  intro us hus
  rcases hus.eq_or_exists with rfl | ⟨u, hu, part, hpart, h⟩
  · exact List.forall_mem_cons.2 ⟨ht, hts ts .self⟩
  · rcases List.mem_cons.1 hu with rfl | hu
    · exact hparts part hpart us h
    · exact hts us ((Within.self.part hu hpart).trans h)

end Throughout

end Token

mutual

/-- The integers that are read stand in what they are read from. -/
theorem ReadsCode.integersIn {nested : Bool} {depth pos : Nat} {cs : List Char} {ts : List Token}
    {p : Nat} {rest : List Char} : ReadsCode nested depth pos cs ts p rest →
      Token.Throughout (Token.IntegerIn pos cs) ts
  | .done | .close => .cons (.of_false rfl) nofun .nil
  | @ReadsCode.string nested depth pos q p cs mid rest body ts hbody hmore => by
    obtain ⟨front, hfront, hpos⟩ := exists_append_scanOpening (pos + 1) cs
    obtain ⟨inside, -, hinside, hq, -⟩ := hbody.again
    have hparts := hbody.integersIn
    have hbehind := hmore.integersIn
    rw [← body.parts_kind, hpos] at hparts
    rw [hq, hpos, Nat.add_assoc, Nat.add_assoc, ← byteLength_append] at hbehind
    refine .cons (.of_false ?_) (fun part hpart => (hparts part hpart).mono fun t ht => ?_)
      (hbehind.mono fun t ht => ?_)
    · rcases body with ⟨chars, _ | ⟨part, parts⟩⟩ <;> rfl
    · rw [Nat.add_assoc] at ht
      rw [hfront, ← List.cons_append]
      exact ht.behind ('"' :: front)
    · rw [hfront, hinside, ← List.append_assoc, ← List.cons_append]
      exact ht.behind ('"' :: (front ++ inside))
  | @ReadsCode.gap nested depth pos q p c cs mid rest ts r hclose hc hgap hread hmore => by
    have hbehind := hmore.integersIn
    obtain ⟨used, hused, rfl, -⟩ := scanTrivia_gap hgap hread
    rw [hused]
    exact hbehind.mono fun t ht => ht.behind used
  | @ReadsCode.token nested depth pos q p c cs mid rest kind ts hclose hc hgap htoken hmore => by
    have hbehind := hmore.integersIn
    obtain ⟨used, rfl, rfl, -⟩ := (scanToken_lexeme c).again htoken
    refine .cons (fun hk => ?_) ?_ (hbehind.mono fun t ht => ht.behind (c :: used))
    · obtain ⟨used', hused, hspells⟩ := spellsInteger_of_scanToken htoken hk
      obtain rfl := List.append_cancel_right hused
      exact ⟨[], c :: used, mid, rfl, rfl, hspells⟩
    · rw [TokenKind.parts_of_isPlain (isPlain_of_scanToken htoken)]
      nofun

theorem ReadsBody.integersIn {raw : Bool} {pos : Nat} {cs : List Char} {b : StringBody}
    {p : Nat} {rest : List Char} : ReadsBody raw pos cs b p rest →
      ∀ part ∈ b.parts, Token.Throughout (Token.IntegerIn pos cs) part
  | .close _ => nofun
  | @ReadsBody.code raw pos q p cs mid rest ts b hclose hcode hmore => by
    obtain ⟨inside, -, hinside, hq, -⟩ := hcode.again
    have hts := hcode.integersIn
    have hparts := hmore.integersIn
    have hlength : pos + 2 + byteLength inside = pos + byteLength ('$' :: '\x7b' :: inside) := by
      simp only [byteLength_cons, show '$'.utf8Size = 1 from rfl, show '\x7b'.utf8Size = 1 from rfl]
      omega
    rw [hq, hlength] at hparts
    refine List.forall_mem_cons.2 ⟨hts.mono fun t ht => ?_, fun part hpart =>
      (hparts part hpart).mono fun t ht => ?_⟩
    · exact ht.behind ['$', '\x7b']
    · rw [hinside, ← List.cons_append, ← List.cons_append]
      exact ht.behind ('$' :: '\x7b' :: inside)
  | @ReadsBody.escape raw pos p c cs rest b hclose hraw hmore => by
    have hparts := hmore.integersIn
    rw [Nat.add_assoc] at hparts
    exact fun part hpart => (hparts part hpart).mono fun t ht => ht.behind ['\\', c]
  | @ReadsBody.name raw pos q p cs mid rest name b hclose hc hname hmore => by
    obtain ⟨hcs, hq, -⟩ := scanRun_name_again hc hname
    have hparts := hmore.integersIn
    rw [hq, Nat.add_assoc] at hparts
    refine List.forall_mem_cons.2 ⟨?_, fun part hpart =>
      (hparts part hpart).mono fun t ht => ?_⟩
    · have hword := isPlain_ofWord (String.ofList name)
      refine .cons (.of_false ?_) ?_ (.cons (.of_false rfl) nofun .nil)
      · show (TokenKind.ofWord (String.ofList name)).isInteger = false
        unfold TokenKind.ofWord
        split <;> rfl
      · show ∀ part ∈ (TokenKind.ofWord (String.ofList name)).parts, _
        rw [TokenKind.parts_of_isPlain hword]
        nofun
    · rw [hcs, ← List.cons_append]
      exact ht.behind ('$' :: name)
  | @ReadsBody.char raw pos p c cs rest b hclose hc hmore => fun part hpart =>
    (hmore.integersIn part hpart).mono fun t ht => ht.behind [c]

end

namespace Token

theorem integersIn_of_scan {text : String} {ts : List Token} (h : scan text = .ok ts) :
    Throughout (IntegerIn 0 text.toList) ts := by
  obtain ⟨s, hs, rfl⟩ := exists_ok_of_map h
  exact (readsCode_of_ok hs).integersIn

/-- Digits without a fraction and a suffix for singles are read if and only if the number that they
spell is not too large, up to where they end or behind a suffix for long integers, and as this
number. All others are read as floats. So each integer in a text, at any depth of templates, has
the number that is spelled where it stands. -/
theorem integers_exact {d : Char} {run rest : List Char} (h : DigitsFirst d run rest) (pos : Nat) :
    (¬MakesFloat rest →
      ((∃ s, scanNumber d pos (run ++ rest) = .ok s) ↔ numeral (d :: run) ≤ 2 ^ 63 - 1) ∧
      ∀ s, scanNumber d pos (run ++ rest) = .ok s →
        (rest.head? ≠ some 'L' →
          s.Is (.integer (numeral (d :: run))) (pos + byteLength run) rest) ∧
        ∀ more, rest = 'L' :: more →
          s.Is (.long (numeral (d :: run))) (pos + byteLength run + 1) more) ∧
    (MakesFloat rest → ∃ s v, scanNumber d pos (run ++ rest) = .ok s ∧
      (s.value = .single v ∨ s.value = .double v)) ∧
    ∀ text ts, scan text = .ok ts → Throughout (IntegerIn 0 text.toList) ts := by
  rw [← maxInteger_eq]
  refine ⟨fun hf => ?_, fun hf => ?_, fun text ts => integersIn_of_scan⟩
  · have hfits : ∀ s, scanNumber d pos (run ++ rest) = .ok s →
        numeral (d :: run) ≤ maxInteger := by
      intro s hs
      by_contra hv
      rw [scanNumber_tooLarge h pos hf (Nat.lt_of_not_le hv)] at hs
      exact nomatch hs
    refine ⟨⟨fun ⟨s, hs⟩ => hfits s hs, fun hv => ?_⟩, fun s hs => ⟨fun hl => ?_, ?_⟩⟩
    · by_cases hl : rest.head? = some 'L'
      · obtain ⟨more, hmore⟩ := List.head?_eq_some_iff.1 hl
        exact (scanNumber_long h pos hmore hf hv).imp fun s hs => hs.1
      · exact (scanNumber_integer h pos hf hl hv).imp fun s hs => hs.1
    · exact (scanNumber_integer h pos hf hl (hfits s hs)).of_ok hs
    · intro more hmore
      exact (scanNumber_long h pos hmore hf (hfits s hs)).of_ok hs
  · obtain ⟨kind, p, more, ⟨s, hs, rfl, -, -⟩, v, hv⟩ := scanNumber_float h pos hf
    exact ⟨s, v, hs, hv⟩

/-- The digits behind the first of the largest integer. -/
def limitDigits : List Char := "_223_372_036_854_775_807".toList

/-- The largest integer, and others in a template: one with zeros in front, and one before a point
that no digit follows. -/
def limitText : String := "9_223_372_036_854_775_807L + \"$\x7b 007 * 1_000.x \x7d\""

theorem integers_exact_limitText :
    (DigitsFirst '9' limitDigits ['L'] ∧ ¬MakesFloat ['L'] ∧
      ∃ s, scanNumber '9' 1 (limitDigits ++ ['L']) = .ok s ∧ s.Is (.long (2 ^ 63 - 1)) 26 []) ∧
    (DigitsFirst '9' limitDigits ['.', '5'] ∧ MakesFloat ['.', '5'] ∧
      ∃ s v, scanNumber '9' 1 (limitDigits ++ ['.', '5']) = .ok s ∧
        (s.value = .single v ∨ s.value = .double v)) ∧
    ∃ ts, scan limitText = .ok ts ∧
      (∃ t ∈ ts, ∃ part ∈ t.kind.parts, (part.filter fun t => t.kind.isInteger).length = 2) ∧
      Throughout (IntegerIn 0 limitText.toList) ts := by
  have hrun : limitDigits.all isDigitOrGap = true := by decide +kernel
  have hlong : DigitsFirst '9' limitDigits ['L'] :=
    ⟨by decide, List.all_eq_true.1 hrun, by decide +kernel⟩
  have hfloat : DigitsFirst '9' limitDigits ['.', '5'] :=
    ⟨by decide, List.all_eq_true.1 hrun, by decide +kernel⟩
  have hsuffix : ¬MakesFloat ['L'] := by
    intro hf
    cases hf with
    | suffix hc => exact absurd hc (by decide)
  have hvalue : numeral ('9' :: limitDigits) = 2 ^ 63 - 1 := by decide +kernel
  have hlength : 1 + byteLength limitDigits + 1 = 26 := by decide +kernel
  refine ⟨⟨hlong, hsuffix, ?_⟩, ⟨hfloat, .point (by decide), ?_⟩, ?_⟩
  · obtain ⟨hread, hexact⟩ := (integers_exact hlong 1).1 hsuffix
    obtain ⟨s, hs⟩ := hread.2 (Nat.le_of_eq hvalue)
    have his := (hexact s hs).2 [] rfl
    rw [hvalue, hlength] at his
    exact ⟨s, hs, his⟩
  · exact (integers_exact hfloat 1).2.1 (.point (by decide))
  · obtain ⟨ts, hts, hparts⟩ : ∃ ts, scan limitText = .ok ts ∧
        (ts.any fun t => t.kind.parts.any fun part =>
          (part.filter fun t => t.kind.isInteger).length == 2) = true := by
      refine exists_scan rfl ?_
      decide +kernel
    obtain ⟨t, ht, hparts⟩ := List.any_eq_true.1 hparts
    obtain ⟨part, hpart, htwo⟩ := List.any_eq_true.1 hparts
    exact ⟨ts, hts, ⟨t, ht, part, hpart, eq_of_beq htwo⟩,
      (integers_exact hlong 1).2.2 limitText ts hts⟩

end Token

end FrameCheck
