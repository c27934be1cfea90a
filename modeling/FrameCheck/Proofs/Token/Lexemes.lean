import FrameCheck.Token.Scan
import Mathlib.Data.List.TakeWhile

/-!
# Lexemes

A scanner reads the longest lexeme at a place, so what it reads depends on a few of the
characters behind. A lexeme is read again at each other offset, and wherever what stands
behind is `Alike` : the same up to a place where nothing, a blank or a line break comes.

* `Lexeme` : what a scanner reads is read again.
* `scanToken_lexeme` : tokens without strings.
* `scanTrivia_again` : blanks and comments.
-/

namespace FrameCheck

theorem exists_ok_of_map {ε α β : Type} {r : Except ε α} {f : α → β} {b : β}
    (h : r.map f = .ok b) : ∃ a, r = .ok a ∧ f a = b := by
  cases r with
  | error e => exact nomatch h
  | ok a => exact ⟨a, rfl, Except.ok.inj h⟩

theorem exists_ok_of_bind {ε α β : Type} {r : Except ε α} {f : α → Except ε β} {b : β}
    (h : (r >>= f) = .ok b) : ∃ a, r = .ok a ∧ f a = .ok b := by
  cases r with
  | error e => exact nomatch h
  | ok a => exact ⟨a, rfl, h⟩

/-! ## Texts that are alike -/

/-- Nothing, a blank or a line break comes next; so no lexeme goes on. -/
def Parted (ahead : List Char) : Prop := ∀ c, ahead.head? = some c → c = ' ' ∨ c = '\n'

/-- Two texts are the same up to a place where both are parted. -/
inductive Alike : List Char → List Char → Prop
  | parted {a b : List Char} (ha : Parted a) (hb : Parted b) : Alike a b
  | cons {a b : List Char} (c : Char) (h : Alike a b) : Alike (c :: a) (c :: b)

namespace Alike

theorem append (used : List Char) {a b : List Char} (h : Alike a b) :
    Alike (used ++ a) (used ++ b) := by
  induction used with
  | nil => exact h
  | cons c used ih => exact ih.cons c

theorem refl (a : List Char) : Alike a a := by
  have h : Alike [] [] := .parted nofun nofun
  simpa using h.append a

/-- A next character that is neither a blank nor a line break is the same, and what stands
behind it is alike. -/
theorem uncons {c : Char} {a b : List Char} (h : Alike (c :: a) b) (hs : c ≠ ' ')
    (hn : c ≠ '\n') : ∃ b', b = c :: b' ∧ Alike a b' := by
  cases h with
  | parted ha hb =>
    rcases ha c rfl with rfl | rfl
    · exact absurd rfl hs
    · exact absurd rfl hn
  | cons _ h => exact ⟨_, rfl, h⟩

theorem symm {a b : List Char} (h : Alike a b) : Alike b a := by
  induction h with
  | parted ha hb => exact .parted hb ha
  | cons c _ ih => exact ih.cons c

end Alike

/-- Blanks, the line break and the slash; no lexeme of more than a slash goes on with one of them. -/
def haltingChars : List Char := [' ', '\t', '\r', '\n', '/']

/-- Nothing comes next, or a character with which no lexeme goes on. -/
def Halted (ahead : List Char) : Prop := ∀ c, ahead.head? = some c → c ∈ haltingChars

/-- The second text is the first up to a place where it is halted. -/
inductive UpTo : List Char → List Char → Prop
  | halted {a b : List Char} (hb : Halted b) : UpTo a b
  | cons {a b : List Char} (c : Char) (h : UpTo a b) : UpTo (c :: a) (c :: b)

theorem Alike.upTo {a b : List Char} (h : Alike a b) : UpTo a b := by
  induction h with
  | parted _ hb => exact .halted fun c hc => by rcases hb c hc with rfl | rfl <;> decide
  | cons c _ ih => exact ih.cons c

namespace UpTo

theorem append (used : List Char) {a b : List Char} (h : UpTo a b) :
    UpTo (used ++ a) (used ++ b) := by
  induction used with
  | nil => exact h
  | cons c used ih => exact ih.cons c

theorem refl (a : List Char) : UpTo a a := (Alike.refl a).upTo

/-- A test that the next character of the first text fails is failed by that of the second, if no
character that halts passes it. -/
theorem any_head {a b : List Char} (h : UpTo a b) {test : Char → Bool}
    (hs : haltingChars.any test = false) (ha : a.head?.any test = false) :
    b.head?.any test = false := by
  cases h with
  | halted hb =>
    cases hc : b.head? with
    | none => rfl
    | some c => exact Bool.eq_false_iff.2 (List.any_eq_false.1 hs c (hb c hc))
  | cons c h => exact ha

/-- A next character of the second text that does not halt is that of the first. -/
theorem uncons {c : Char} {a b : List Char} (h : UpTo a (c :: b)) (hs : c ∉ haltingChars) :
    ∃ a', a = c :: a' ∧ UpTo a' b := by
  cases h with
  | halted hb => exact absurd (hb c rfl) hs
  | cons _ h => exact ⟨_, rfl, h⟩

end UpTo

/-! ## Lexemes -/

/-- What was read is `a`, and `rest` is left from offset `pos` on. -/
structure Scanned.Is {α : Type} {cs : List Char} (s : Scanned α cs) (a : α) (pos : Nat)
    (rest : List Char) : Prop where
  value : s.value = a
  pos : s.pos = pos
  rest : s.rest = rest

/-- The scanner reads `a`, and leaves `rest` from offset `pos` on. -/
def Reads {α : Type} {cs : List Char} (r : Except ScanError (Scanned α cs)) (a : α) (pos : Nat)
    (rest : List Char) : Prop :=
  ∃ s, r = .ok s ∧ s.Is a pos rest

section

variable {α β : Type} {cs ds : List Char} {r : Except ScanError (Scanned α cs)} {a : α}
  {pos : Nat} {rest : List Char}

/-- What a scanner reads is known once. -/
theorem Reads.of_ok {s : Scanned α cs} (h : Reads r a pos rest) (hs : r = .ok s) :
    s.Is a pos rest := by
  obtain ⟨s', hs', h⟩ := h
  rw [hs] at hs'
  exact Except.ok.inj hs' ▸ h

theorem Reads.unique {b : α} {pos' : Nat} {rest' : List Char} (h : Reads r a pos rest)
    (h' : Reads r b pos' rest') : a = b ∧ pos = pos' ∧ rest = rest' := by
  obtain ⟨s, hs, rfl, rfl, rfl⟩ := h
  obtain ⟨rfl, rfl, rfl⟩ := h'.of_ok hs
  exact ⟨rfl, rfl, rfl⟩

theorem reads_of_ok {s : Scanned α cs} (h : r = .ok s) : Reads r s.value s.pos s.rest :=
  ⟨s, h, rfl, rfl, rfl⟩

/-- Only what stands before is added. -/
theorem reads_widen (hle : cs.length ≤ ds.length) :
    Reads (r.map fun s => s.widen hle) a pos rest ↔ Reads r a pos rest := by
  constructor
  · rintro ⟨s, hs, h⟩
    obtain ⟨s, rfl, rfl⟩ := exists_ok_of_map hs
    exact ⟨s, rfl, h.value, h.pos, h.rest⟩
  · rintro ⟨s, rfl, h⟩
    exact ⟨_, rfl, h.value, h.pos, h.rest⟩

end

/-- What was read, behind `lead`, is read again at each offset and where the text behind is
the same up to a place where it is halted. -/
def ReadAgain {α : Type} {cs : List Char} (lead : List Char)
    (scan : Nat → (cs : List Char) → Except ScanError (Scanned α cs)) (pos : Nat)
    (s : Scanned α cs) : Prop :=
  ∃ used, cs = used ++ s.rest ∧ s.pos = pos + byteLength (lead ++ used) ∧
    ∀ pos' ahead, UpTo s.rest ahead →
      Reads (scan pos' (used ++ ahead)) s.value (pos' + byteLength (lead ++ used)) ahead

/-- What the scanner reads is read again. -/
def Lexeme {α : Type} (lead : List Char)
    (scan : Nat → (cs : List Char) → Except ScanError (Scanned α cs)) : Prop :=
  ∀ ⦃pos : Nat⦄ ⦃cs : List Char⦄ ⦃s : Scanned α cs⦄, scan pos cs = .ok s →
    ReadAgain lead scan pos s

theorem Lexeme.again_upTo {α : Type} {lead : List Char}
    {scan : Nat → (cs : List Char) → Except ScanError (Scanned α cs)} (h : Lexeme lead scan)
    {pos : Nat} {cs : List Char} {a : α} {q : Nat} {rest : List Char}
    (hr : Reads (scan pos cs) a q rest) :
    ∃ used, cs = used ++ rest ∧ q = pos + byteLength (lead ++ used) ∧
      ∀ pos' ahead, UpTo rest ahead →
        Reads (scan pos' (used ++ ahead)) a (pos' + byteLength (lead ++ used)) ahead := by
  obtain ⟨s, hs, rfl, rfl, rfl⟩ := hr
  exact h hs

theorem Lexeme.again {α : Type} {lead : List Char}
    {scan : Nat → (cs : List Char) → Except ScanError (Scanned α cs)} (h : Lexeme lead scan)
    {pos : Nat} {cs : List Char} {a : α} {q : Nat} {rest : List Char}
    (hr : Reads (scan pos cs) a q rest) :
    ∃ used, cs = used ++ rest ∧ q = pos + byteLength (lead ++ used) ∧
      ∀ pos' ahead, Alike rest ahead →
        Reads (scan pos' (used ++ ahead)) a (pos' + byteLength (lead ++ used)) ahead := by
  obtain ⟨used, hcs, hq, hagain⟩ := h.again_upTo hr
  exact ⟨used, hcs, hq, fun pos' ahead ha => hagain pos' ahead ha.upTo⟩

/-! ## Runs -/

theorem head?_dropWhile_any (inClass : Char → Bool) (cs : List Char) :
    (cs.dropWhile inClass).head?.any inClass = false := by
  have h := List.head?_dropWhile_not inClass cs
  cases hc : (cs.dropWhile inClass).head? with
  | none => rfl
  | some c =>
    rw [hc] at h
    simpa using h

/-- A run that does not go on is read to its end. -/
theorem takeWhile_append {inClass : Char → Bool} {run ahead : List Char}
    (hr : ∀ c ∈ run, inClass c = true) (hs : ahead.head?.any inClass = false) :
    (run ++ ahead).takeWhile inClass = run ∧ (run ++ ahead).dropWhile inClass = ahead := by
  rw [List.takeWhile_append_of_pos hr, List.dropWhile_append_of_pos hr]
  cases ahead with
  | nil => simp
  | cons c ahead =>
    have hc : inClass c = false := hs
    simp [hc]

theorem scanRun_append {inClass : Char → Bool} {run ahead : List Char} (pos : Nat)
    (hr : ∀ c ∈ run, inClass c = true) (hs : ahead.head?.any inClass = false) :
    (scanRun inClass pos (run ++ ahead)).Is run (pos + byteLength run) ahead := by
  obtain ⟨ht, hd⟩ := takeWhile_append hr hs
  exact ⟨ht, by rw [scanRun, ht], hd⟩

theorem scanRun_lexeme {inClass : Char → Bool} (hs : haltingChars.any inClass = false) :
    Lexeme [] fun pos cs => .ok (scanRun inClass pos cs) := by
  intro pos cs s h
  obtain rfl := Except.ok.inj h
  refine ⟨cs.takeWhile inClass, List.takeWhile_append_dropWhile.symm, rfl, fun pos' ahead ha => ?_⟩
  exact ⟨_, rfl, scanRun_append pos' (fun c hc => List.mem_takeWhile_imp hc)
    (ha.any_head hs (head?_dropWhile_any inClass cs))⟩

/-! ## Numbers -/

namespace Scanned

variable {α : Type} {cs : List Char} {s : Scanned α cs} {a : α} {pos : Nat} {rest : List Char}
  {accept : Char → Bool}

theorem Is.eat_accept {c : Char} (h : s.Is a pos (c :: rest)) (hc : accept c = true) :
    (s.eat accept).Is (a, true) (pos + c.utf8Size) rest := by
  rcases s with ⟨value, p, r, hle⟩
  obtain ⟨rfl, rfl, rfl⟩ := h
  simp only [eat, hc, if_true]
  exact ⟨rfl, rfl, rfl⟩

theorem Is.eat_reject (h : s.Is a pos rest) (hc : rest.head?.any accept = false) :
    (s.eat accept).Is (a, false) pos rest := by
  rcases s with ⟨value, p, r, hle⟩
  obtain ⟨rfl, rfl, rfl⟩ := h
  cases r with
  | nil => exact ⟨rfl, rfl, rfl⟩
  | cons c r =>
    have hc : accept c = false := hc
    simp only [eat, hc, Bool.false_eq_true, if_false]
    exact ⟨rfl, rfl, rfl⟩

theorem Is.map {β : Type} {f : α → β} (h : s.Is a pos rest) : (s.map f).Is (f a) pos rest :=
  ⟨congrArg f h.value, h.pos, h.rest⟩

end Scanned

theorem isDigitOrGap_of_isDigit {c : Char} (h : c.isDigit = true) : isDigitOrGap c = true := by
  unfold isDigitOrGap
  rw [h, Bool.true_or]

/-- Digits, and behind a point more digits. -/
theorem scanDigits_of_fraction {d e : Char} {whole fraction ahead : List Char} (pos : Nat)
    (hw : ∀ c ∈ whole, isDigitOrGap c = true) (he : e.isDigit = true)
    (hf : ∀ c ∈ fraction, isDigitOrGap c = true) (ha : ahead.head?.any isDigitOrGap = false) :
    (scanDigits d pos (whole ++ '.' :: e :: fraction ++ ahead)).Is
      (d :: whole, some (e :: fraction))
      (pos + byteLength (whole ++ '.' :: e :: fraction)) ahead := by
  rw [List.append_assoc]
  have hnumber : ((scanRun isDigitOrGap pos (whole ++ ('.' :: e :: fraction ++ ahead))).map
      (d :: ·)).Is (d :: whole) (pos + byteLength whole) ('.' :: e :: (fraction ++ ahead)) :=
    (scanRun_append pos hw rfl).map
  unfold scanDigits
  extract_lets number
  change number.Is _ _ _ at hnumber
  split
  · next e' more h =>
    obtain ⟨rfl, rfl⟩ : e' = e ∧ more = fraction ++ ahead := by
      simpa using h.symm.trans hnumber.rest
    have hfraction : (scanRun isDigitOrGap (number.pos + 1) (e' :: fraction ++ ahead)).Is
        (e' :: fraction) _ ahead := scanRun_append (number.pos + 1)
      (fun c hc => (List.mem_cons.1 hc).elim (fun h => h ▸ isDigitOrGap_of_isDigit he) (hf c)) ha
    rw [if_pos he]
    refine ⟨?_, ?_, hfraction.rest⟩
    · exact Prod.ext hnumber.value (congrArg some hfraction.value)
    · refine hfraction.pos.trans ?_
      rw [hnumber.pos]
      simp only [byteLength_append, byteLength_cons, show '.'.utf8Size = 1 from rfl]
      omega
  · next h => exact absurd hnumber.rest (h e (fraction ++ ahead))

/-- Digits without a fraction behind. -/
theorem scanDigits_of_whole {d : Char} {whole ahead : List Char} (pos : Nat)
    (hw : ∀ c ∈ whole, isDigitOrGap c = true) (ha : ahead.head?.any isDigitOrGap = false)
    (hp : ∀ e more, ahead = '.' :: e :: more → e.isDigit = false) :
    (scanDigits d pos (whole ++ ahead)).Is (d :: whole, none) (pos + byteLength whole) ahead := by
  have hnumber : ((scanRun isDigitOrGap pos (whole ++ ahead)).map (d :: ·)).Is (d :: whole)
      (pos + byteLength whole) ahead := (scanRun_append pos hw ha).map
  unfold scanDigits
  extract_lets number
  change number.Is _ _ _ at hnumber
  split
  · next e more h =>
    rw [if_neg (by simp [hp e more (hnumber.rest.symm.trans h)])]
    exact hnumber.map
  · exact hnumber.map

theorem scanDigits_lexeme (d : Char) : Lexeme [] fun pos cs => .ok (scanDigits d pos cs) := by
  intro pos cs s hok
  obtain rfl := Except.ok.inj hok
  have hw : ∀ c ∈ cs.takeWhile isDigitOrGap, isDigitOrGap c = true :=
    fun c hc => List.mem_takeWhile_imp hc
  have ha := head?_dropWhile_any isDigitOrGap cs
  have hcs : cs = cs.takeWhile isDigitOrGap ++ cs.dropWhile isDigitOrGap :=
    List.takeWhile_append_dropWhile.symm
  generalize cs.takeWhile isDigitOrGap = whole at hw hcs
  generalize cs.dropWhile isDigitOrGap = behind at ha hcs
  subst hcs
  by_cases hp : ∃ e more, behind = '.' :: e :: more ∧ e.isDigit = true
  · obtain ⟨e, more, rfl, he⟩ := hp
    have hf : ∀ c ∈ more.takeWhile isDigitOrGap, isDigitOrGap c = true :=
      fun c hc => List.mem_takeWhile_imp hc
    have hb := head?_dropWhile_any isDigitOrGap more
    have hmore : more = more.takeWhile isDigitOrGap ++ more.dropWhile isDigitOrGap :=
      List.takeWhile_append_dropWhile.symm
    generalize more.takeWhile isDigitOrGap = fraction at hf hmore
    generalize more.dropWhile isDigitOrGap = behind at hb hmore
    subst hmore
    have hread := scanDigits_of_fraction (d := d) pos hw he hf hb
    rw [show whole ++ '.' :: e :: (fraction ++ behind) = whole ++ '.' :: e :: fraction ++ behind by
      simp, ReadAgain, hread.value, hread.pos, hread.rest]
    refine ⟨whole ++ '.' :: e :: fraction, by simp, rfl, fun pos' ahead hahead => ⟨_, rfl, ?_⟩⟩
    exact scanDigits_of_fraction pos' hw he hf (hahead.any_head (by decide) hb)
  · have hp : ∀ e more, behind = '.' :: e :: more → e.isDigit = false := fun e more h =>
      Bool.eq_false_iff.2 fun he => hp ⟨e, more, h, he⟩
    have hread := scanDigits_of_whole (d := d) pos hw ha hp
    rw [ReadAgain, hread.value, hread.pos, hread.rest]
    refine ⟨whole, rfl, rfl, fun pos' ahead hahead => ⟨_, rfl, ?_⟩⟩
    refine scanDigits_of_whole pos' hw (hahead.any_head (by decide) ha) ?_
    rintro e more rfl
    obtain ⟨more', rfl, hmore⟩ := hahead.uncons (by decide)
    refine @UpTo.any_head more' (e :: more) hmore Char.isDigit (by decide) ?_
    cases more' with
    | nil => rfl
    | cons e' more' => exact hp e' more' rfl

section

variable {d : Char} {pos : Nat} {cs whole : List Char} {p : Nat} {rest : List Char}

theorem scanNumber_of_single {fraction : Option (List Char)} {c : Char}
    (h : (scanDigits d pos cs).Is (whole, fraction) p (c :: rest))
    (hc : (c == 'f' || c == 'F') = true) :
    Reads (scanNumber d pos cs) (.single (decimalFloat whole (fraction.getD [])))
      (p + c.utf8Size) rest := by
  have heat : ((scanDigits d pos cs).eat fun c => c == 'f' || c == 'F').Is
      ((whole, fraction), true) (p + c.utf8Size) rest := h.eat_accept hc
  unfold scanNumber
  extract_lets number single
  rw [show number.value = (whole, fraction) from h.value]
  dsimp only
  rw [if_pos (by rw [show single = _ from rfl, heat.value])]
  exact ⟨_, rfl, heat.map⟩

theorem scanNumber_of_double {digits : List Char}
    (h : (scanDigits d pos cs).Is (whole, some digits) p rest)
    (hr : rest.head?.any (fun c => c == 'f' || c == 'F') = false) :
    Reads (scanNumber d pos cs) (.double (decimalFloat whole digits)) p rest := by
  have heat := h.eat_reject hr
  unfold scanNumber
  extract_lets number single
  rw [show number.value = (whole, some digits) from h.value]
  dsimp only
  rw [if_neg (by rw [show single = _ from rfl, heat.value]; exact Bool.false_ne_true)]
  exact ⟨_, rfl, h.map⟩

/-- Digits without a point and a suffix for singles. -/
theorem scanNumber_of_whole (h : (scanDigits d pos cs).Is (whole, none) p rest)
    (hr : rest.head?.any (fun c => c == 'f' || c == 'F') = false) :
    scanNumber d pos cs = if decimalValue whole ≤ maxInteger then
        .ok (((scanDigits d pos cs).eat (· == 'L')).map fun n =>
          if n.2 then .long (decimalValue whole) else .integer (decimalValue whole))
      else .error (.integerTooLarge (String.ofList (whole.filter Char.isDigit))) := by
  have heat := h.eat_reject hr
  unfold scanNumber
  extract_lets number single
  rw [show number.value = (whole, none) from h.value]
  dsimp only
  rw [if_neg (by rw [show single = _ from rfl, heat.value]; exact Bool.false_ne_true)]

theorem scanNumber_of_long {c : Char} (h : (scanDigits d pos cs).Is (whole, none) p (c :: rest))
    (hc : (c == 'L') = true) (hv : decimalValue whole ≤ maxInteger) :
    Reads (scanNumber d pos cs) (.long (decimalValue whole)) (p + c.utf8Size) rest := by
  have hr : (c :: rest).head?.any (fun c => c == 'f' || c == 'F') = false := by
    rw [eq_of_beq hc]
    rfl
  rw [scanNumber_of_whole h hr, if_pos hv]
  exact ⟨_, rfl, (h.eat_accept hc).map⟩

theorem scanNumber_of_integer (h : (scanDigits d pos cs).Is (whole, none) p rest)
    (hr : rest.head?.any (fun c => c == 'f' || c == 'F') = false)
    (hl : rest.head?.any (· == 'L') = false) (hv : decimalValue whole ≤ maxInteger) :
    Reads (scanNumber d pos cs) (.integer (decimalValue whole)) p rest := by
  rw [scanNumber_of_whole h hr, if_pos hv]
  exact ⟨_, rfl, (h.eat_reject hl).map⟩

end

theorem exists_cons_of_any_head {test : Char → Bool} {cs : List Char}
    (h : cs.head?.any test = true) : ∃ c more, cs = c :: more ∧ test c = true := by
  cases cs with
  | nil => exact nomatch h
  | cons c more => exact ⟨c, more, rfl, h⟩

theorem scanNumber_lexeme (d : Char) : Lexeme [] (scanNumber d) := by
  intro pos cs s hok
  obtain ⟨used, hcs, hpos, hagain⟩ := @scanDigits_lexeme d pos cs _ rfl
  have hdigits : (scanDigits d pos cs).Is (scanDigits d pos cs).value (pos + byteLength used)
    (scanDigits d pos cs).rest := ⟨rfl, hpos, rfl⟩
  have hagain' : ∀ pos' ahead, UpTo (scanDigits d pos cs).rest ahead →
      (scanDigits d pos' (used ++ ahead)).Is (scanDigits d pos cs).value
        (pos' + byteLength used) ahead := by
    intro pos' ahead ha
    obtain ⟨_, h, his⟩ := hagain pos' ahead ha
    exact Except.ok.inj h ▸ his
  generalize (scanDigits d pos cs).value = value at hdigits hagain'
  generalize (scanDigits d pos cs).rest = rest at hcs hdigits hagain'
  rcases value with ⟨whole, fraction⟩
  -- one more character, if it is a suffix
  have hsuffix {kind : TokenKind} {c : Char} {more : List Char} (hrest : rest = c :: more)
      (h : ∀ {pos cs p rest}, (scanDigits d pos cs).Is (whole, fraction) p (c :: rest) →
        Reads (scanNumber d pos cs) kind (p + c.utf8Size) rest) :
      ReadAgain [] (scanNumber d) pos s := by
    subst hrest
    have hread := (h hdigits).of_ok hok
    rw [ReadAgain, hread.value, hread.pos, hread.rest]
    refine ⟨used ++ [c], by simp [hcs], by simp; omega, fun pos' ahead ha => ?_⟩
    have := h (hagain' pos' _ (ha.cons c))
    rw [List.append_assoc, List.singleton_append]
    rwa [List.nil_append, byteLength_append, ← Nat.add_assoc, byteLength_cons, byteLength_nil]
  have hplain {kind : TokenKind}
      (h : ∀ {pos cs p ahead}, (scanDigits d pos cs).Is (whole, fraction) p ahead →
        UpTo rest ahead → Reads (scanNumber d pos cs) kind p ahead) :
      ReadAgain [] (scanNumber d) pos s := by
    have hread := (h hdigits (.refl rest)).of_ok hok
    rw [ReadAgain, hread.value, hread.pos, hread.rest]
    exact ⟨used, hcs, rfl, fun pos' ahead ha => h (hagain' pos' ahead ha) ha⟩
  by_cases hf : rest.head?.any (fun c => c == 'f' || c == 'F') = true
  · obtain ⟨c, more, hrest, hc⟩ := exists_cons_of_any_head hf
    exact hsuffix hrest fun h => scanNumber_of_single h hc
  rw [Bool.not_eq_true] at hf
  have hf' {ahead : List Char} (ha : UpTo rest ahead) := ha.any_head (by decide) hf
  cases fraction with
  | some digits => exact hplain fun h ha => scanNumber_of_double h (hf' ha)
  | none =>
    by_cases hv : decimalValue whole ≤ maxInteger
    · by_cases hl : rest.head?.any (· == 'L') = true
      · obtain ⟨c, more, hrest, hc⟩ := exists_cons_of_any_head hl
        exact hsuffix hrest fun h => scanNumber_of_long h hc hv
      · rw [Bool.not_eq_true] at hl
        exact hplain fun h ha =>
          scanNumber_of_integer h (hf' ha) (ha.any_head (by decide) hl) hv
    · rw [scanNumber_of_whole hdigits hf, if_neg hv] at hok
      exact nomatch hok

/-! ## Characters and names in backticks -/

theorem scanQuote_eq_ok {start : Nat} {value : Char} {pos : Nat} {cs : List Char}
    {s : Scanned TokenKind cs} (h : scanQuote start value pos cs = .ok s) :
    ∃ more, cs = '\'' :: more ∧ s.Is (.character value) (pos + 1) more := by
  unfold scanQuote at h
  split at h
  · obtain rfl := Except.ok.inj h
    exact ⟨_, rfl, rfl, rfl, rfl⟩
  · exact nomatch h

theorem scanCharacter_cons {c : Char} (h : c ≠ '\\') (start : Nat) (cs : List Char) :
    scanCharacter start (c :: cs)
      = (scanQuote start c (start + 1 + c.utf8Size) cs).map (·.after c) := by
  rw [scanCharacter]
  · exact fun hc => absurd hc h
  · exact fun _ _ hc => absurd hc h

theorem scanCharacter_lexeme : Lexeme ['\''] scanCharacter := by
  intro pos cs s h
  have hquote : '\''.utf8Size = 1 := rfl
  have hslash : '\\'.utf8Size = 1 := rfl
  rcases cs with _ | ⟨c, cs⟩
  · exact nomatch h
  by_cases hc : c = '\\'
  · subst hc
    rcases cs with _ | ⟨c, more⟩
    · exact nomatch h
    obtain ⟨q, hq, rfl⟩ := exists_ok_of_map h
    obtain ⟨rest, rfl, hq⟩ := scanQuote_eq_ok hq
    refine ⟨['\\', c, '\''], by simp [Scanned.widen, hq.rest], ?_, fun pos' ahead _ => ?_⟩
    · simp only [Scanned.widen, hq.pos, List.cons_append, List.nil_append, byteLength_cons,
        byteLength_nil, hquote, hslash]
      omega
    · refine ⟨_, rfl, hq.value.symm, ?_, rfl⟩
      simp only [Scanned.widen, List.cons_append, List.nil_append, byteLength_cons,
        byteLength_nil, hquote, hslash]
      omega
  · rw [scanCharacter_cons hc] at h
    obtain ⟨q, hq, rfl⟩ := exists_ok_of_map h
    obtain ⟨rest, rfl, hq⟩ := scanQuote_eq_ok hq
    refine ⟨[c, '\''], by simp [Scanned.after, Scanned.widen, hq.rest], ?_, fun pos' ahead _ => ?_⟩
    · simp only [Scanned.after, Scanned.widen, hq.pos, List.cons_append, List.nil_append,
        byteLength_cons, byteLength_nil, hquote]
      omega
    · rw [List.cons_append, scanCharacter_cons hc]
      refine ⟨_, rfl, hq.value.symm, ?_, rfl⟩
      simp only [Scanned.after, Scanned.widen, List.cons_append, List.nil_append, byteLength_cons,
        byteLength_nil, hquote]
      omega

theorem scanBackticks_append {name ahead : List Char} (hn : ∀ c ∈ name, (c != '`') = true)
    (start : Nat) : Reads (scanBackticks start (name ++ '`' :: ahead)) (.name (String.ofList name))
      (start + 1 + byteLength name + 1) ahead := by
  have hrun : (scanRun (· != '`') (start + 1) (name ++ '`' :: ahead)).Is name
      (start + 1 + byteLength name) ('`' :: ahead) := scanRun_append _ hn rfl
  unfold scanBackticks
  extract_lets word
  change word.Is _ _ _ at hrun
  split
  · next h => exact absurd (h.symm.trans hrun.rest) (List.cons_ne_nil _ _).symm
  · next c more h =>
    obtain ⟨-, rfl⟩ := List.cons.inj (h.symm.trans hrun.rest)
    exact ⟨_, rfl, by rw [hrun.value], by rw [hrun.pos], rfl⟩

theorem scanBackticks_lexeme : Lexeme ['`'] scanBackticks := by
  intro pos cs s h
  have hn : ∀ c ∈ cs.takeWhile (· != '`'), (c != '`') = true :=
    fun c hc => List.mem_takeWhile_imp (p := (· != '`')) hc
  have hcs : cs = cs.takeWhile (· != '`') ++ cs.dropWhile (· != '`') :=
    List.takeWhile_append_dropWhile.symm
  have hstop := head?_dropWhile_any (· != '`') cs
  have hrest : cs.dropWhile (· != '`') ≠ [] := by
    intro hnil
    unfold scanBackticks at h
    extract_lets name at h
    split at h
    · cases h
    · next hc => exact absurd (hc.symm.trans hnil) (List.cons_ne_nil _ _)
  generalize cs.takeWhile (· != '`') = name at hn hcs
  generalize cs.dropWhile (· != '`') = behind at hstop hcs hrest
  obtain ⟨c, more, rfl⟩ := List.exists_cons_of_ne_nil hrest
  obtain rfl : c = '`' := by simpa using hstop
  subst hcs
  have hread := (scanBackticks_append hn pos).of_ok h
  rw [ReadAgain, hread.value, hread.pos, hread.rest]
  have hlength (pos : Nat) :
      pos + 1 + byteLength name + 1 = pos + byteLength (['`'] ++ (name ++ ['`'])) := by
    simp only [byteLength_append, byteLength_cons, byteLength_nil, show '`'.utf8Size = 1 from rfl]
    omega
  refine ⟨name ++ ['`'], by simp, hlength pos, fun pos' ahead _ => ?_⟩
  rw [← hlength, List.append_assoc]
  exact scanBackticks_append hn pos'

/-! ## Marks -/

theorem Mark.utf8Size_of_ofChar? {c : Char} {m : Mark} (h : ofChar? c = some m) :
    c.utf8Size = 1 := by
  unfold ofChar? at h
  split at h <;> first | rfl | exact nomatch h

theorem Mark.utf8Size_of_ofChars? {c d : Char} {m : Mark} (h : ofChars? c d = some m) :
    c.utf8Size = 1 ∧ d.utf8Size = 1 := by
  unfold ofChars? at h
  split at h <;> first | exact ⟨rfl, rfl⟩ | exact nomatch h

/-- No mark goes on with a character that halts. -/
theorem Mark.ofChars?_halted (c : Char) {d : Char} (h : d ∈ haltingChars) :
    ofChars? c d = none := by
  unfold ofChars?
  split <;> first | rfl | exact absurd h (by decide)

theorem scanSingleMark_eq_ok {c : Char} {pos : Nat} {cs : List Char} {s : Scanned TokenKind cs}
    (h : scanSingleMark c pos cs = .ok s) :
    ∃ m, Mark.ofChar? c = some m ∧ s.Is (.mark m) (pos + 1) cs := by
  unfold scanSingleMark at h
  split at h
  · next m hm =>
    obtain rfl := Except.ok.inj h
    exact ⟨m, hm, rfl, rfl, rfl⟩
  · exact nomatch h

/-- The next character makes no mark with `c`. -/
theorem scanMark_of_none {c : Char} {pos : Nat} {cs : List Char}
    (h : cs.head?.any (fun d => (Mark.ofChars? c d).isSome) = false) :
    scanMark c pos cs = scanSingleMark c pos cs := by
  rcases cs with _ | ⟨d, more⟩
  · rfl
  · have h : Mark.ofChars? c d = none :=
      Option.isNone_iff_eq_none.1 (Option.isSome_eq_false_iff.1 h)
    unfold scanMark
    simp only [h]

theorem scanMark_lexeme (c : Char) : Lexeme [c] (scanMark c) := by
  intro pos cs s h
  by_cases hc : cs.head?.any (fun d => (Mark.ofChars? c d).isSome) = true
  · obtain ⟨d, more, rfl, hd⟩ := exists_cons_of_any_head hc
    obtain ⟨m, hm⟩ := Option.isSome_iff_exists.1 hd
    have hread (pos : Nat) (more : List Char) :
        Reads (scanMark c pos (d :: more)) (.mark m) (pos + 2) more := by
      unfold scanMark
      simp only [hm]
      exact ⟨_, rfl, rfl, rfl, rfl⟩
    obtain ⟨hc, hd⟩ := Mark.utf8Size_of_ofChars? hm
    have hs := (hread pos more).of_ok h
    rw [ReadAgain, hs.value, hs.pos, hs.rest]
    have hlength : byteLength ([c] ++ [d]) = 2 := by simp [hc, hd]
    rw [← hlength] at hread
    exact ⟨[d], rfl, by rw [hlength], fun pos' ahead _ => hread pos' ahead⟩
  · rw [Bool.not_eq_true] at hc
    rw [scanMark_of_none hc] at h
    obtain ⟨m, hm, hs⟩ := scanSingleMark_eq_ok h
    have hlength : byteLength ([c] ++ []) = 1 := by simp [Mark.utf8Size_of_ofChar? hm]
    rw [ReadAgain, hs.value, hs.pos, hs.rest]
    refine ⟨[], rfl, by rw [hlength], fun pos' ahead ha => ?_⟩
    have hhalt : haltingChars.any (fun d => (Mark.ofChars? c d).isSome) = false := by
      refine List.any_eq_false.2 fun d hd => ?_
      rw [Mark.ofChars?_halted c hd]
      exact Bool.false_ne_true
    rw [List.nil_append, scanMark_of_none (ha.any_head hhalt hc), hlength]
    unfold scanSingleMark
    simp only [hm]
    exact ⟨_, rfl, rfl, rfl, rfl⟩

/-! ## Tokens -/

theorem utf8Size_of_isDigit {c : Char} (h : c.isDigit = true) : c.utf8Size = 1 := by
  have hle : c.val ≤ 0x7f := by
    simp only [Char.isDigit, Bool.and_eq_true, decide_eq_true_eq] at h
    exact UInt32.le_trans h.2 (by decide)
  exact Char.utf8Size_eq_one_iff.2 hle

theorem continuesName_halted : haltingChars.any continuesName = false := by decide +kernel

/-- A name goes on behind its first character. -/
theorem continuesName_of_startsName {c : Char} (h : startsName c = true) :
    continuesName c = true := by
  unfold startsName at h
  unfold continuesName Text.isAlphanumeric
  rw [Bool.or_right_comm, h, Bool.true_or]

theorem scanToken_lexeme (c : Char) : Lexeme [c] (scanToken c) := by
  intro pos cs s h
  by_cases hnewline : c = '\n'
  · have heq : scanToken c = fun pos cs => .ok ⟨.newline, pos + 1, cs, Nat.le_refl _⟩ := by
      funext pos cs
      rw [scanToken, if_pos hnewline]
    rw [heq] at h ⊢
    obtain rfl := Except.ok.inj h
    subst hnewline
    exact ⟨[], rfl, rfl, fun pos' ahead _ => ⟨_, rfl, rfl, rfl, rfl⟩⟩
  by_cases hquote : c = '\''
  · have heq : scanToken c = scanCharacter := by
      funext pos cs
      rw [scanToken, if_neg hnewline, if_pos hquote]
    rw [heq] at h ⊢
    exact hquote ▸ scanCharacter_lexeme h
  by_cases hdigit : c.isDigit = true
  · have heq : scanToken c = fun pos cs => scanNumber c (pos + 1) cs := by
      funext pos cs
      rw [scanToken, if_neg hnewline, if_neg hquote, if_pos hdigit]
    rw [heq] at h ⊢
    obtain ⟨used, hcs, hpos, hagain⟩ := scanNumber_lexeme c h
    have hlength (pos : Nat) :
        pos + 1 + byteLength ([] ++ used) = pos + byteLength ([c] ++ used) := by
      simp only [List.nil_append, List.cons_append, byteLength_cons, utf8Size_of_isDigit hdigit]
      omega
    refine ⟨used, hcs, hpos.trans (hlength pos), fun pos' ahead ha => ?_⟩
    exact hlength pos' ▸ hagain (pos' + 1) ahead ha
  by_cases htick : c = '`'
  · have heq : scanToken c = scanBackticks := by
      funext pos cs
      rw [scanToken, if_neg hnewline, if_neg hquote, if_neg hdigit, if_pos htick]
    rw [heq] at h ⊢
    exact htick ▸ scanBackticks_lexeme h
  by_cases hword : startsName c = true
  · have heq : scanToken c = fun pos cs =>
        .ok ((scanRun continuesName (pos + c.utf8Size) cs).map
          fun word => .ofWord (String.ofList (c :: word))) := by
      funext pos cs
      rw [scanToken, if_neg hnewline, if_neg hquote, if_neg hdigit, if_neg htick, if_pos hword]
    rw [heq] at h ⊢
    obtain rfl := Except.ok.inj h
    obtain ⟨used, hcs, hpos, hagain⟩ := @scanRun_lexeme _ continuesName_halted
      (pos + c.utf8Size) cs _ rfl
    have hlength (pos : Nat) :
        pos + c.utf8Size + byteLength ([] ++ used) = pos + byteLength ([c] ++ used) := by
      simp only [List.nil_append, List.cons_append, byteLength_cons]
      omega
    refine ⟨used, hcs, hpos.trans (hlength pos), fun pos' ahead ha => ?_⟩
    obtain ⟨_, hrun, his⟩ := hagain (pos' + c.utf8Size) ahead ha
    obtain rfl := Except.ok.inj hrun
    exact ⟨_, rfl, hlength pos' ▸ his.map⟩
  · have heq : scanToken c = scanMark c := by
      funext pos cs
      rw [scanToken, if_neg hnewline, if_neg hquote, if_neg hdigit, if_neg htick, if_neg hword]
    rw [heq] at h ⊢
    exact scanMark_lexeme c h

/-! ## Blanks and comments -/

/-- A comment is read again at each offset, whatever stands behind. -/
theorem scanComment_again {start depth pos : Nat} {cs : List Char} {p : Nat} {rest : List Char}
    (h : Reads (scanComment start depth pos cs) () p rest) :
    ∃ used, used ≠ [] ∧ cs = used ++ rest ∧ p = pos + byteLength used ∧
      ∀ start' pos' ahead, Reads (scanComment start' depth pos' (used ++ ahead)) ()
        (pos' + byteLength used) ahead := by
  have hopen (pos : Nat) (cs : List Char) :
      pos + byteLength ('/' :: '*' :: cs) = pos + 2 + byteLength cs := by
    simp only [byteLength_cons, show '/'.utf8Size = 1 from rfl, show '*'.utf8Size = 1 from rfl]
    omega
  have hclose (pos : Nat) (cs : List Char) :
      pos + byteLength ('*' :: '/' :: cs) = pos + 2 + byteLength cs := by
    simp only [byteLength_cons, show '/'.utf8Size = 1 from rfl, show '*'.utf8Size = 1 from rfl]
    omega
  fun_induction scanComment start depth pos cs with
  | case1 => exact nomatch h.choose_spec.1
  | case2 depth pos more ih =>
    obtain ⟨used, -, rfl, rfl, hagain⟩ := ih ((reads_widen _).1 h)
    refine ⟨'/' :: '*' :: used, List.cons_ne_nil _ _, rfl, (hopen pos used).symm,
      fun start' pos' ahead => ?_⟩
    rw [List.cons_append, List.cons_append, scanComment, hopen]
    exact (reads_widen _).2 (hagain start' _ ahead)
  | case3 pos more =>
    have his := h.of_ok rfl
    obtain rfl : more = rest := his.rest
    refine ⟨['*', '/'], List.cons_ne_nil _ _, rfl, his.pos.symm, fun start' pos' ahead => ?_⟩
    exact ⟨_, rfl, rfl, rfl, rfl⟩
  | case4 pos more depth ih =>
    obtain ⟨used, -, rfl, rfl, hagain⟩ := ih ((reads_widen _).1 h)
    refine ⟨'*' :: '/' :: used, List.cons_ne_nil _ _, rfl, (hclose pos used).symm,
      fun start' pos' ahead => ?_⟩
    rw [List.cons_append, List.cons_append, scanComment, hclose]
    exact (reads_widen _).2 (hagain start' _ ahead)
  | case5 depth pos c more hopened hclosed ih =>
    obtain ⟨used, hne, rfl, rfl, hagain⟩ := ih ((reads_widen (Nat.le_of_lt (by simp))).1 h)
    obtain ⟨d, used, rfl⟩ := List.exists_cons_of_ne_nil hne
    refine ⟨c :: d :: used, List.cons_ne_nil _ _, rfl, by simp [Nat.add_assoc],
      fun start' pos' ahead => ?_⟩
    rw [List.cons_append, scanComment]
    · rw [byteLength_cons, ← Nat.add_assoc]
      exact (reads_widen (Nat.le_of_lt (by simp))).2 (hagain start' _ ahead)
    · intro more hc hd
      exact hopened (used ++ rest) hc (by rw [List.cons_append] at hd ⊢; rw [(List.cons.inj hd).1])
    · intro more hc hd
      exact hclosed (used ++ rest) hc (by rw [List.cons_append] at hd ⊢; rw [(List.cons.inj hd).1])

theorem scanTrivia_line (pos : Nat) (more : List Char) : scanTrivia '/' pos ('/' :: more)
    = some (.ok (((scanRun (· != '\n') (pos + 2) more).map fun _ => ()).after '/')) := rfl

theorem scanTrivia_block (pos : Nat) (more : List Char) : scanTrivia '/' pos ('*' :: more)
    = some ((scanComment pos 0 (pos + 2) more).map (·.after '*')) := rfl

/-- A line comment is read to the end of its line. -/
theorem scanTrivia_lineComment {cs run ahead : List Char} (hcs : cs = '/' :: (run ++ ahead))
    (hr : '\n' ∉ run) (ha : ahead.head?.any (· != '\n') = false) (pos : Nat) :
    ∃ r, scanTrivia '/' pos cs = some r ∧
      Reads r () (pos + byteLength ('/' :: '/' :: run)) ahead := by
  subst hcs
  have hline : ∀ c ∈ run, (c != '\n') = true := fun c hc => bne_iff_ne.2 fun h => hr (h ▸ hc)
  have hrun := scanRun_append (pos + 2) hline ha
  refine ⟨_, scanTrivia_line pos _, _, rfl, rfl, ?_, hrun.rest⟩
  refine hrun.pos.trans ?_
  simp only [byteLength_cons, show '/'.utf8Size = 1 from rfl]
  omega

/-- A blank or a block comment is read again at each offset, whatever stands behind; a line comment
goes on to the end of its line. -/
theorem scanTrivia_again_or_line {c : Char} {pos : Nat} {cs : List Char}
    {r : Except ScanError (Scanned Unit cs)} {p : Nat} {rest : List Char}
    (h : scanTrivia c pos cs = some r) (hr : Reads r () p rest) :
    ∃ used, cs = used ++ rest ∧ p = pos + byteLength (c :: used) ∧
      ((∀ pos' ahead, ∃ r', scanTrivia c pos' (used ++ ahead) = some r' ∧
        Reads r' () (pos' + byteLength (c :: used)) ahead) ∨
      (∃ run, c = '/' ∧ used = '/' :: run ∧ '\n' ∉ run ∧
        rest.head?.any (· != '\n') = false)) := by
  have hlength (pos : Nat) (cs : List Char) :
      pos + byteLength ('/' :: '*' :: cs) = pos + 2 + byteLength cs := by
    simp only [byteLength_cons, show '/'.utf8Size = 1 from rfl, show '*'.utf8Size = 1 from rfl]
    omega
  unfold scanTrivia at h
  split at h
  · next hc =>
    obtain rfl := Option.some.inj h
    have his := hr.of_ok rfl
    obtain rfl : cs = rest := his.rest
    have hblank : byteLength [c] = 1 := by rcases hc with rfl | rfl | rfl <;> rfl
    refine ⟨[], rfl, by rw [hblank, ← his.pos], Or.inl fun pos' ahead => ⟨_, if_pos hc, ?_⟩⟩
    exact ⟨_, rfl, rfl, by rw [hblank], rfl⟩
  · next hblank =>
    split at h
    · next hc =>
      subst hc
      split at h
      · next more =>
        have hrun : '\n' ∉ more.takeWhile (· != '\n') := fun hmem => by
          simpa using List.mem_takeWhile_imp (p := (· != '\n')) hmem
        have hstop := head?_dropWhile_any (· != '\n') more
        have hmore : more = more.takeWhile (· != '\n') ++ more.dropWhile (· != '\n') :=
          List.takeWhile_append_dropWhile.symm
        generalize more.takeWhile (· != '\n') = run at hrun hmore
        generalize more.dropWhile (· != '\n') = behind at hstop hmore
        subst hmore
        obtain ⟨r', hr', hread⟩ := scanTrivia_lineComment rfl hrun hstop pos
        obtain rfl : r' = r := Option.some.inj (hr'.symm.trans h)
        obtain ⟨-, rfl, rfl⟩ := hread.unique hr
        exact ⟨'/' :: run, rfl, rfl, Or.inr ⟨run, rfl, rfl, hrun, hstop⟩⟩
      · next more =>
        obtain rfl := Option.some.inj h
        obtain ⟨used, -, rfl, rfl, hagain⟩ :=
          scanComment_again ((reads_widen (Nat.le_of_lt (by simp))).1 hr)
        refine ⟨'*' :: used, rfl, by rw [hlength], Or.inl fun pos' ahead => ?_⟩
        refine ⟨_, scanTrivia_block pos' _, (reads_widen (Nat.le_of_lt (by simp))).2 ?_⟩
        rw [hlength]
        exact hagain pos' (pos' + 2) ahead
      · exact nomatch h
    · exact nomatch h

/-- A blank or a comment is read again at each offset, where the next character is the same. -/
theorem scanTrivia_again {c : Char} {pos : Nat} {cs : List Char}
    {r : Except ScanError (Scanned Unit cs)} {p : Nat} {rest : List Char}
    (h : scanTrivia c pos cs = some r) (hr : Reads r () p rest) :
    ∃ used, cs = used ++ rest ∧ p = pos + byteLength (c :: used) ∧
      ∀ pos' ahead, ahead.head? = rest.head? → ∃ r', scanTrivia c pos' (used ++ ahead) = some r' ∧
        Reads r' () (pos' + byteLength (c :: used)) ahead := by
  obtain ⟨used, hcs, hp, hagain⟩ := scanTrivia_again_or_line h hr
  refine ⟨used, hcs, hp, fun pos' ahead ha => ?_⟩
  rcases hagain with hagain | ⟨run, rfl, rfl, hrun, hstop⟩
  · exact hagain pos' ahead
  · exact scanTrivia_lineComment rfl hrun ((congrArg _ ha).trans hstop) pos'

end FrameCheck
