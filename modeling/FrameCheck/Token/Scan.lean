import FrameCheck.Text.Alphabetic
import FrameCheck.Token.Basic

/-!
# Reading tokens from text

`Token.scan` splits a source text into tokens. Blanks and comments separate tokens and
leave no trace but the spans; line breaks are tokens, because they end statements.
Every scanner below takes the characters that are left with the offset of the first of
them, and answers with a `Scanned` value: what it read, the offset after it, and a rest
that is no longer than what it was given. Code and string bodies contain each other
through templates, so `scanCode` and `scanBody` recurse together, on the length of the rest.

* `ScanError` : the ways in which a text can fail to split into tokens.
* `Token.scan` : the tokens of a text, ending in `eof`.
-/

namespace FrameCheck

/-- Why a text does not split into tokens. -/
inductive ScanError where
  | unexpectedChar (c : Char) (pos : Nat)
  | unterminatedComment (start : Nat)
  | unterminatedString (start : Nat)
  | unterminatedStringEscape
  | unterminatedTemplate (start : Nat)
  | unterminatedChar (start : Nat)
  | unterminatedCharEscape
  | unterminatedBackticks (start : Nat)
  | integerTooLarge (digits : String)
deriving DecidableEq, Repr

namespace ScanError

def message : ScanError → String
  | unexpectedChar c pos => s!"Unexpected character '{c}' at offset {pos}"
  | unterminatedComment start => s!"Unterminated block comment starting at offset {start}"
  | unterminatedString start => s!"Unterminated string literal starting at offset {start}"
  | unterminatedStringEscape => "Unterminated escape sequence in string literal"
  | unterminatedTemplate start => s!"Unterminated string template starting at offset {start}"
  | unterminatedChar start => s!"Unterminated char literal at offset {start}"
  | unterminatedCharEscape => "Unterminated escape sequence in char literal"
  | unterminatedBackticks start => s!"Unterminated backticked identifier at offset {start}"
  | integerTooLarge digits =>
    s!"Failed to parse integer literal '{digits}': number too large to fit in target type"

end ScanError

/-- What was read from the front of `cs`, and what is left. -/
structure Scanned (α : Type) (cs : List Char) where
  value : α
  /-- The offset of the first character left. -/
  pos : Nat
  rest : List Char
  rest_le : rest.length ≤ cs.length

namespace Scanned

variable {α β : Type} {cs : List Char}

/-- The same text read from a longer one. -/
def widen {ds : List Char} (s : Scanned α cs) (h : cs.length ≤ ds.length) : Scanned α ds :=
  ⟨s.value, s.pos, s.rest, Nat.le_trans s.rest_le h⟩

/-- The same text read with one more character before it. -/
def after (c : Char) (s : Scanned α cs) : Scanned α (c :: cs) :=
  s.widen (by simp)

def map (f : α → β) (s : Scanned α cs) : Scanned β cs :=
  ⟨f s.value, s.pos, s.rest, s.rest_le⟩

/-- Reads one more character if it is accepted, and says whether it was. -/
def eat (s : Scanned α cs) (accept : Char → Bool) : Scanned (α × Bool) cs :=
  match h : s.rest with
  | [] => s.map (·, false)
  | c :: more =>
    if accept c then
      ⟨(s.value, true), s.pos + c.utf8Size, more, by
        have := s.rest_le
        rw [h] at this
        exact Nat.le_of_succ_le this⟩
    else s.map (·, false)

end Scanned

/-- The longest run of characters of a class, at offset `pos`. -/
def scanRun (inClass : Char → Bool) (pos : Nat) (cs : List Char) : Scanned (List Char) cs :=
  ⟨cs.takeWhile inClass, pos + byteLength (cs.takeWhile inClass), cs.dropWhile inClass,
    (List.dropWhile_suffix _).length_le⟩

/-! ## Names and numbers -/

def startsName (c : Char) : Bool :=
  Text.isAlphabetic c || c == '_'

def continuesName (c : Char) : Bool :=
  Text.isAlphanumeric c || c == '_'

/-- The token of a word: a keyword if it is the lexeme of one. -/
def TokenKind.ofWord (word : String) : TokenKind :=
  match Keyword.ofLexeme? word with
  | some k => .keyword k
  | none => .name word

def isDigitOrGap (c : Char) : Bool :=
  c.isDigit || c == '_'

/-- The number that the decimal digits among `cs` spell. -/
def decimalValue (cs : List Char) : Nat :=
  cs.foldl (fun n c => if c.isDigit then 10 * n + (c.toNat - '0'.toNat) else n) 0

/-- Integer literals are at most the largest signed 64-bit integer. -/
def maxInteger : Nat := 9223372036854775807

/-- Digits with gaps from `d` on, then maybe a point that a digit follows and again digits
with gaps; the fraction is `none` without such a point. -/
def scanDigits (d : Char) (pos : Nat) (cs : List Char) :
    Scanned (List Char × Option (List Char)) cs :=
  let whole := (scanRun isDigitOrGap pos cs).map (d :: ·)
  match h : whole.rest with
  | '.' :: e :: more =>
    if e.isDigit then
      let fraction := scanRun isDigitOrGap (whole.pos + 1) (e :: more)
      ⟨(whole.value, some fraction.value), fraction.pos, fraction.rest, by
        have := whole.rest_le
        have := fraction.rest_le
        simp_all
        omega⟩
    else whole.map (·, none)
  | _ => whole.map (·, none)

/-- The binary64 number nearest to the digits of `whole`, a point and those of `fraction`. -/
def decimalFloat (whole fraction : List Char) : Float :=
  Float.ofScientific (decimalValue (whole ++ fraction)) true (fraction.filter Char.isDigit).length

/-- The number literal that starts with the digit `d` : with a suffix `f` or `F` a single,
with a fraction a double, and else an integer, with the suffix `L` a long one. -/
def scanNumber (d : Char) (pos : Nat) (cs : List Char) : Except ScanError (Scanned TokenKind cs) :=
  let number := scanDigits d pos cs
  let (whole, fraction) := number.value
  let single := number.eat fun c => c == 'f' || c == 'F'
  if single.value.2 then
    .ok (single.map fun _ => .single (decimalFloat whole (fraction.getD [])))
  else match fraction with
    | some digits => .ok (number.map fun _ => .double (decimalFloat whole digits))
    | none =>
      let value := decimalValue whole
      if value ≤ maxInteger then
        .ok ((number.eat (· == 'L')).map fun n => if n.2 then .long value else .integer value)
      else .error (.integerTooLarge (String.ofList (whole.filter Char.isDigit)))

/-! ## Comments, quotes and marks -/

/-- A block comment, from behind its opening mark; `depth` more have been opened inside
of it. `start` is the offset of the opening mark. -/
def scanComment (start : Nat) (depth : Nat) (pos : Nat) (cs : List Char) :
    Except ScanError (Scanned Unit cs) :=
  match cs with
  | [] => .error (.unterminatedComment start)
  | '/' :: '*' :: more =>
    (scanComment start (depth + 1) (pos + 2) more).map (·.widen (by simp; omega))
  | '*' :: '/' :: more =>
    match depth with
    | 0 => .ok ⟨(), pos + 2, more, by simp; omega⟩
    | d + 1 => (scanComment start d (pos + 2) more).map (·.widen (by simp; omega))
  | c :: more => (scanComment start depth (pos + c.utf8Size) more).map (·.after c)

/-- The character that a backslash and `c` stand for. -/
def unescape : Char → Char
  | 'n' => '\n'
  | 'r' => '\r'
  | 't' => '\t'
  | c => c

/-- The quote that closes the character literal opened at `start`. -/
def scanQuote (start : Nat) (value : Char) (pos : Nat) (cs : List Char) :
    Except ScanError (Scanned TokenKind cs) :=
  match cs with
  | '\'' :: more => .ok ⟨.character value, pos + 1, more, by simp⟩
  | _ => .error (.unterminatedChar start)

/-- A character literal, from behind its opening quote. -/
def scanCharacter (start : Nat) (cs : List Char) : Except ScanError (Scanned TokenKind cs) :=
  match cs with
  | [] => .error (.unterminatedChar start)
  | '\\' :: [] => .error .unterminatedCharEscape
  | '\\' :: c :: more =>
    (scanQuote start (unescape c) (start + 2 + c.utf8Size) more).map (·.widen (by simp; omega))
  | c :: more => (scanQuote start c (start + 1 + c.utf8Size) more).map (·.after c)

/-- A name in backticks, from behind the first. -/
def scanBackticks (start : Nat) (cs : List Char) : Except ScanError (Scanned TokenKind cs) :=
  let name := scanRun (· != '`') (start + 1) cs
  match h : name.rest with
  | [] => .error (.unterminatedBackticks start)
  | _ :: more => .ok ⟨.name (String.ofList name.value), name.pos + 1, more, by
      have := name.rest_le
      simp_all
      omega⟩

/-- The mark of the one character `c`. -/
def scanSingleMark (c : Char) (pos : Nat) (cs : List Char) :
    Except ScanError (Scanned TokenKind cs) :=
  match Mark.ofChar? c with
  | some m => .ok ⟨.mark m, pos + 1, cs, Nat.le_refl _⟩
  | none => .error (.unexpectedChar c pos)

/-- The punctuation mark that starts with `c`, the longest that fits. -/
def scanMark (c : Char) (pos : Nat) (cs : List Char) : Except ScanError (Scanned TokenKind cs) :=
  match cs with
  | [] => scanSingleMark c pos []
  | d :: more =>
    match Mark.ofChars? c d with
    | some m => .ok ⟨.mark m, pos + 2, more, by simp⟩
    | none => scanSingleMark c pos (d :: more)

/-- The text between two tokens that starts with `c`, if it starts none: a blank or a comment. -/
def scanTrivia (c : Char) (pos : Nat) (cs : List Char) :
    Option (Except ScanError (Scanned Unit cs)) :=
  if c = ' ' ∨ c = '\t' ∨ c = '\r' then some (.ok ⟨(), pos + 1, cs, Nat.le_refl _⟩)
  else if c = '/' then
    match cs with
    | '/' :: more => some (.ok (((scanRun (· != '\n') (pos + 2) more).map fun _ => ()).after _))
    | '*' :: more => some ((scanComment pos 0 (pos + 2) more).map (·.after _))
    | _ => none
  else none

/-- The token that starts with `c`, if that is not a double quote. -/
def scanToken (c : Char) (pos : Nat) (cs : List Char) : Except ScanError (Scanned TokenKind cs) :=
  if c = '\n' then .ok ⟨.newline, pos + 1, cs, Nat.le_refl _⟩
  else if c = '\'' then scanCharacter pos cs
  else if c.isDigit then scanNumber c (pos + 1) cs
  else if c = '`' then scanBackticks pos cs
  else if startsName c then
    .ok ((scanRun continuesName (pos + c.utf8Size) cs).map
      fun word => .ofWord (String.ofList (c :: word)))
  else scanMark c pos cs

/-! ## Code and string bodies -/

/-- The opened braces that are left open behind a token. -/
def braceDepth (depth : Nat) : TokenKind → Nat
  | .mark .leftBrace => depth + 1
  | .mark .rightBrace => depth - 1
  | _ => depth

/-- The inside of a string: the characters outside of templates, and the tokens of each
template. -/
structure StringBody where
  chars : List Char
  parts : List (List Token)

namespace StringBody

def addChar (c : Char) (b : StringBody) : StringBody :=
  { b with chars := c :: b.chars }

def addPart (tokens : List Token) (b : StringBody) : StringBody :=
  { b with parts := tokens :: b.parts }

/-- The characters count only in a string without templates. -/
def kind (b : StringBody) : TokenKind :=
  if b.parts.isEmpty then .text (String.ofList b.chars) else .template b.parts

end StringBody

/-- Whether the string opened by a quote before `cs` is raw, and the rest of its opening. -/
def scanOpening (pos : Nat) (cs : List Char) : Scanned Bool cs :=
  match cs with
  | '"' :: '"' :: inside => ⟨true, pos + 2, inside, by simp; omega⟩
  | cs => ⟨false, pos, cs, Nat.le_refl _⟩

/-- The quotes that close a string, if they come next. -/
def scanClosing (raw : Bool) (pos : Nat) (cs : List Char) : Option (Scanned Unit cs) :=
  match raw, cs with
  | true, '"' :: '"' :: '"' :: more => some ⟨(), pos + 3, more, by simp; omega⟩
  | false, '"' :: more => some ⟨(), pos + 1, more, by simp⟩
  | _, _ => none

mutual

/-- The tokens up to the end of the text, or, in a template, whose code starts at offset
`opened`, up to the brace that closes it; `depth` braces are open. -/
def scanCode (opened : Option Nat) (depth pos : Nat) (cs : List Char) :
    Except ScanError (Scanned (List Token) cs) :=
  match cs with
  | [] =>
    match opened with
    | some start => .error (.unterminatedTemplate start)
    | none => .ok ⟨[⟨.eof, ⟨pos, pos⟩⟩], pos, [], Nat.le_refl _⟩
  | c :: cs =>
    if c = '}' ∧ depth = 0 ∧ opened.isSome then
      .ok ⟨[⟨.eof, ⟨pos, pos⟩⟩], pos + 1, cs, by simp⟩
    else if c = '"' then do
      let raw := scanOpening (pos + 1) cs
      let body ← scanBody raw.value pos raw.pos raw.rest
      let more ← scanCode opened depth body.pos body.rest
      .ok ((more.map (⟨body.value.kind, ⟨pos, body.pos⟩⟩ :: ·)).widen
        (by have := raw.rest_le; have := body.rest_le; simp; omega))
    else
      match scanTrivia c pos cs with
      | some trivia => do
        let gap ← trivia
        let more ← scanCode opened depth gap.pos gap.rest
        .ok (more.widen (by have := gap.rest_le; simp; omega))
      | none => do
        let token ← scanToken c pos cs
        let more ← scanCode opened (braceDepth depth token.value) token.pos token.rest
        .ok ((more.map (⟨token.value, ⟨pos, token.pos⟩⟩ :: ·)).widen
          (by have := token.rest_le; simp; omega))
termination_by cs.length
decreasing_by
  all_goals simp
  all_goals first
    | omega
    | (have h := (scanOpening (pos + 1) cs).rest_le; omega)
    | (have h := raw.rest_le; have h2 := body.rest_le; omega)
    | (have h := gap.rest_le; omega)
    | (have h := token.rest_le; omega)

/-- The inside of the string that opens at offset `start`, up to its closing quotes. In a
raw string, which three quotes close, backslashes and line breaks are plain characters. -/
def scanBody (raw : Bool) (start pos : Nat) (cs : List Char) :
    Except ScanError (Scanned StringBody cs) :=
  match scanClosing raw pos cs with
  | some closing => .ok (closing.map fun _ => ⟨[], []⟩)
  | none =>
  match cs with
  | [] => .error (.unterminatedString start)
  | '$' :: '{' :: cs => do
    let code ← scanCode (some (pos + 2)) 0 (pos + 2) cs
    let more ← scanBody raw start code.pos code.rest
    .ok ((more.map (·.addPart code.value)).widen (by have := code.rest_le; simp; omega))
  | c :: cs =>
    if c = '\\' ∧ ¬ raw then
      match cs with
      | [] => .error .unterminatedStringEscape
      | e :: cs => do
        let more ← scanBody raw start (pos + 1 + e.utf8Size) cs
        .ok ((more.map (·.addChar (unescape e))).widen (by simp; omega))
    else if c = '\n' ∧ ¬ raw then .error (.unterminatedString start)
    else if c = '$' ∧ (cs.head?.any startsName) then do
      let name := scanRun continuesName (pos + 1) cs
      let more ← scanBody raw start name.pos name.rest
      let part := [⟨.ofWord (String.ofList name.value), ⟨pos + 1, name.pos⟩⟩,
        ⟨.eof, ⟨name.pos, name.pos⟩⟩]
      .ok ((more.map (·.addPart part)).widen (by have := name.rest_le; simp; omega))
    else do
      let more ← scanBody raw start (pos + c.utf8Size) cs
      .ok ((more.map (·.addChar c)).after c)
termination_by cs.length
decreasing_by
  all_goals simp
  all_goals first
    | omega
    | (have h := code.rest_le; omega)
    | (have h := (scanRun continuesName (pos + 1) cs).rest_le; omega)

end

namespace Token

/-- The tokens of a text, ending in `eof`. -/
def scan (text : String) : Except ScanError (List Token) :=
  (scanCode none 0 0 text.toList).map (·.value)

/-- A text in two parts is spelled by the characters of one and then of the other. -/
theorem eq_ofList_append {a b : String} {cs ds : List Char} (ha : a = String.ofList cs)
    (hb : b = String.ofList ds) : a ++ b = String.ofList (cs ++ ds) := by
  rw [ha, hb, String.ofList_append]

theorem scan_ofList {text : String} {cs : List Char} (h : text = String.ofList cs) :
    scan text = (scanCode none 0 0 cs).map (·.value) := by
  rw [h, scan, String.toList_ofList]

/-- A test of the tokens of a text may be run on the characters that spell the text. -/
theorem exists_scan {text : String} {cs : List Char} {test : List Token → Bool}
    (h : text = String.ofList cs)
    (ht : ((scanCode none 0 0 cs).map (·.value)).toOption.any test = true) :
    ∃ ts, scan text = .ok ts ∧ test ts = true := by
  rw [scan_ofList h]
  generalize (scanCode none 0 0 cs).map (·.value) = r at ht ⊢
  cases r with
  | error e => exact absurd ht Bool.false_ne_true
  | ok ts => exact ⟨ts, rfl, ht⟩

end Token

end FrameCheck
