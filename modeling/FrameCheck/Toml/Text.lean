/-!
# TOML strings and keys

Readers of the texts of a document. A reader takes the characters that are left and gives what
it has read together with the characters behind it, or nothing if the text is not well formed.

* `string?` : a string in any of its four forms.
* `key?` : a bare or a quoted key.
-/

namespace FrameCheck.Toml

/-- A character that may stand in comments and strings. -/
def isPlain (c : Char) : Bool := c = '\t' || (c.toNat ≥ 32 && c.toNat ≠ 127)

def skipBlanks (cs : List Char) : List Char := cs.dropWhile fun c => c = ' ' || c = '\t'

/-- What is left behind the end of a line at the front. -/
def lineEnd? : List Char → Option (List Char)
  | '\n' :: rest => some rest
  | '\r' :: '\n' :: rest => some rest
  | _ => none

/-- The text without blanks and ends of lines at its front. -/
def skipLines : List Char → List Char
  | '\n' :: rest => skipLines rest
  | '\r' :: '\n' :: rest => skipLines rest
  | ' ' :: rest => skipLines rest
  | '\t' :: rest => skipLines rest
  | cs => cs

theorem length_skipLines_le (cs : List Char) : (skipLines cs).length ≤ cs.length := by
  fun_induction skipLines cs <;> simp_all <;> omega

/-! ## Escapes -/

def hexDigit? (c : Char) : Option Nat :=
  if c.isDigit then some (c.toNat - '0'.toNat)
  else if 'a' ≤ c && c ≤ 'f' then some (c.toNat - 'a'.toNat + 10)
  else if 'A' ≤ c && c ≤ 'F' then some (c.toNat - 'A'.toNat + 10)
  else none

/-- The character whose code point is given by `n` hexadecimal digits at the front. -/
def codePoint? (n : Nat) (cs : List Char) : Option (Char × List Char) := do
  let digits ← (cs.take n).mapM hexDigit?
  let code := digits.foldl (fun value digit => 16 * value + digit) 0
  if digits.length = n && code.isValidChar then some (Char.ofNat code, cs.drop n) else none

/-- The character that is meant by what follows a backslash. -/
def escape? : List Char → Option (Char × List Char)
  | 'b' :: rest => some ('\x08', rest)
  | 't' :: rest => some ('\t', rest)
  | 'n' :: rest => some ('\n', rest)
  | 'f' :: rest => some ('\x0c', rest)
  | 'r' :: rest => some ('\r', rest)
  | '"' :: rest => some ('"', rest)
  | '\\' :: rest => some ('\\', rest)
  | 'u' :: rest => codePoint? 4 rest
  | 'U' :: rest => codePoint? 8 rest
  | _ => none

theorem length_le_of_codePoint? {n : Nat} {cs rest : List Char} {c : Char}
    (h : codePoint? n cs = some (c, rest)) : rest.length ≤ cs.length := by
  simp only [codePoint?, Option.bind_eq_bind, Option.bind_eq_some_iff] at h
  obtain ⟨digits, -, h⟩ := h
  split at h
  · simp only [Option.some.injEq, Prod.mk.injEq] at h
    rw [← h.2, List.length_drop]
    omega
  · simp at h

theorem length_lt_of_escape? {cs rest : List Char} {c : Char}
    (h : escape? cs = some (c, rest)) : rest.length < cs.length := by
  unfold escape? at h
  split at h
  case h_8 => have := length_le_of_codePoint? h; simp; omega
  case h_9 => have := length_le_of_codePoint? h; simp; omega
  all_goals simp_all

/-! ## Strings -/

/-- What was read, with one more character before it. -/
def withFirst (c : Char) : Option (List Char × List Char) → Option (List Char × List Char)
  | some (text, rest) => some (c :: text, rest)
  | none => none

/-- A string of one line up to its closing quote. Escapes are read between double quotes. -/
def lineString? (quote : Char) (cs : List Char) : Option (List Char × List Char) :=
  match cs with
  | [] => none
  | c :: rest =>
    if c = quote then some ([], rest)
    else if c = '\\' && quote = '"' then
      match h : escape? rest with
      | some (d, more) =>
        have := length_lt_of_escape? h
        withFirst d (lineString? quote more)
      | none => none
    else if isPlain c then withFirst c (lineString? quote rest)
    else none
termination_by cs.length

/-- What is left behind a backslash at the end of a line: blanks and ends of lines are skipped. -/
def joinedLine? (cs : List Char) : Option (List Char) := (lineEnd? (skipBlanks cs)).map skipLines

theorem length_lt_of_lineEnd? {cs rest : List Char} (h : lineEnd? cs = some rest) :
    rest.length < cs.length := by
  unfold lineEnd? at h
  split at h
  · simp only [Option.some.injEq] at h
    subst h
    exact Nat.lt_succ_self _
  · simp only [Option.some.injEq] at h
    subst h
    exact Nat.lt_succ_of_lt (Nat.lt_succ_self _)
  · simp at h

theorem length_lt_of_joinedLine? {cs rest : List Char} (h : joinedLine? cs = some rest) :
    rest.length < cs.length := by
  obtain ⟨more, hm, rfl⟩ := Option.map_eq_some_iff.1 h
  have hs := length_skipLines_le more
  have hb := (List.dropWhile_suffix (l := cs) fun c => c = ' ' || c = '\t').length_le
  have hl := length_lt_of_lineEnd? hm
  simp only [skipBlanks] at hl
  omega

/-- A string of several lines up to its three closing quotes, of which up to two more may stand
before the end as part of the text. -/
def blockString? (quote : Char) (cs : List Char) : Option (List Char × List Char) :=
  match cs with
  | [] => none
  | '\r' :: '\n' :: rest => withFirst '\n' (blockString? quote rest)
  | c :: rest =>
    if c = quote then
      if rest.take 2 = [quote, quote] then
        let extra := ((rest.drop 2).take 2).takeWhile (· = quote)
        some (extra, rest.drop (2 + extra.length))
      else withFirst c (blockString? quote rest)
    else if c = '\\' && quote = '"' then
      match hj : joinedLine? rest with
      | some more =>
        have := length_lt_of_joinedLine? hj
        blockString? quote more
      | none =>
        match h : escape? rest with
        | some (d, more) =>
          have := length_lt_of_escape? h
          withFirst d (blockString? quote more)
        | none => none
    else if c = '\n' || isPlain c then withFirst c (blockString? quote rest)
    else none
termination_by cs.length

/-- A string of several lines, behind its opening quotes. An end of line right behind them is
not part of it. -/
def block? (quote : Char) (cs : List Char) : Option (List Char × List Char) :=
  blockString? quote ((lineEnd? cs).getD cs)

def string? : List Char → Option (String × List Char)
  | '"' :: '"' :: '"' :: rest => (block? '"' rest).map fun r => (String.ofList r.1, r.2)
  | '\'' :: '\'' :: '\'' :: rest => (block? '\'' rest).map fun r => (String.ofList r.1, r.2)
  | '"' :: rest => (lineString? '"' rest).map fun r => (String.ofList r.1, r.2)
  | '\'' :: rest => (lineString? '\'' rest).map fun r => (String.ofList r.1, r.2)
  | _ => none

/-! ## Keys -/

def isBare (c : Char) : Bool := c.isAlphanum || c = '_' || c = '-'

def key? : List Char → Option (String × List Char)
  | '"' :: rest => (lineString? '"' rest).map fun r => (String.ofList r.1, r.2)
  | '\'' :: rest => (lineString? '\'' rest).map fun r => (String.ofList r.1, r.2)
  | cs =>
    let bare := cs.takeWhile isBare
    if bare.isEmpty then none else some (String.ofList bare, cs.dropWhile isBare)

end FrameCheck.Toml
