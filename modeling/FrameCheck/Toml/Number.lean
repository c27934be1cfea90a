/-!
# TOML numbers, dates and times

Readers of numbers, dates and times, in the manner of the readers of texts. Between the digits of
a number single underscores may stand. An integer has to fit into 64 bits, and a number with a
fraction or an exponent must not round to infinity (`exceedsFinite`).

* `integer?`, `float?`, `dateTime?` : the three kinds, of which only a date or a time is told
  from a number by what follows its digits.
-/

namespace FrameCheck.Toml

/-! ## Digits -/

/-- The digits behind a digit, each with at most one underscore before it. -/
def moreDigits? (isDigit : Char → Bool) : List Char → Option (List Char × List Char)
  | '_' :: d :: rest =>
    if isDigit d then (moreDigits? isDigit rest).map fun r => (d :: r.1, r.2) else none
  | ['_'] => none
  | d :: rest =>
    if isDigit d then (moreDigits? isDigit rest).map fun r => (d :: r.1, r.2)
    else some ([], d :: rest)
  | [] => some ([], [])

/-- At least one digit. -/
def digits? (isDigit : Char → Bool) : List Char → Option (List Char × List Char)
  | d :: rest =>
    if isDigit d then (moreDigits? isDigit rest).map fun r => (d :: r.1, r.2) else none
  | [] => none

/-- The value of a digit of any base up to sixteen. -/
def digitValue (c : Char) : Nat :=
  if c.isDigit then c.toNat - '0'.toNat else c.toLower.toNat - 'a'.toNat + 10

def numeral (base : Nat) (digits : List Char) : Nat :=
  digits.foldl (fun value c => base * value + digitValue c) 0

/-- Whether a sign at the front is a minus, and what follows it. -/
def sign : List Char → Bool × List Char
  | '-' :: rest => (true, rest)
  | '+' :: rest => (false, rest)
  | cs => (false, cs)

/-- Decimal digits that do not start with a zero, or a zero alone. -/
def decimal? : List Char → Option (List Char × List Char)
  | '0' :: rest => some (['0'], rest)
  | cs => digits? Char.isDigit cs

/-! ## Integers -/

def fits64 (value : Int) : Option Int :=
  if -9223372036854775808 ≤ value && value ≤ 9223372036854775807 then some value else none

/-- An integer of another base, behind the letter of the base. -/
def based? (base : Nat) (isDigit : Char → Bool) (cs : List Char) : Option (Int × List Char) := do
  let (digits, rest) ← digits? isDigit cs
  return (← fits64 (numeral base digits), rest)

def isHexDigit (c : Char) : Bool :=
  c.isDigit || ('a' ≤ c && c ≤ 'f') || ('A' ≤ c && c ≤ 'F')

def integer? (cs : List Char) : Option (Int × List Char) :=
  match cs with
  | '0' :: 'x' :: rest => based? 16 isHexDigit rest
  | '0' :: 'o' :: rest => based? 8 (fun c => '0' ≤ c && c ≤ '7') rest
  | '0' :: 'b' :: rest => based? 2 (fun c => c = '0' || c = '1') rest
  | _ => do
    let (negative, cs) := sign cs
    let (digits, rest) ← decimal? cs
    let value := Int.ofNat (numeral 10 digits)
    return (← fits64 (if negative then -value else value), rest)

/-! ## Floats -/

/-- The least number that rounds to infinity, half a unit above the greatest finite one. -/
def infinityThreshold : Nat := Nat.pow 2 1024 - Nat.pow 2 970

/-- Whether the number with these digits, times a power of ten, is too great for a finite float.
Numbers with more or fewer than 309 digits before the point are told by that alone. -/
def exceedsFinite (digits : List Char) (exponent : Int) : Bool :=
  let digits := digits.dropWhile (· = '0')
  let size := Int.ofNat digits.length + exponent
  if digits.isEmpty || size < 309 then false
  else if size > 309 then true
  else
    let value := numeral 10 digits
    if exponent < 0 then infinityThreshold * Nat.pow 10 exponent.natAbs ≤ value
    else infinityThreshold ≤ value * Nat.pow 10 exponent.natAbs

/-- The digits of a fraction, if there is one. -/
def fraction? : List Char → Option (List Char × List Char)
  | '.' :: rest => digits? Char.isDigit rest
  | cs => some ([], cs)

/-- The exponent, if there is one. -/
def exponent? : List Char → Option (Option Int × List Char)
  | c :: rest =>
    if c = 'e' || c = 'E' then do
      let (negative, rest) := sign rest
      let (digits, rest) ← digits? Char.isDigit rest
      let value := Int.ofNat (numeral 10 digits)
      return (some (if negative then -value else value), rest)
    else some (none, c :: rest)
  | [] => some (none, [])

/-- What is left behind a number with a fraction, an exponent or both. -/
def pointed? (cs : List Char) : Option (List Char) := do
  let (negative, cs) := sign cs
  let (whole, rest) ← decimal? cs
  let (fraction, rest) ← fraction? rest
  let (exponent, rest) ← exponent? rest
  if fraction.isEmpty && exponent.isNone then none
  else if !negative && exceedsFinite (whole ++ fraction) (exponent.getD 0 - fraction.length) then
    none
  else some rest

/-- What is left behind a named number. -/
def named? (cs : List Char) : Option (List Char) :=
  match (sign cs).2 with
  | 'i' :: 'n' :: 'f' :: rest => some rest
  | 'n' :: 'a' :: 'n' :: rest => some rest
  | _ => none

/-- The text up to what is left of it. -/
def upTo (cs rest : List Char) : String := String.ofList (cs.take (cs.length - rest.length))

def float? (cs : List Char) : Option (String × List Char) :=
  ((pointed? cs).or (named? cs)).map fun rest => (upTo cs rest, rest)

/-! ## Dates and times -/

/-- A number of exactly `n` digits between two bounds. -/
def field? (n low high : Nat) (cs : List Char) : Option (Nat × List Char) :=
  let digits := cs.take n
  let value := numeral 10 digits
  if digits.length = n && digits.all Char.isDigit && low ≤ value && value ≤ high then
    some (value, cs.drop n)
  else none

/-- What follows a character. -/
def behind? (c : Char) : List Char → Option (List Char)
  | d :: rest => if d = c then some rest else none
  | [] => none

def daysIn (year month : Nat) : Nat :=
  if month = 2 then
    if year % 4 = 0 && (year % 100 ≠ 0 || year % 400 = 0) then 29 else 28
  else if [4, 6, 9, 11].contains month then 30 else 31

/-- What is left behind a date. -/
def date? (cs : List Char) : Option (List Char) := do
  let (year, cs) ← field? 4 0 9999 cs
  let (month, cs) ← field? 2 1 12 (← behind? '-' cs)
  let (_, cs) ← field? 2 1 (daysIn year month) (← behind? '-' cs)
  return cs

/-- What is left behind a time of day. -/
def time? (cs : List Char) : Option (List Char) := do
  let (_, cs) ← field? 2 0 23 cs
  let (_, cs) ← field? 2 0 59 (← behind? ':' cs)
  let (_, cs) ← field? 2 0 60 (← behind? ':' cs)
  match behind? '.' cs with
  | none => return cs
  | some cs => if (cs.head?.any Char.isDigit) then some (cs.dropWhile Char.isDigit) else none

/-- What is left behind the offset of a time, if there is one. -/
def offset? : List Char → Option (List Char)
  | c :: rest =>
    if c = 'Z' || c = 'z' then some rest
    else if c = '+' || c = '-' then do
      let (_, cs) ← field? 2 0 23 rest
      let (_, cs) ← field? 2 0 59 (← behind? ':' cs)
      return cs
    else some (c :: rest)
  | [] => some []

/-- What is left behind the time that may follow a date. -/
def timeOfDate? : List Char → Option (List Char)
  | c :: rest =>
    if c = 'T' || c = 't' then (time? rest).bind offset?
    else if c = ' ' then
      match time? rest with
      | some cs => offset? cs
      | none => some (c :: rest)
    else some (c :: rest)
  | [] => some []

def dateTime? (cs : List Char) : Option (String × List Char) :=
  (((date? cs).bind timeOfDate?).or (time? cs)).map fun rest => (upTo cs rest, rest)

end FrameCheck.Toml
