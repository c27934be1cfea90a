/-!
# JSON texts

JSON values with natural numbers, and their texts with one item on a line, two blanks deeper for
each level. Only quotes, backslashes and control characters are escaped.
-/

namespace FrameCheck

inductive Json where
  | number (n : Nat)
  | text (s : String)
  | list (items : List Json)
  | record (fields : List (String × Json))
deriving Repr

namespace Json

/-- The last `width` hexadecimal digits of a number. -/
def hexDigits (width n : Nat) : List Char :=
  let digits := Nat.toDigits 16 n
  List.replicate (width - digits.length) '0' ++ digits

def escapeChar (c : Char) : List Char :=
  match c with
  | '"' => ['\\', '"']
  | '\\' => ['\\', '\\']
  | '\x08' => ['\\', 'b']
  | '\x0c' => ['\\', 'f']
  | '\n' => ['\\', 'n']
  | '\r' => ['\\', 'r']
  | '\t' => ['\\', 't']
  | _ => if c.toNat < 32 then ['\\', 'u'] ++ hexDigits 4 c.toNat else [c]

def renderText (s : String) : String :=
  String.ofList ('"' :: s.toList.flatMap escapeChar ++ ['"'])

def indent (depth : Nat) : String := String.ofList (List.replicate (2 * depth) ' ')

/-- Items between brackets, each on a line of its own. -/
def bracket (depth : Nat) (left right : String) (items : List String) : String :=
  if items.isEmpty then left ++ right
  else
    left ++ "\n" ++ ",\n".intercalate (items.map (indent (depth + 1) ++ ·)) ++ "\n" ++ indent depth
      ++ right

mutual

/-- The text of a value that stands `depth` levels deep. -/
def render (depth : Nat) : Json → String
  | number n => toString n
  | text s => renderText s
  | list items => bracket depth "[" "]" (renderItems (depth + 1) items)
  | record fields => bracket depth "\x7b" "\x7d" (renderFields (depth + 1) fields)

def renderItems (depth : Nat) : List Json → List String
  | [] => []
  | item :: rest => item.render depth :: renderItems depth rest

def renderFields (depth : Nat) : List (String × Json) → List String
  | [] => []
  | (key, value) :: rest =>
    (renderText key ++ ": " ++ value.render depth) :: renderFields depth rest

end

end Json

end FrameCheck
