import FrameCheck.Toml.Number
import FrameCheck.Toml.Table
import FrameCheck.Toml.Text

/-!
# TOML documents

A document is read line by line: a header opens a table, and a line with a key and a value adds
to the table that was opened last. Lists may be spread over lines, and tables in braces may not.
Lists and tables in braces are nested at most `maxDepth` deep, and keys have at most `maxKeys`
parts. A text that breaks a rule anywhere is no document.

* `value?` : an item off the front of a text.
* `document?` : the table that a text describes.
-/

namespace FrameCheck.Toml

def maxDepth : Nat := 79
def maxKeys : Nat := 79

/-- The text without a comment at its front. -/
def skipComment : List Char → List Char
  | '#' :: rest => rest.dropWhile isPlain
  | cs => cs

/-- What is left behind blanks, a comment and the end of the line or of the text. -/
def restOfLine? (cs : List Char) : Option (List Char) :=
  match skipComment (skipBlanks cs) with
  | [] => some []
  | cs => lineEnd? cs

/-- What is left behind blanks, comments and ends of lines. -/
def skipGaps? (cs : List Char) : Option (List Char) :=
  match skipBlanks cs with
  | '#' :: rest =>
    match lineEnd? (skipComment ('#' :: rest)) with
    | some more => if more.length < cs.length then skipGaps? more else none
    | none => none
  | '\n' :: rest => if rest.length < cs.length then skipGaps? rest else none
  | '\r' :: rest =>
    match rest with
    | '\n' :: more => if more.length < cs.length then skipGaps? more else none
    | _ => none
  | cs => some cs
termination_by cs.length

/-- The parts of a key with dots between them, with blanks around them. -/
def keys? (cs : List Char) : Option (List String × List Char) := do
  let (key, rest) ← key? (skipBlanks cs)
  match skipBlanks rest with
  | '.' :: more =>
    if more.length < cs.length then
      let (keys, rest) ← keys? more
      return (key :: keys, rest)
    else none
  | rest => return ([key], rest)
termination_by cs.length

/-- A key of at most `maxKeys` parts. -/
def dottedKey? (cs : List Char) : Option (List String × List Char) :=
  (keys? cs).filter fun r => r.1.length ≤ maxKeys

/-- The items of a list up to its closing bracket, given how an item is read. -/
def items? (item? : List Char → Option (Item × List Char)) (cs : List Char) :
    Option (List Item × List Char) := do
  match ← skipGaps? cs with
  | ']' :: rest => return ([], rest)
  | start =>
    let (item, rest) ← item? start
    match ← skipGaps? rest with
    | ']' :: rest => return ([item], rest)
    | ',' :: rest =>
      if rest.length < cs.length then
        let (items, rest) ← items? item? rest
        return (item :: items, rest)
      else none
    | _ => none
termination_by cs.length

/-- A key with its value, given how an item is read, and what is left behind both. -/
def pair? (item? : List Char → Option (Item × List Char)) (cs : List Char) :
    Option ((List String × Item) × List Char) := do
  let (keys, rest) ← dottedKey? cs
  match rest with
  | '=' :: rest =>
    let (item, rest) ← item? (skipBlanks rest)
    return ((keys, item), rest)
  | _ => none

/-- The entries of a table in braces up to its closing brace, added to those before them. -/
def pairs? (item? : List Char → Option (Item × List Char)) (es : Entries) (cs : List Char) :
    Option (Entries × List Char) := do
  let ((keys, item), rest) ← pair? item? cs
  let es ← es.insertAt .braces keys item
  match skipBlanks rest with
  | '\x7d' :: rest => return (es, rest)
  | ',' :: rest => if rest.length < cs.length then pairs? item? es rest else none
  | _ => none
termination_by cs.length

/-- A table in braces, behind the opening brace. -/
def braces? (item? : List Char → Option (Item × List Char)) (cs : List Char) :
    Option (Entries × List Char) :=
  match skipBlanks cs with
  | '\x7d' :: rest => some ([], rest)
  | _ => pairs? item? [] cs

/-- A number, a date or a time. -/
def numeric? (cs : List Char) : Option (Item × List Char) :=
  match dateTime? cs with
  | some (text, rest) => some (.dateTime text, rest)
  | none =>
    match float? cs with
    | some (text, rest) => some (.float text, rest)
    | none => (integer? cs).map fun r => (.integer r.1, r.2)

/-- An item in which lists and tables are nested at most `depth` deep. -/
def value? (depth : Nat) (cs : List Char) : Option (Item × List Char) :=
  match cs with
  | '"' :: _ => (string? cs).map fun r => (.string r.1, r.2)
  | '\'' :: _ => (string? cs).map fun r => (.string r.1, r.2)
  | '[' :: rest =>
    match depth with
    | 0 => none
    | inner + 1 => (items? (value? inner) rest).map fun r => (.list r.1, r.2)
  | '\x7b' :: rest =>
    match depth with
    | 0 => none
    | inner + 1 => (braces? (value? inner) rest).map fun r => (.table .braces r.1, r.2)
  | 't' :: 'r' :: 'u' :: 'e' :: rest => some (.boolean true, rest)
  | 'f' :: 'a' :: 'l' :: 's' :: 'e' :: rest => some (.boolean false, rest)
  | _ => numeric? cs

/-- What is left behind the brackets that close a header. -/
def closeHeader? (doubled : Bool) (cs : List Char) : Option (List Char) := do
  let cs ← behind? ']' cs
  if doubled then behind? ']' cs else some cs

/-- The document that lines describe, when those before them have described `es` and opened the
table at `header`. -/
def lines? (es : Entries) (header : List String) (cs : List Char) : Option Entries := do
  match skipBlanks cs with
  | [] => return es
  | '[' :: rest =>
    let doubled := rest.head? = some '['
    let (keys, rest) ← dottedKey? (if doubled then rest.tail else rest)
    let rest ← restOfLine? (← closeHeader? doubled rest)
    let es ← if doubled then es.openRow keys else es.openTable keys
    if rest.length < cs.length then lines? es keys rest else none
  | start =>
    match restOfLine? start with
    | some rest => if rest.length < cs.length then lines? es header rest else none
    | none =>
      let ((keys, item), rest) ← pair? (value? maxDepth) start
      let rest ← restOfLine? rest
      let es ← es.define header keys item
      if rest.length < cs.length then lines? es header rest else none
termination_by cs.length

/-- The table that a text describes. A byte order mark may stand before it. -/
def document? (text : String) : Option Entries :=
  match text.toList with
  | '\ufeff' :: cs => lines? [] [] cs
  | cs => lines? [] [] cs

end FrameCheck.Toml
