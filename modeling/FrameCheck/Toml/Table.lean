/-!
# TOML values and tables

A document is a table of keys and items. A table keeps how it came about, because that decides
what may be added to it: a table in braces is complete, one with a header of its own cannot be
reached by dotted keys, and one that a header or a dotted key has only passed through can still
be filled (`Entries.update`). `Entries.openTable`, `Entries.openRow` and `Entries.define` are what
a header, a doubled header and a line with a key and a value do to a document; they fail where
something would be defined twice.
-/

namespace FrameCheck.Toml

/-- How a table came about. -/
inductive Origin where
  /-- Written in braces. -/
  | braces
  /-- By a header, or as the document itself. -/
  | header
  /-- On the way to a table with a header. -/
  | implied
  /-- By a dotted key. -/
  | dotted
deriving DecidableEq, Repr

inductive Item where
  | string (text : String)
  | integer (value : Int)
  /-- A number with a fraction, an exponent or a name, as it is written. -/
  | float (text : String)
  | boolean (value : Bool)
  /-- A date, a time or both, as it is written. -/
  | dateTime (text : String)
  | list (items : List Item)
  /-- The rows of a table with doubled headers. -/
  | rows (rows : List (List (String × Item)))
  | table (origin : Origin) (entries : List (String × Item))
deriving Repr

abbrev Entries := List (String × Item)

namespace Entries

/-- The entries with another item at a key that is there. -/
def replace (es : Entries) (key : String) (item : Item) : Entries :=
  es.map fun e => if e.1 = key then (key, item) else e

/-- Changes the table at the end of a path, by dotted keys or by headers. Where nothing is on
the path yet, tables are made; in a table of rows the path leads to the last row. -/
def update (dotted : Bool) (change : Origin → Entries → Option Entries) (origin : Origin) :
    List String → Entries → Option Entries
  | [], es => change origin es
  | key :: path, es =>
    match es.lookup key with
    | none => do
      let made := if dotted then .dotted else .implied
      return es ++ [(key, .table made (← update dotted change made path []))]
    | some (.table o inner) =>
      if o = .braces || (dotted && o = .header) then none
      else return es.replace key (.table o (← update dotted change o path inner))
    | some (.rows rows) =>
      match rows.getLast? with
      | none => none
      | some row =>
        return es.replace key (.rows (rows.dropLast ++ [← update dotted change .header path row]))
    | some _ => none

/-- Adds a key. Behind dotted keys the table has to be one made by dotted keys, and otherwise it
must not be. -/
def insertNew (behindDots : Bool) (key : String) (item : Item) (origin : Origin) (es : Entries) :
    Option Entries :=
  if (origin = .dotted) != behindDots || (es.lookup key).isSome then none
  else some (es ++ [(key, item)])

/-- Adds an item at the end of dotted keys. -/
def insertAt (origin : Origin) (keys : List String) (item : Item) (es : Entries) :
    Option Entries := do
  let key ← keys.getLast?
  update true (insertNew (keys.length > 1) key item) origin keys.dropLast es

/-- Adds an item at the end of dotted keys, in the table that the last header has opened. -/
def define (document : Entries) (header : List String) (keys : List String) (item : Item) :
    Option Entries :=
  update false (fun origin es => es.insertAt origin keys item) .header header document

/-- Gives a key a table with a header. -/
def openAt (key : String) (_ : Origin) (es : Entries) : Option Entries :=
  match es.lookup key with
  | none => some (es ++ [(key, .table .header [])])
  | some (.table .implied inner) => some (es.replace key (.table .header inner))
  | some _ => none

/-- Gives the table of rows at a key one more row. -/
def openRowAt (key : String) (_ : Origin) (es : Entries) : Option Entries :=
  match es.lookup key with
  | none => some (es ++ [(key, .rows [[]])])
  | some (.rows rows) => some (es.replace key (.rows (rows ++ [[]])))
  | some _ => none

/-- Opens the table of a header. -/
def openTable (document : Entries) (header : List String) : Option Entries := do
  let key ← header.getLast?
  update false (openAt key) .header header.dropLast document

/-- Opens a new row of the table of a doubled header. -/
def openRow (document : Entries) (header : List String) : Option Entries := do
  let key ← header.getLast?
  update false (openRowAt key) .header header.dropLast document

end Entries

end FrameCheck.Toml
