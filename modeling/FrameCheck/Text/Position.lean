import FrameCheck.Text.Span

/-!
# Lines and columns

A byte offset has a line and a column, both counted from one; columns count characters.
Lines end with a line feed. An offset inside of a character has no column of its own and is
given the number of bytes from the start of its line; an offset past the end is the end.
-/

namespace FrameCheck

structure Position where
  line : Nat
  column : Nat
deriving DecidableEq, Repr

namespace Position

/-- The position of `offset` in a text of which `cs` is left from offset `pos` on, when `pos`
itself is at `here` and its line starts at offset `lineStart`. -/
def locateFrom (offset pos lineStart : Nat) (here : Position) : List Char → Position
  | [] => here
  | c :: cs =>
    if offset ≤ pos then here
    else if offset < pos + c.utf8Size then ⟨here.line, offset - lineStart + 1⟩
    else if c = '\n' then locateFrom offset (pos + 1) (pos + 1) ⟨here.line + 1, 1⟩ cs
    else locateFrom offset (pos + c.utf8Size) lineStart ⟨here.line, here.column + 1⟩ cs

/-- The position of a byte offset in a text. -/
def ofOffset (text : List Char) (offset : Nat) : Position :=
  locateFrom offset 0 0 ⟨1, 1⟩ text

end Position

namespace Text

/-- The lines of a text, without their ends; a line feed, or a carriage return and a line
feed, ends a line, and behind the last line feed there is no empty line. -/
def lines : List Char → List (List Char)
  | [] => []
  | c :: cs =>
    let line := (c :: cs).takeWhile (· != '\n')
    match h : (c :: cs).dropWhile (· != '\n') with
    | [] => [line]
    | _ :: rest =>
      have : rest.length ≤ cs.length := by
        have hl := (List.dropWhile_suffix (l := c :: cs) (· != '\n')).length_le
        rw [h] at hl
        exact Nat.le_of_succ_le_succ hl
      (if line.getLast? = some '\r' then line.dropLast else line) :: lines rest
termination_by cs => cs.length

end Text

end FrameCheck
