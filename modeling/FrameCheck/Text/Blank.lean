import FrameCheck.Text.Alphabetic

/-!
# Blanks

The characters with the property White_Space, and what is left of a text without those at
its ends.
-/

namespace FrameCheck.Text

/-- Code points with the property White_Space, as closed ranges. -/
def blankRanges : Array (Nat × Nat) := #[
  (0x9, 0xd), (0x20, 0x20), (0x85, 0x85), (0xa0, 0xa0), (0x1680, 0x1680), (0x2000, 0x200a),
  (0x2028, 0x2029), (0x202f, 0x202f), (0x205f, 0x205f), (0x3000, 0x3000)]

def isBlank (c : Char) : Bool := inRanges blankRanges c

/-- The text without the blanks before it. -/
def trimStart (cs : List Char) : List Char := cs.dropWhile isBlank

/-- The text without the blanks around it. -/
def trim (cs : List Char) : List Char := ((trimStart cs).reverse.dropWhile isBlank).reverse

end FrameCheck.Text
