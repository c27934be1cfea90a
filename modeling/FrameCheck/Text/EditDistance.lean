/-!
# Edit distance

The least number of insertions, deletions and substitutions of single characters that turn
one text into another, computed row by row: row `i` holds the distances from the first `i`
characters of one text to all prefixes of the other.

* `editDistance` : the distance.
* `closest?` : the nearest of some candidates, the first of them on a tie.
-/

namespace FrameCheck

/-- The entries of a row behind its first one. `left` is the entry before, `diagonal` the one
above it, and the list the entries above those that are to come. -/
def editRow (a : Char) (left diagonal : Nat) : List Char → List Nat → List Nat
  | b :: bs, above :: rest =>
    let entry := min (min (above + 1) (left + 1)) (diagonal + if a = b then 0 else 1)
    entry :: editRow a entry above bs rest
  | _, _ => []

/-- The row below, for one more character `a`. -/
def nextEditRow (bs : List Char) (row : List Nat) (a : Char) : List Nat :=
  match row with
  | [] => []
  | first :: rest => (first + 1) :: editRow a (first + 1) first bs rest

def editDistance (a b : String) : Nat :=
  let bs := b.toList
  ((a.toList.foldl (nextEditRow bs) (List.range (bs.length + 1))).getLast?).getD 0

/-- The nearer of two candidates with their distances, the first on a tie. -/
def nearer (best : Option (String × Nat)) (next : String × Nat) : Option (String × Nat) :=
  match best with
  | some b => if next.2 < b.2 then some next else some b
  | none => some next

/-- The candidate nearest to `name` among those no further away than `limit`. -/
def closest? (name : String) (candidates : List String) (limit : Nat) : Option String :=
  let near := (candidates.map fun c => (c, editDistance name c)).filter (·.2 ≤ limit)
  (near.foldl nearer none).map Prod.fst

end FrameCheck
