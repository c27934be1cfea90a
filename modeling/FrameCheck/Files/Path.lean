import FrameCheck.Text.Search

/-!
# Paths

A path is a text of pieces between slashes. Empty pieces and the pieces `.` lead nowhere, but
they belong to the text, and what is done to a path leaves the text before its last piece as it
was written. A `.` at the front is the exception: it is a component, as is the slash of an
absolute path, so both are kept apart from the pieces as the `Lead` of the path.

* `Path.parent?` : the path without its last component.
* `Path.components` : where the path leads, step by step.
* `Path.text_ofText` : a path keeps the text that it was read from.
-/

namespace FrameCheck

/-- What stands before the pieces of a path. -/
inductive Path.Lead where
  | nothing | root | here
deriving DecidableEq, Repr

structure Path where
  lead : Path.Lead
  pieces : List String
deriving DecidableEq, Repr

/-- A step on the way to where a path leads. -/
inductive Path.Component where
  | root | here | up
  | name (name : String)
deriving DecidableEq, Repr

namespace Path

def Lead.text : Lead → String
  | nothing => ""
  | root => "/"
  | here => "."

def text (p : Path) : String := p.lead.text ++ "/".intercalate p.pieces

/-- The lead of a text and what follows it. -/
def splitLead (cs : List Char) : Lead × List Char :=
  match cs with
  | '/' :: rest => (.root, rest)
  | ['.'] => (.here, [])
  | '.' :: '/' :: rest => (.here, '/' :: rest)
  | _ => (.nothing, cs)

def ofText (text : String) : Path :=
  let (lead, body) := splitLead text.toList
  ⟨lead, (Text.splitAt '/' body).map String.ofList⟩

/-- Whether the text holds the character that ends a path for the system. -/
def holdsNul (p : Path) : Bool := p.text.toList.contains '\x00'

/-! ## Components -/

/-- Whether a piece leads nowhere. -/
def isVoid (piece : String) : Bool := piece == "" || piece == "."

def Component.ofPiece? (piece : String) : Option Component :=
  if isVoid piece then none else if piece == ".." then some .up else some (.name piece)

def Lead.component? : Lead → Option Component
  | nothing => none
  | root => some .root
  | here => some .here

def Component.text : Component → String
  | root => "/"
  | here => "."
  | up => ".."
  | name s => s

def components (p : Path) : List Component :=
  p.lead.component?.toList ++ p.pieces.filterMap Component.ofPiece?

/-- The pieces from the last to the first, from the last one that leads somewhere. -/
def piecesFromEnd (p : Path) : List String := p.pieces.reverse.dropWhile isVoid

/-- Whether pieces that lead nowhere stand at the end, so that only a directory can be meant. -/
def endsVoid (p : Path) : Bool := p.pieces.length > 1 && p.pieces.getLast?.any isVoid

/-- The path without its last component. -/
def parent? (p : Path) : Option Path :=
  match p.piecesFromEnd with
  | _ :: above => some ⟨p.lead, (above.dropWhile isVoid).reverse⟩
  | [] => if p.lead = .here then some ⟨.nothing, []⟩ else none

/-- What decreases from a path to its parent. -/
def depth (p : Path) : Nat := p.pieces.length + if p.lead = .here then 1 else 0

theorem depth_lt_of_parent? {p q : Path} (h : p.parent? = some q) : q.depth < p.depth := by
  have hl := (List.dropWhile_suffix (l := p.pieces.reverse) isVoid).length_le
  simp only [parent?, piecesFromEnd] at h
  split at h
  · next above heq =>
    simp only [Option.some.injEq] at h
    subst h
    have hm := (List.dropWhile_suffix (l := above) isVoid).length_le
    rw [heq] at hl
    simp only [depth, List.length_reverse, List.length_cons] at *
    omega
  · split at h
    · next hh =>
      simp only [Option.some.injEq] at h
      subst h
      simp [depth, hh]
    · simp at h

/-- The path itself, its parent, the parent of that, and so on. -/
def ancestors (p : Path) : List Path :=
  match h : p.parent? with
  | some q =>
    have : q.depth < p.depth := depth_lt_of_parent? h
    p :: ancestors q
  | none => [p]
termination_by p.depth

/-- The path of an entry of a directory. -/
def join (p : Path) (name : String) : Path :=
  let cs := p.text.toList
  ofText (if cs.isEmpty || cs.getLast? = some '/' then p.text ++ name else p.text ++ "/" ++ name)

/-! ## Names of files -/

/-- The name of what the path leads to, if its last component is a name. -/
def fileName? (p : Path) : Option String :=
  p.piecesFromEnd.head?.filter fun piece => piece != ".."

/-- A name as its stem and its extension, which starts behind the last dot. A dot at the front
starts no extension. -/
def splitExtension (name : String) : String × Option String :=
  let reversed := name.toList.reverse
  match reversed.dropWhile (· != '.') with
  | _ :: c :: stem =>
    (String.ofList (c :: stem).reverse,
      some (String.ofList (reversed.takeWhile (· != '.')).reverse))
  | _ => (name, none)

def extension? (p : Path) : Option String := p.fileName?.bind fun name => (splitExtension name).2

/-- The path with the stem of its last name in place of that name. The stem `.` is no name, and
where the text of the path ends with it, the dot of the extension stays too. -/
def withoutExtension (p : Path) : Path :=
  match p.piecesFromEnd with
  | last :: above =>
    if last = ".." then p
    else
      let stem := (splitExtension last).1
      let kept := if stem = "." && !p.endsVoid then ".." else stem
      ofText (Path.text ⟨p.lead, (kept :: above).reverse⟩)
  | [] => p

/-! ## A path keeps its text -/

theorem intercalate_map_ofList (pieces : List (List Char)) :
    "/".intercalate (pieces.map String.ofList) = String.ofList (['/'].intercalate pieces) := by
  apply String.toList_inj.1
  simp [String.toList_intercalate, List.map_map, Function.comp_def]

@[simp] theorem text_ofText (text : String) : (ofText text).text = text := by
  apply String.toList_inj.1
  simp only [ofText, Path.text, intercalate_map_ofList, Text.intercalate_splitAt,
    String.toList_append, String.toList_ofList]
  unfold splitLead
  split <;> simp_all [Lead.text]

end Path

end FrameCheck
