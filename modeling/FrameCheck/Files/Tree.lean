import FrameCheck.Files.Basic

/-!
# File trees

A file tree as a value: the places that are there, each given by the names that lead to it from
the top, with a file or a directory at it. The top is the working directory, and the slash of an
absolute path leads to it too. Names and paths have limits: names that are too long lead nowhere,
and a path that is too long is not looked up at all.

* `FileTree.resolve` : the place that a path leads to, which needs a directory before each step.
* `FileTree.access` : the tree as files that can be asked.
-/

namespace FrameCheck

inductive FileNode where
  | file (content : ByteArray)
  | directory

/-- The names that lead to a place from the top. -/
abbrev Place := List String

structure FileTree where
  nodes : List (Place × FileNode) := []

namespace FileTree

def node? (t : FileTree) : Place → Option FileNode
  | [] => some .directory
  | place => t.nodes.lookup place

/-- The place that a component leads to. -/
def step (place : Place) : Path.Component → Place
  | .root => []
  | .here => place
  | .up => place.dropLast
  | .name name => place ++ [name]

/-- The most bytes that a name can have. -/
def nameLimit : Nat := 255

/-- The most bytes that the text of a path can have. -/
def pathLimit : Nat := 4095

/-- The place that is reached from another one. -/
def resolveFrom (t : FileTree) (place : Place) :
    List Path.Component → Except FileError (Place × FileNode)
  | [] =>
    match t.node? place with
    | some node => .ok (place, node)
    | none => .error .missing
  | c :: rest =>
    match t.node? place with
    | some .directory =>
      if nameLimit < c.text.utf8ByteSize then .error .tooLong
      else resolveFrom t (step place c) rest
    | some (.file _) => .error .notDirectory
    | none => .error .missing

/-- The place that a path leads to, and what is there. -/
def resolve (t : FileTree) (p : Path) : Except FileError (Place × FileNode) :=
  if p.holdsNul then .error .holdsNul
  else if pathLimit < p.text.utf8ByteSize then .error .tooLong
  else if p.components.isEmpty then .error .missing
  else
    match t.resolveFrom [] p.components with
    | .ok (place, .file content) =>
      if p.endsVoid then .error .notDirectory else .ok (place, .file content)
    | result => result

def kind? (t : FileTree) (p : Path) : Option FileKind :=
  match t.resolve p with
  | .ok (_, .file _) => some .file
  | .ok (_, .directory) => some .directory
  | .error _ => none

def read (t : FileTree) (p : Path) : Except FileError ByteArray :=
  match t.resolve p with
  | .ok (_, .file content) => .ok content
  | .ok (_, .directory) => .error .isDirectory
  | .error e => .error e

/-- What is left of a place below another one. -/
def below? : Place → Place → Option Place
  | [], place => some place
  | a :: as, b :: bs => if a = b then below? as bs else none
  | _ :: _, [] => none

/-- Whether the directories on the way from a path to a place below it can be listed, that is
whether the longest of their paths, which is the last, is not too long. -/
def canList (p : Path) (names : Place) : Bool :=
  (names.dropLast.foldl Path.join p).text.utf8ByteSize ≤ pathLimit

def walk (t : FileTree) (p : Path) : List Place :=
  match t.resolve p with
  | .ok (_, .file _) => [[]]
  | .ok (top, .directory) => t.nodes.filterMap fun (place, node) =>
      match node with
      | .file _ => (below? top place).filter (canList p)
      | .directory => none
  | .error _ => []

/-- The tree as files that can be asked. -/
def access (t : FileTree) : FileAccess Id := ⟨t.kind?, t.read, t.walk⟩

/-! ## Changes -/

/-- The tree with a node at a place, in place of one that is there. -/
def insert (t : FileTree) (place : Place) (node : FileNode) : FileTree :=
  ⟨(place, node) :: t.nodes.filter fun entry => entry.1 != place⟩

/-- The places above a place, the top left out. -/
def above (place : Place) : List Place := ((List.range place.length).drop 1).map place.take

/-- The tree with a file, and with the directories above it. -/
def write (t : FileTree) (p : Path) (content : ByteArray) : FileTree :=
  let place := p.components.foldl step []
  let withDirectories := (above place).foldl
    (fun t d => if (t.node? d).isSome then t else t.insert d .directory) t
  withDirectories.insert place (.file content)

/-- The tree without what is at a path. -/
def remove (t : FileTree) (p : Path) : FileTree :=
  let place := p.components.foldl step []
  ⟨t.nodes.filter fun entry => entry.1 != place⟩

end FileTree

end FrameCheck
