import FrameCheck.Files.Path

/-!
# Access to files

What the checker has to know of files is whether a path leads to a file or to a directory, what
a file contains, and which files are below a directory. `FileAccess m` gives the three, each in
the monad `m`: the files of a machine are asked in `IO`, those of a value of type `FileTree` are
looked up in `Id`.
-/

namespace FrameCheck

inductive FileKind where
  | file | directory
deriving DecidableEq, Repr

/-- Why a file cannot be read. -/
inductive FileError where
  | missing | notDirectory | isDirectory | notText
  /-- A name, or the path itself, has more bytes than the system takes. -/
  | tooLong
  /-- The path holds the character that ends a path for the system. -/
  | holdsNul
  | other (text : String)
deriving DecidableEq, Repr

def FileError.message : FileError → String
  | missing => "No such file or directory (os error 2)"
  | notDirectory => "Not a directory (os error 20)"
  | isDirectory => "Is a directory (os error 21)"
  | notText => "stream did not contain valid UTF-8"
  | tooLong => "File name too long (os error 36)"
  | holdsNul => "file name contained an unexpected NUL byte"
  | other text => text

structure FileAccess (m : Type → Type) where
  kind? : Path → m (Option FileKind)
  read : Path → m (Except FileError ByteArray)
  /-- The files at or below a path, each as the names that lead to it from there, in any order. -/
  walk : Path → m (List (List String))

/-- The content of a file as a text. -/
def FileAccess.readText {m : Type → Type} [Monad m] (files : FileAccess m) (p : Path) :
    m (Except FileError String) := do
  match ← files.read p with
  | .error e => return .error e
  | .ok content =>
    match String.fromUTF8? content with
    | some text => return .ok text
    | none => return .error .notText

end FrameCheck
