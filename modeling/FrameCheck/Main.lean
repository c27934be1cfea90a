import FrameCheck.CommandLine.Run

/-!
# The program

The files of the machine, and a run on the arguments of the command line.
-/

namespace FrameCheck

/-- A path as the system takes it. -/
def Path.onDisk (p : Path) := (IO.FS.DirEntry.mk p.text "").root

/-- Why the system has refused to read a file. A code may come with its sign changed. -/
def FileError.ofSystem : IO.Error → FileError
  | .noFileOrDirectory .. => .missing
  | .inappropriateType _ code _ =>
    if code = 21 || -code = 21 then .isDirectory else .notDirectory
  | .invalidArgument _ code details =>
    if code = 36 || -code = 36 then .tooLong else .other details
  | e => .other (toString e)

def kindOnDisk? (p : Path) : IO (Option FileKind) := do
  try
    match (← p.onDisk.metadata).type with
    | .dir => return some .directory
    | _ => return some .file
  catch _ => return none

def readOnDisk (p : Path) : IO (Except FileError ByteArray) := do
  if p.holdsNul then return .error .holdsNul
  try
    return .ok (← IO.FS.readBinFile p.onDisk)
  catch e => return .error (FileError.ofSystem e)

/-- The files below a directory that is reached by `names`. What cannot be listed has none. -/
partial def filesBelow (dir : Path) (names : List String) : IO (List (List String)) := do
  try
    let mut found := []
    for entry in ← dir.onDisk.readDir do
      let here := dir.join entry.fileName
      let names := names ++ [entry.fileName]
      match (← here.onDisk.symlinkMetadata).type with
      | .dir => found := found ++ (← filesBelow here names)
      | .file => found := found ++ [names]
      | _ => pure ()
    return found
  catch _ => return []

def walkOnDisk (p : Path) : IO (List (List String)) := do
  match ← kindOnDisk? p with
  | some .file => return [[]]
  | some .directory => filesBelow p []
  | none => return []

/-- The files of the machine. -/
def filesOnDisk : FileAccess IO := ⟨kindOnDisk?, readOnDisk, walkOnDisk⟩

end FrameCheck

open FrameCheck in
def main (arguments : List String) : IO UInt32 := do
  let result ← runArguments filesOnDisk arguments
  IO.print result.output
  if let some text := result.errors then IO.eprint text
  return result.code.toUInt32
