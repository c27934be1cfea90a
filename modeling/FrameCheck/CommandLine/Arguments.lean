import FrameCheck.Files.Path

/-!
# Arguments of the command line

There are two commands: `check` takes files and may be given a format, and `verify` takes a
directory. Options can stand anywhere behind the command, and behind `--` there are no options.
Arguments are read from the left; what does not fit is an error of usage, and a question for help
or for the version counts if it comes before the first error.
-/

namespace FrameCheck

/-- A form of the diagnostics of `check`. -/
inductive ReportFormat where
  | text | json
deriving DecidableEq, Repr

def ReportFormat.ofName? (name : String) : Option ReportFormat :=
  if name = "text" then some .text else if name = "json" then some .json else none

inductive Command where
  | check (files : List Path) (format : ReportFormat)
  | verify (dir : Path)
  | version
  | help
deriving DecidableEq, Repr

namespace Command

/-- Whether an argument is an option, and not a file or a directory. -/
def isOption (arg : String) : Bool := arg.toList.head? = some '-' && arg.length > 1

/-- Whether an argument starts with a one-letter option. -/
def startsWithFlag (letter : Char) (arg : String) : Bool := ['-', letter].isPrefixOf arg.toList

def isHelp (arg : String) : Bool := arg == "--help" || startsWithFlag 'h' arg

/-- The option that is followed by a format. -/
def formatOption : String := "--format"

/-- The name of the format that is joined to its option. -/
def joinedFormat? (arg : String) : Option String :=
  let option := (formatOption ++ "=").toList
  if option.isPrefixOf arg.toList then some (String.ofList (arg.toList.drop option.length))
  else none

/-- The command to check some files. -/
def checkFiles? (files : List String) (format : Option ReportFormat) : Option Command :=
  if files.isEmpty || files.contains "" then none
  else some (.check (files.map Path.ofText) (format.getD .text))

/-- The command `check`, when some files and perhaps a format are read already. -/
def ofCheckArguments? (files : List String) (format : Option ReportFormat) :
    List String → Option Command
  | [] => checkFiles? files format
  | arg :: rest =>
    if arg = "--" then checkFiles? (files ++ rest) format
    else if arg = formatOption then
      match rest with
      | name :: rest =>
        match format, ReportFormat.ofName? name with
        | none, some f => ofCheckArguments? files (some f) rest
        | _, _ => none
      | [] => none
    else if isHelp arg then some .help
    else
      match joinedFormat? arg with
      | some name =>
        match format, ReportFormat.ofName? name with
        | none, some f => ofCheckArguments? files (some f) rest
        | _, _ => none
      | none =>
        if isOption arg || arg = "" then none
        else ofCheckArguments? (files ++ [arg]) format rest

/-- The command to verify a directory. -/
def verifyDirectory? : List String → Option Command
  | [dir] => if dir = "" then none else some (.verify (Path.ofText dir))
  | _ => none

/-- The command `verify`, when perhaps a directory is read already. -/
def ofVerifyArguments? (dir : List String) : List String → Option Command
  | [] => verifyDirectory? dir
  | arg :: rest =>
    if arg = "--" then verifyDirectory? (dir ++ rest)
    else if isHelp arg then some .help
    else if isOption arg || arg = "" || !dir.isEmpty then none
    else ofVerifyArguments? [arg] rest

/-- The command `help`, which takes at most the name of one command. -/
def helpOn? : List String → Option Command
  | [] => some .help
  | [name] => if name ∈ ["check", "verify", "help"] then some .help else none
  | _ => none

/-- The command that arguments give. -/
def ofArguments? : List String → Option Command
  | [] => none
  | arg :: rest =>
    if arg = "check" then ofCheckArguments? [] none rest
    else if arg = "verify" then ofVerifyArguments? [] rest
    else if arg = "help" then helpOn? rest
    else if arg = "--version" || startsWithFlag 'V' arg then some .version
    else if isHelp arg then some .help
    else none

end Command

end FrameCheck
