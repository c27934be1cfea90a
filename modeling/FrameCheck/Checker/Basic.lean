import FrameCheck.Checker.Visit
import FrameCheck.Diagnostic
import FrameCheck.Inference.Basic
import FrameCheck.Parse.Unit
import FrameCheck.Text.EditDistance

/-!
# Checking a unit

The checker visits the places of a unit in order, asks what their receivers are bound to, and
collects findings: columns that do not exist, types that do not fit, column names that
collide with members of frames, and the failures that inference has recorded. Where a
receiver is unknown nothing is found. The report puts the findings in order and drops those
that the options or a comment in the source exclude.

* `Program.findings` : what is found in a unit.
* `analyze` : the report on a text.
-/

namespace FrameCheck

structure CheckerOptions where
  /-- Report warnings and infos, and not only errors. -/
  warnings : Bool := true
  /-- How far off a name may be to be suggested. -/
  maxSuggestionDistance : Nat := 2
  /-- Report reads of frames without a marker. -/
  reportUntracked : Bool := false
deriving DecidableEq, Repr

structure Finding where
  code : Code
  span : Span
  message : String
deriving DecidableEq, Repr

/-- The member properties of frames and column groups. -/
def frameMembers : List String :=
  ["columnNames", "columns", "columnTypes", "columnsCount", "rowsCount", "indices", "nrow",
   "ncol", "size", "schema", "rows", "isEmpty", "isNotEmpty", "lastIndex"]

/-- The member properties of rows. -/
def rowMembers : List String := ["index", "df", "prev", "next", "values"]

/-- Whether data of a shape has a member property of that name. -/
def Shape.hasMember (s : Shape) (name : String) : Bool :=
  match s with
  | .dataRow => rowMembers.contains name
  | .dataFrame | .columnGroup => frameMembers.contains name
  | .groupBy => true

/-- A type of frames that names no marker. -/
def TypeRef.isUntrackedFrame (t : TypeRef) : Bool :=
  t.simpleName == "AnyFrame" || (t.simpleName == "DataFrame" && t.args.all TypeRef.isStar)

/-! ## Messages -/

/-- That a column does not exist, with the nearest name that does. -/
def unknownColumnMessage (limit : Nat) (name subject : String) (candidates : List String) :
    String :=
  let suggestion := match closest? name candidates limit with
    | some best => s!" (did you mean '{best}'?)"
    | none => ""
  s!"Column '{name}' does not exist in {subject}{suggestion}"

/-- The finding that a recorded failure amounts to. -/
def Failure.finding (limit : Nat) (f : Failure) : Finding :=
  match f.error with
  | .unknownColumn name candidates =>
    ⟨.unknownColumn, f.span, unknownColumnMessage limit name f.subject candidates⟩
  | .duplicateColumn name =>
    ⟨.duplicateColumn, f.span, s!"Duplicate column '{name}' in {f.subject}"⟩
  | e => ⟨.schemaError, f.span, e.message⟩

/-- The kind of data of which a column name is also a member. -/
def shadowedOwner? (column : String) : Option String :=
  if frameMembers.contains column then some "DataFrame"
  else if rowMembers.contains column then some "DataRow"
  else none

/-- The stored properties of a marker whose column names are also members. -/
def ClassDecl.shadowFindings (c : ClassDecl) : List Finding :=
  (c.properties.filter PropertyDecl.isStored).filterMap fun p =>
    let column := p.columnName
    (shadowedOwner? column).map fun owner =>
      ⟨.columnNameShadowsMember, p.nameSpan,
        s!"Column name '{column}' in {c.name} shadows the {owner} member '{column}'; "
          ++ s!"access the column as [\"{column}\"]"⟩

/-! ## Findings -/

namespace Program

variable (p : Program) (options : CheckerOptions)

/-- A read from a frame that has no marker, if those are reported. -/
def untrackedFindings (access receiver : Expr) (name : String) : List Finding :=
  if (p.names.typeOf? receiver).any TypeRef.isUntrackedFrame then
    [⟨.untrackedDataframe, access.span,
      s!"Column '{name}' is read from a DataFrame without a schema marker; it cannot be checked"⟩]
  else []

/-- A column of a type that does not fit what the context of the access expects. -/
def typeFindings (access : Expr) (column : Column) : Query (List Finding) := do
  match p.names.expected? access with
  | none => return []
  | some expected =>
    match ← p.typeOf access with
    | none => return []
    | some actual =>
      if actual.isAssignableTo expected then return []
      else return [⟨.columnTypeMismatch, access.span,
        s!"Column '{column.name}' has type {column.displayType}, "
          ++ s!"which is not compatible with the expected type {expected.display}"⟩]

/-- Whether `name` is read as a member property and not as a column. -/
def readsMember (shape : Shape) (name : String) : Bool :=
  shape.hasMember name || (p.names.extensionProperty? name).isSome

def columnFindings (access receiver : Expr) (name : String) (indexed : Bool) :
    Query (List Finding) := do
  match ← p.bindingOf receiver with
  | .unknown =>
    if indexed && options.reportUntracked then return p.untrackedFindings access receiver name
    else return []
  | .known shape schema origin =>
    if (!indexed && p.readsMember shape name) || shape == .groupBy then return []
    match schema.lookup? name with
    | some column => p.typeFindings access column
    | none =>
      let subject := (Binding.known shape schema origin).describe
      return [⟨.unknownColumn, access.span,
        unknownColumnMessage options.maxSuggestionDistance name subject schema.names⟩]

/-- What is found at one place. A call is only inferred, for its failure to be recorded. -/
def visitFindings : Visit → Query (List Finding)
  | .marker c => do
    let _ ← p.markerSchema c.name
    return c.shadowFindings
  | .call e => do
    let _ ← p.bindingOf e
    return []
  | .column access receiver name indexed => p.columnFindings options access receiver name indexed

def visitAll : List Visit → Query (List Finding)
  | [] => return []
  | v :: rest => do
    let found ← p.visitFindings options v
    return found ++ (← visitAll rest)

/-- What is found at all places, and what inference has recorded meanwhile. -/
def findings (visits : List Visit) : Query (List Finding) := do
  let found ← p.visitAll options visits
  let m ← Query.memo
  return found ++ m.failures.map (Failure.finding options.maxSuggestionDistance)

end Program

/-! ## The report -/

namespace CheckerOptions

/-- Whether the options and the source let a diagnostic through. -/
def admits (options : CheckerOptions) (text : List Char) (d : Diagnostic) : Bool :=
  (options.warnings || d.severity == .error)
    && !isSuppressed text d.start.line d.code && !isSuppressed text d.stop.line d.code

end CheckerOptions

/-- The diagnostics for a unit that was read from a text, unless its initializers refer to
each other without end. -/
def SourceUnit.check (u : SourceUnit) (text : String) (options : CheckerOptions) :
    Option (List Diagnostic) :=
  ((Program.ofUnit u).findings options u.visits Memo.empty).map fun (found, _) =>
    let cs := text.toList
    Diagnostic.report <|
      (found.map fun f => Diagnostic.ofSpan cs f.code f.span f.message).filter (options.admits cs)

/-- Why a text cannot be checked. -/
inductive AnalysisError where
  | scan (error : ScanError)
  /-- Initializers refer to each other without end. -/
  | endless
deriving DecidableEq, Repr

def AnalysisError.message : AnalysisError → String
  | scan e => e.report
  | endless => "Initializers refer to each other without end"

/-- The diagnostics for a text. -/
def analyze (text : String) (options : CheckerOptions) : Except AnalysisError (List Diagnostic) :=
  match SourceUnit.ofText text with
  | .error e => .error (.scan e)
  | .ok u =>
    match u.check text options with
    | some ds => .ok ds
    | none => .error .endless

end FrameCheck
