import FrameCheck.Schema.Column

/-!
# Schemas and what can be done to them

A schema is an ordered list of columns whose names differ: `Schema.ofColumns` refuses a
list with a repeated name, and every operation keeps the names apart. Operations that
name columns fail with the first name that the schema lacks, or with the first that would
appear twice.

* `Schema.merge` : the ordered union of two schemas under a policy for shared names.
* `Schema.select` : some of the columns, in the order of the schema.
-/

namespace FrameCheck

/-- Why an operation on schemas failed. -/
inductive SchemaError where
  | duplicateColumn (name : String)
  /-- With the names of the schema that was searched, in its order. -/
  | unknownColumn (name : String) (candidates : List String)
  /-- A join without keys of two bindings that share no column name. -/
  | noCommonColumns (left right : String)
  /-- A column whose types in two stacked frames do not go together. -/
  | incompatibleColumns (name left right : String)
deriving DecidableEq, Repr

namespace SchemaError

def message : SchemaError → String
  | duplicateColumn name => s!"duplicate column '{name}'"
  | unknownColumn name _ => s!"column '{name}' does not exist"
  | noCommonColumns left right => s!"Cannot join {left} with {right}: no columns in common"
  | incompatibleColumns name left right =>
    s!"Cannot concat column '{name}': {left} is incompatible with {right}"

end SchemaError

/-- What becomes of a name that both schemas of a merge have. -/
inductive MergePolicy where
  | keep | overwrite | error
deriving DecidableEq, Repr

namespace Schema

def empty : Schema := ⟨[]⟩

def names (s : Schema) : List String := s.columns.map Column.name

def lookup? (s : Schema) (name : String) : Option Column :=
  s.columns.find? (·.name == name)

def contains (s : Schema) (name : String) : Bool := (s.lookup? name).isSome

/-- The column of that name, or the failure that lists the names there are. -/
def require (s : Schema) (name : String) : Except SchemaError Column :=
  match s.lookup? name with
  | some c => .ok c
  | none => .error (.unknownColumn name s.names)

/-- The first name that stands also earlier in the list. -/
def firstRepeated? : List String → List String → Option String
  | _, [] => none
  | seen, n :: ns => if seen.contains n then some n else firstRepeated? (seen ++ [n]) ns

/-- A schema of these columns, whose names must differ. -/
def ofColumns (columns : List Column) : Except SchemaError Schema :=
  match firstRepeated? [] (columns.map Column.name) with
  | some name => .error (.duplicateColumn name)
  | none => .ok ⟨columns⟩

/-- The columns with `added` in the place of the one of its name, or at the end. -/
def putColumn (added : Column) : List Column → List Column
  | [] => [added]
  | c :: cs => if c.name == added.name then added :: cs else c :: putColumn added cs

def withColumn (s : Schema) (added : Column) : Schema := ⟨putColumn added s.columns⟩

def withoutColumn (s : Schema) (name : String) : Schema :=
  ⟨s.columns.filter (·.name != name)⟩

/-- Fails for the first of the names that the schema lacks. -/
def requireAll (s : Schema) : List String → Except SchemaError Unit
  | [] => .ok ()
  | n :: ns =>
    match s.require n with
    | .ok _ => s.requireAll ns
    | .error e => .error e

/-- The named columns, in the order of the schema. -/
def select (s : Schema) (names : List String) : Except SchemaError Schema :=
  match s.requireAll names with
  | .ok () => .ok ⟨s.columns.filter fun c => names.contains c.name⟩
  | .error e => .error e

def rename (s : Schema) (old new : String) : Except SchemaError Schema :=
  match s.require old with
  | .error e => .error e
  | .ok _ =>
    if old ≠ new ∧ s.contains new then .error (.duplicateColumn new)
    else .ok ⟨s.columns.map fun c => if c.name == old then c.renamed new else c⟩

/-- Merges the columns of the second list into the first, one by one. -/
def mergeColumns (policy : MergePolicy) : List Column → List Column →
    Except SchemaError (List Column)
  | merged, [] => .ok merged
  | merged, c :: cs =>
    if merged.any (·.name == c.name) then
      match policy with
      | .keep => mergeColumns policy merged cs
      | .overwrite => mergeColumns policy (putColumn c merged) cs
      | .error => .error (.duplicateColumn c.name)
    else mergeColumns policy (merged ++ [c]) cs

/-- The columns of `s` followed by those of `t` with other names. -/
def merge (s t : Schema) (policy : MergePolicy) : Except SchemaError Schema :=
  (mergeColumns policy s.columns t.columns).map Schema.mk

def mapColumns (s : Schema) (f : Column → Column) : Schema := ⟨s.columns.map f⟩

/-- Every column with its type, in braces. -/
def display (s : Schema) : String :=
  let shown := s.columns.map fun c => c.name ++ ": " ++ c.displayType
  "\x7b" ++ ", ".intercalate shown ++ "\x7d"

end Schema

end FrameCheck
