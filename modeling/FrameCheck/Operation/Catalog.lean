import FrameCheck.Operation.Basic
import Std.Data.TreeMap

/-!
# The catalog of operations

A catalog holds the rules in the order of registration, and an index that leads from a receiver
and the name of an operation to the positions of its rules. A call finds the one rule that accepts
its number of arguments; a name with a single rule is found with any number, so that the rule can
say what is wrong.

* `Catalog.lookup` : the rule for a call.
* `Catalog.standard` : the operations of the library.
-/

namespace FrameCheck

/-- Positions of rules under the names of their operations. -/
abbrev PositionTable : Type := Std.TreeMap String (List Nat)

/-- A table for each kind of receiver. -/
structure RuleIndex where
  ofFrames : PositionTable
  ofGroups : PositionTable
  ofTopLevel : PositionTable

namespace RuleIndex

def empty : RuleIndex := ⟨∅, ∅, ∅⟩

def table (index : RuleIndex) : ReceiverKind → PositionTable
  | .dataFrame => index.ofFrames
  | .groupBy => index.ofGroups
  | .topLevel => index.ofTopLevel

def setTable (index : RuleIndex) (receiver : ReceiverKind) (table : PositionTable) : RuleIndex :=
  match receiver with
  | .dataFrame => { index with ofFrames := table }
  | .groupBy => { index with ofGroups := table }
  | .topLevel => { index with ofTopLevel := table }

/-- The positions under one name, the earliest first. -/
def positions (index : RuleIndex) (receiver : ReceiverKind) (name : String) : List Nat :=
  (index.table receiver).getD name []

def insert (index : RuleIndex) (receiver : ReceiverKind) (name : String) (position : Nat) :
    RuleIndex :=
  index.setTable receiver
    ((index.table receiver).insert name (index.positions receiver name ++ [position]))

theorem table_setTable (index : RuleIndex) (a b : ReceiverKind) (t : PositionTable) :
    (index.setTable a t).table b = if a = b then t else index.table b := by
  cases a <;> cases b <;> rfl

@[simp] theorem positions_empty (receiver : ReceiverKind) (name : String) :
    empty.positions receiver name = [] := by
  cases receiver <;> simp [empty, positions, table]

/-- A position is added behind those of its receiver and name, and to no others. -/
theorem positions_insert (index : RuleIndex) (receiver : ReceiverKind) (name : String)
    (position : Nat) (receiver' : ReceiverKind) (name' : String) :
    (index.insert receiver name position).positions receiver' name' =
      if receiver = receiver' ∧ name = name' then index.positions receiver' name' ++ [position]
      else index.positions receiver' name' := by
  unfold insert positions
  rw [table_setTable]
  by_cases hr : receiver = receiver'
  · subst hr
    rw [if_pos rfl, Std.TreeMap.getD_insert]
    by_cases hn : name = name'
    · subst hn
      simp
    · simp [hn]
  · simp [hr]

end RuleIndex

structure Catalog where
  rules : Array OperationRule
  index : RuleIndex
  /-- The index leads to rules only. -/
  valid : ∀ receiver name, ∀ i ∈ index.positions receiver name, i < rules.size

/-- No operation, or more than one, fits a call. -/
structure Unrecognized where
  name : String
deriving DecidableEq, Repr

def Unrecognized.message (u : Unrecognized) : String :=
  s!"call '{u.name}' is not a recognized dataframe operation"

namespace Catalog

def empty : Catalog := ⟨#[], .empty, by simp⟩

/-- The rules of one name, the earliest first. -/
def candidates (c : Catalog) (receiver : ReceiverKind) (name : String) : List OperationRule :=
  (c.index.positions receiver name).pmap (fun i (_ : i < c.rules.size) => c.rules[i])
    (c.valid receiver name)

def register (c : Catalog) (rule : OperationRule) : Catalog where
  rules := c.rules.push rule
  index := c.index.insert rule.receiver rule.name c.rules.size
  valid receiver name i hi := by
    rw [Array.size_push]
    rw [RuleIndex.positions_insert] at hi
    split at hi
    · obtain hi | hi := List.mem_append.1 hi
      · exact Nat.lt_succ_of_lt (c.valid receiver name i hi)
      · exact Nat.lt_succ_of_le (Nat.le_of_eq (List.mem_singleton.1 hi))
    · exact Nat.lt_succ_of_lt (c.valid receiver name i hi)

/-- The rule that accepts the count, if it is the only one, and otherwise the only rule. -/
def choose (count : Nat) (rules : List OperationRule) : Option OperationRule :=
  match rules.filter (·.arity.accepts count), rules with
  | [rule], _ => some rule
  | [], [rule] => some rule
  | _, _ => none

def lookup (c : Catalog) (receiver : ReceiverKind) (name : String) (count : Nat) :
    Except Unrecognized OperationRule :=
  match choose count (c.candidates receiver name) with
  | some rule => .ok rule
  | none => .error ⟨name⟩

/-- The rule for a call; a function that the program declares is no operation. -/
def lookupCall (c : Catalog) (receiver : ReceiverKind) (name : String) (count : Nat)
    (userDefined : Bool) : Except Unrecognized OperationRule :=
  if userDefined then .error ⟨name⟩ else c.lookup receiver name count

def standardRules : List OperationRule :=
  [⟨.dataFrame, "select", .atLeast 1, .select, .dataFrame⟩,
   ⟨.dataFrame, "distinct", .atLeast 0, .distinct, .dataFrame⟩,
   ⟨.dataFrame, "remove", .atLeast 1, .remove, .dataFrame⟩,
   ⟨.dataFrame, "rename", .exact 2, .rename, .dataFrame⟩,
   ⟨.dataFrame, "add", .range 1 2, .add, .dataFrame⟩,
   ⟨.dataFrame, "update", .range 1 2, .update, .dataFrame⟩,
   ⟨.dataFrame, "join", .atLeast 1, .join, .dataFrame⟩,
   ⟨.dataFrame, "concat", .exact 1, .concat, .dataFrame⟩,
   ⟨.dataFrame, "groupBy", .atLeast 1, .groupBy, .groupBy⟩,
   ⟨.groupBy, "count", .exact 0, .groupCount, .dataFrame⟩,
   ⟨.groupBy, "toDataFrame", .exact 0, .groupToDataFrame, .dataFrame⟩,
   ⟨.dataFrame, "sortBy", .atLeast 1, .sortBy, .dataFrame⟩,
   ⟨.dataFrame, "sortByDesc", .atLeast 1, .sortBy, .dataFrame⟩,
   ⟨.dataFrame, "dropNulls", .atLeast 0, .dropNulls, .dataFrame⟩,
   ⟨.dataFrame, "filter", .exact 1, .passthrough, .dataFrame⟩,
   ⟨.dataFrame, "head", .range 0 1, .passthrough, .dataFrame⟩,
   ⟨.dataFrame, "tail", .range 0 1, .passthrough, .dataFrame⟩,
   ⟨.dataFrame, "take", .exact 1, .passthrough, .dataFrame⟩,
   ⟨.dataFrame, "drop", .exact 1, .passthrough, .dataFrame⟩,
   ⟨.dataFrame, "shuffle", .exact 0, .passthrough, .dataFrame⟩,
   ⟨.dataFrame, "first", .range 0 1, .row, .dataRow⟩,
   ⟨.dataFrame, "last", .range 0 1, .row, .dataRow⟩,
   ⟨.dataFrame, "cast", .exact 0, .cast, .dataFrame⟩,
   ⟨.topLevel, "emptyDataFrame", .exact 0, .emptyDataFrame, .dataFrame⟩,
   ⟨.topLevel, "dataFrameOf", .atLeast 1, .dataFrameOf, .dataFrame⟩]

def ofRules (rules : List OperationRule) : Catalog := rules.foldl register empty

def standard : Catalog := ofRules standardRules

end Catalog

end FrameCheck
