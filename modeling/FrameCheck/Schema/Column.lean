import FrameCheck.TypeRef

/-!
# Columns

A column has a name, a type without nullability, and a content: plain values, a group of
columns, or a frame in each cell. For groups and frames the type names the marker of the
nested rows; a frame may have columns that are not known. A `Schema` is a list of columns.

* `Column.valueType` : the type of one cell.
-/

namespace FrameCheck

mutual

structure Column where
  name : String
  content : Content
  /-- The type of the values, or the marker of the nested rows; never nullable itself. -/
  type : TypeRef
  nullable : Bool

inductive Content where
  | value
  | group (children : Schema)
  /-- The nested columns, if they are known. -/
  | frame (children : Option Schema)

/-- Columns in order. -/
structure Schema where
  columns : List Column

end

instance : Inhabited Schema := ⟨⟨[]⟩⟩
instance : Inhabited Column := ⟨⟨"", .value, default, false⟩⟩

mutual

def Column.decEq : (a b : Column) → Decidable (a = b)
  | ⟨n, c, t, k⟩, ⟨m, d, u, l⟩ =>
    if h : n = m ∧ t = u ∧ k = l then
      match Content.decEq c d with
      | isTrue hc => isTrue (by rw [h.1, h.2.1, h.2.2, hc])
      | isFalse hc => isFalse fun e => hc (congrArg Column.content e)
    else isFalse fun e => h ⟨congrArg Column.name e, congrArg Column.type e,
      congrArg Column.nullable e⟩

def Content.decEq : (a b : Content) → Decidable (a = b)
  | .value, .value => isTrue rfl
  | .group s, .group t =>
    match Schema.decEq s t with
    | isTrue h => isTrue (by rw [h])
    | isFalse h => isFalse fun e => h (Content.group.inj e)
  | .frame none, .frame none => isTrue rfl
  | .frame (some s), .frame (some t) =>
    match Schema.decEq s t with
    | isTrue h => isTrue (by rw [h])
    | isFalse h => isFalse fun e => h (Option.some.inj (Content.frame.inj e))
  | .frame none, .frame (some _) => isFalse nofun
  | .frame (some _), .frame none => isFalse nofun
  | .value, .group _ => isFalse nofun
  | .value, .frame _ => isFalse nofun
  | .group _, .value => isFalse nofun
  | .group _, .frame _ => isFalse nofun
  | .frame _, .value => isFalse nofun
  | .frame _, .group _ => isFalse nofun

def Schema.decEq : (a b : Schema) → Decidable (a = b)
  | ⟨cs⟩, ⟨ds⟩ =>
    match Schema.decEqColumns cs ds with
    | isTrue h => isTrue (by rw [h])
    | isFalse h => isFalse fun e => h (congrArg Schema.columns e)

def Schema.decEqColumns : (as bs : List Column) → Decidable (as = bs)
  | [], [] => isTrue rfl
  | [], _ :: _ => isFalse nofun
  | _ :: _, [] => isFalse nofun
  | a :: as, b :: bs =>
    match Column.decEq a b with
    | isTrue h =>
      match Schema.decEqColumns as bs with
      | isTrue h2 => isTrue (by rw [h, h2])
      | isFalse h2 => isFalse fun e => h2 (List.cons.inj e).2
    | isFalse h => isFalse fun e => h (List.cons.inj e).1

end

instance : DecidableEq Column := Column.decEq
instance : DecidableEq Content := Content.decEq
instance : DecidableEq Schema := Schema.decEq

/-- The kinds of columns. -/
inductive ColumnKind where
  | value | group | frame
deriving DecidableEq, Repr

def Content.kind : Content → ColumnKind
  | value => .value
  | group _ => .group
  | frame _ => .frame

namespace Column

/-- A column of plain values, nullable if its type is. -/
def ofValues (name : String) (type : TypeRef) : Column :=
  ⟨name, .value, type.nonNull, type.nullable⟩

def ofGroup (name : String) (marker : TypeRef) (children : Schema) : Column :=
  ⟨name, .group children, marker.nonNull, false⟩

def ofFrames (name : String) (marker : TypeRef) (children : Option Schema) : Column :=
  ⟨name, .frame children, marker.nonNull, false⟩

def kind (c : Column) : ColumnKind := c.content.kind

/-- The nested columns, if there are any that are known. -/
def children (c : Column) : Option Schema :=
  match c.content with
  | .value => none
  | .group s => some s
  | .frame s => s

def withNullable (c : Column) (nullable : Bool) : Column := { c with nullable }

def renamed (c : Column) (name : String) : Column := { c with name }

/-- The type of one cell. -/
def valueType (c : Column) : TypeRef :=
  match c.content with
  | .value => c.type.withNullable c.nullable
  | .group _ => ⟨"DataRow", [c.type], false⟩
  | .frame _ => ⟨"DataFrame", [c.type], false⟩

def displayType (c : Column) : String :=
  match c.content with
  | .value => c.valueType.display
  | .group _ => s!"ColumnGroup<{c.type.display}>"
  | .frame _ => s!"DataFrame<{c.type.display}>"

end Column

end FrameCheck
