import FrameCheck.Inference.Memo
import FrameCheck.Operation.Apply

/-!
# The schemas of markers

A marker has the columns of its supertypes and those of its own stored properties. Declaring
a column once more is allowed if nothing about it changes; otherwise the first declaration
stands and a failure is recorded. A property over another marker is a group or a frame
column. While a marker is being built it has no schema, so a marker that leads back to itself
gets a frame column with unknown columns there.

* `Program.markerSchema` : the schema of a marker.
* `Program.bindingOfType` : the binding that a written type such as `DataFrame<Person>` gives.
-/

namespace FrameCheck

/-- Answers for the schemas of other markers. -/
abbrev MarkerQuery : Type := String → Query (Option Schema)

namespace MarkerQuery

/-- The kind of nested rows that a property type stands for, with the type of their marker. -/
def nested (type : TypeRef) : ColumnKind × Option TypeRef :=
  if type.simpleName ∈ ["DataRow", "ColumnGroup"] then (.group, type.arg? 0)
  else if type.simpleName ∈ ["DataFrame", "List"] then (.frame, type.arg? 0)
  else if type.simpleName = "AnyFrame" then (.frame, some .star)
  else (.group, some type.nonNull)

/-- A group without known columns cannot be expanded and becomes a frame column. -/
def nestedColumn (name : String) (marker : TypeRef) : ColumnKind → Option Schema → Column
  | .group, some children => .ofGroup name marker children
  | _, children => .ofFrames name marker children

/-- The column of a property. -/
def column (names : Resolution) (schemaOf : MarkerQuery) (name : String) (type : TypeRef) :
    Query Column := do
  let values := Column.ofValues name type
  match nested type with
  | (_, none) => return values
  | (kind, some marker) =>
    if (names.marker? marker.simpleName).isSome then
      let children ← schemaOf marker.simpleName
      return (nestedColumn name marker kind children).withNullable type.nullable
    else if marker.isStar && kind == .frame && type.simpleName != "List" then
      return (Column.ofFrames name marker none).withNullable type.nullable
    else return values

/-- Adds a column to the schema of `marker`. A conflict is recorded at `span`. -/
def addColumn (marker : String) (span : Span) (schema : Schema) (column : Column) :
    Query Schema :=
  match schema.lookup? column.name with
  | none => return schema.withColumn column
  | some known => do
    if known ≠ column then
      Query.recordMarker ⟨span, .duplicateColumn column.name, marker⟩
    return schema

/-- Adds the columns of a supertype, if it is a marker. -/
def addSupertype (schemaOf : MarkerQuery) (c : ClassDecl) (schema : Schema)
    (supertype : TypeRef) : Query Schema := do
  match ← schemaOf supertype.simpleName with
  | some inherited => inherited.columns.foldlM (addColumn c.name c.nameSpan) schema
  | none => return schema

/-- Adds the column of a property, if it has a type and is stored. -/
def addProperty (names : Resolution) (schemaOf : MarkerQuery) (c : ClassDecl) (schema : Schema)
    (p : PropertyDecl) : Query Schema := do
  match p.isStored, p.type with
  | true, some type =>
    let column ← column names schemaOf p.columnName type
    addColumn c.name p.nameSpan schema column
  | _, _ => return schema

/-- The schema that a class declares. -/
def ofClass (names : Resolution) (schemaOf : MarkerQuery) (c : ClassDecl) : Query Schema := do
  let inherited ← c.supertypes.foldlM (addSupertype schemaOf c) Schema.empty
  c.properties.foldlM (addProperty names schemaOf c) inherited

/-- The schema of a marker; `depth` bounds the markers that may be open at a time. -/
def ofDepth (names : Resolution) : Nat → MarkerQuery
  | 0, _ => Query.endless
  | depth + 1, name => do
    let m ← Query.memo
    match m.markers[name]? with
    | some schema => return some schema
    | none =>
      if m.openMarkers.contains name then return none
      match names.marker? name with
      | none => return none
      | some c =>
        Query.openMarker name
        let schema ← ofClass names (ofDepth names depth) c
        Query.closeMarker name schema
        return some schema

end MarkerQuery

namespace Program

variable (p : Program)

/-- The schema that the marker `name` declares. Each marker is open at most once at a time. -/
def markerSchema (name : String) : Query (Option Schema) :=
  MarkerQuery.ofDepth p.names (p.names.markers.size + 1) name

def shapeOfType? (type : TypeRef) : Option Shape :=
  if type.simpleName = "DataFrame" then some .dataFrame
  else if type.simpleName = "DataRow" then some .dataRow
  else if type.simpleName = "ColumnGroup" then some .columnGroup
  else if type.simpleName = "GroupBy" then some .groupBy
  else none

/-- The binding of a type over markers. The groups of a `GroupBy` are a column of frames. -/
def bindingOfType (type : TypeRef) : Query (Option Binding) := do
  match shapeOfType? type, (type.arg? 0).filter fun a => !a.isStar with
  | some shape, some marker =>
    match ← p.markerSchema marker.simpleName with
    | none => return none
    | some schema =>
      if shape = .groupBy then
        let groups := (type.arg? 1).getD .star
        let rows ← p.markerSchema groups.simpleName
        let column := Column.ofFrames OperationCall.groupColumn groups rows
        return some (.known shape (schema.withColumn column) (some marker.simpleName))
      else return some (.known shape schema (some marker.simpleName))
  | _, _ => return none

end Program

end FrameCheck
