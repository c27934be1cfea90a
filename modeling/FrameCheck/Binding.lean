import FrameCheck.Schema.Basic

/-!
# Bindings

A binding says what is known of the data that an expression stands for: its shape, its
schema and, where the schema was declared by a marker, the name of the marker. Of most
expressions nothing is known.

* `Binding.sameStructure` : equality up to where the schema came from.
* `Binding.navigate` : the nested binding under a column.
-/

namespace FrameCheck

inductive Shape where
  | dataFrame | groupBy | columnGroup | dataRow
deriving DecidableEq, Repr

def Shape.name : Shape → String
  | dataFrame => "DataFrame"
  | groupBy => "GroupBy"
  | columnGroup => "ColumnGroup"
  | dataRow => "DataRow"

inductive Binding where
  | unknown
  /-- `origin` is the marker that declared the schema. -/
  | known (shape : Shape) (schema : Schema) (origin : Option String)
deriving DecidableEq

namespace Binding

instance : Inhabited Binding := ⟨unknown⟩

def isKnown : Binding → Bool
  | unknown => false
  | known .. => true

def shape? : Binding → Option Shape
  | unknown => none
  | known shape _ _ => some shape

def schema? : Binding → Option Schema
  | unknown => none
  | known _ schema _ => some schema

def origin? : Binding → Option String
  | unknown => none
  | known _ _ origin => origin

def withShape (b : Binding) (shape : Shape) : Binding :=
  match b with
  | unknown => unknown
  | known _ schema origin => known shape schema origin

/-- How messages name a schema that no marker declared. -/
def inferredSchema : String := "inferred column set"

/-- The name of the schema in messages. -/
def describe (b : Binding) : String := b.origin?.getD inferredSchema

/-- The same shape and the same columns; unknown bindings have no structure to share. -/
def sameStructure : Binding → Binding → Bool
  | known a x _, known b y _ => a == b && decide (x = y)
  | _, _ => false

/-- The type of data of this shape, over its marker. -/
def frameType (b : Binding) : Option TypeRef :=
  b.shape?.map fun s => ⟨s.name, [TypeRef.simple (b.origin?.getD "*")], false⟩

/-- The shape of what is nested in a column, read from data of a shape. -/
def nestedShape? : Shape → ColumnKind → Option Shape
  | .dataFrame, .group | .columnGroup, .group => some .columnGroup
  | .dataRow, .group => some .dataRow
  | .dataRow, .frame => some .dataFrame
  | _, _ => none

/-- The data nested in the column `name`. -/
def navigate (b : Binding) (name : String) : Binding :=
  match b with
  | unknown => unknown
  | known shape schema _ =>
    match schema.lookup? name with
    | none => unknown
    | some column =>
      match column.children, nestedShape? shape column.kind with
      | some children, some nested =>
        known nested children (if column.type.isStar then none else some column.type.simpleName)
      | _, _ => unknown

end Binding

end FrameCheck
