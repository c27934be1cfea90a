import FrameCheck.Inference.Marker
import FrameCheck.Proofs.Inference.Rules
import FrameCheck.Proofs.Schema.Merging
import Mathlib.Data.List.Basic

/-!
# The columns of a marker, as its class lists them

A class is a list of parts : its supertypes, and then its properties. Each part asks for the
schema of at most one marker, and has entries to add. Of several entries of one name the
first stands, and a later one that differs from it is a conflict. So the schema of a class is
a function of the schemas that its parts are told of (`ClassDecl.schemaIn`), and the conflicts
are another (`ClassDecl.conflictsIn`); the query only asks and records.

* `MarkerQuery.ofClass_eq` : a class is built part by part.
* `MarkerQuery.addPart_eq` : a part asks, and then adds its entries.
* `Schema.lookup?_placed` : the column of a name is the first entry of that name.
-/

namespace FrameCheck

/-! ## Entries -/

/-- A column to be added, with the span at which a conflict is reported. -/
structure Entry where
  span : Span
  column : Column

namespace Schema

/-- Adds a column unless there is one of its name. -/
def put (s : Schema) (c : Column) : Schema :=
  match s.lookup? c.name with
  | none => s.withColumn c
  | some _ => s

/-- Adds entries in order. -/
def placed (s : Schema) : List Entry → Schema
  | [] => s
  | e :: es => (s.put e.column).placed es

/-- The conflict of an entry with the column of its name. -/
def clash? (marker : String) (s : Schema) (e : Entry) : Option Failure :=
  match s.lookup? e.column.name with
  | none => none
  | some known =>
    if known ≠ e.column then some ⟨e.span, .duplicateColumn e.column.name, marker⟩ else none

/-- The conflicts of entries that are added in order. -/
def clashes (marker : String) (s : Schema) : List Entry → List Failure
  | [] => []
  | e :: es => (s.clash? marker e).toList ++ (s.put e.column).clashes marker es

theorem lookup?_put (s : Schema) (c : Column) (name : String) :
    (s.put c).lookup? name = (s.lookup? name).or (if c.name = name then some c else none) := by
  unfold put
  cases h : s.lookup? c.name with
  | none =>
    rw [lookup?_withColumn]
    split
    · rename_i hn
      simp [← hn, h]
    · simp
  | some known =>
    by_cases hn : c.name = name
    · simp [← hn, h]
    · simp [hn]

/-- The column of a name is the one there was, or else the first entry of that name. -/
theorem lookup?_placed (name : String) : ∀ (es : List Entry) (s : Schema),
    (s.placed es).lookup? name =
      (s.lookup? name).or ((es.find? (·.column.name == name)).map Entry.column)
  | [], s => by simp [placed]
  | e :: es, s => by
    rw [placed, lookup?_placed name es, lookup?_put, Option.or_assoc]
    by_cases h : e.column.name = name <;> simp [h]

theorem placed_append (s : Schema) (es fs : List Entry) :
    s.placed (es ++ fs) = (s.placed es).placed fs := by
  induction es generalizing s with
  | nil => rfl
  | cons e es ih => exact ih _

theorem clashes_append (marker : String) (s : Schema) (es fs : List Entry) :
    s.clashes marker (es ++ fs) = s.clashes marker es ++ (s.placed es).clashes marker fs := by
  induction es generalizing s with
  | nil => rfl
  | cons e es ih => rw [List.cons_append, clashes, ih, clashes, placed, List.append_assoc]

theorem empty_lookup? (name : String) : empty.lookup? name = none := rfl

end Schema

/-! ## Parts of a class -/

/-- A part of a class that may add columns. -/
inductive ClassPart where
  | supertype (type : TypeRef)
  | property (decl : PropertyDecl)

namespace ClassPart

variable (names : Resolution)

/-- The name of the marker whose schema a part asks for. -/
def asked? : ClassPart → Option String
  | supertype t => some t.simpleName
  | property p =>
    match p.isStored, p.type.bind fun t => (MarkerQuery.nested t).2 with
    | true, some marker =>
      if (names.marker? marker.simpleName).isSome then some marker.simpleName else none
    | _, _ => none

/-- The column of a property type, where `children` is known of the marker that it names. -/
def columnOf (name : String) (type : TypeRef) (children : Option Schema) : Column :=
  match MarkerQuery.nested type with
  | (_, none) => Column.ofValues name type
  | (kind, some marker) =>
    if (names.marker? marker.simpleName).isSome then
      (MarkerQuery.nestedColumn name marker kind children).withNullable type.nullable
    else if marker.isStar && kind == .frame && type.simpleName != "List" then
      (Column.ofFrames name marker none).withNullable type.nullable
    else Column.ofValues name type

/-- The entries of a part of the class `c` that was told `answer`. -/
def entries (c : ClassDecl) (part : ClassPart) (answer : Option Schema) : List Entry :=
  match part with
  | supertype _ =>
    match answer with
    | some inherited => inherited.columns.map (Entry.mk c.nameSpan)
    | none => []
  | property p =>
    match p.isStored, p.type with
    | true, some type => [⟨p.nameSpan, columnOf names p.columnName type answer⟩]
    | _, _ => []

/-- The entries of a part where `known` gives the schemas of markers. -/
def entriesIn (known : String → Option Schema) (c : ClassDecl) (part : ClassPart) : List Entry :=
  part.entries names c ((part.asked? names).bind known)

variable {names}

/-- A property asks for a marker if it is stored and its type holds rows of that marker. -/
theorem asked?_property {p : PropertyDecl} {b : String} :
    (property p).asked? names = some b ↔ p.isStored = true ∧ ∃ type kind marker,
      p.type = some type ∧ MarkerQuery.nested type = (kind, some marker) ∧
        (names.marker? b).isSome = true ∧ marker.simpleName = b := by
  simp only [asked?]
  cases p.isStored with
  | false => simp
  | true =>
    cases p.type with
    | none => simp
    | some type =>
      rcases h : MarkerQuery.nested type with ⟨kind, _ | marker⟩
      · simp [h]
      · simp only [Option.bind_some, h]
        constructor
        · intro hb
          split at hb
          · cases hb
            exact ⟨trivial, type, kind, marker, rfl, h, ‹_›, rfl⟩
          · simp at hb
        · rintro ⟨-, type', kind', marker', ht, hn, hm, rfl⟩
          cases ht
          cases h.symm.trans hn
          simp [hm]

theorem columnOf_name (name : String) (type : TypeRef) (children : Option Schema) :
    (columnOf names name type children).name = name := by
  unfold columnOf
  split
  · rfl
  · rename_i kind marker _
    split
    · cases kind <;> cases children <;> rfl
    · split <;> rfl

end ClassPart

namespace ClassDecl

variable (names : Resolution) (known : String → Option Schema) (c : ClassDecl)

/-- Supertypes, and then properties. -/
def parts : List ClassPart :=
  c.supertypes.map .supertype ++ c.properties.map .property

def entriesIn : List Entry := c.parts.flatMap (ClassPart.entriesIn names known c)

/-- The schema of a class where `known` gives those of the markers that it mentions. -/
def schemaIn : Schema := Schema.empty.placed (c.entriesIn names known)

def conflictsIn : List Failure := Schema.empty.clashes c.name (c.entriesIn names known)

variable {names known c}

/-- Only what the parts ask for matters. -/
theorem entriesIn_congr {known' : String → Option Schema}
    (h : ∀ part ∈ c.parts, ∀ j ∈ part.asked? names, known j = known' j) :
    c.entriesIn names known = c.entriesIn names known' := by
  refine List.flatMap_congr fun part hp => ?_
  unfold ClassPart.entriesIn
  cases ha : part.asked? names with
  | none => rfl
  | some j => rw [Option.bind_some, Option.bind_some, h part hp j ha]

end ClassDecl

/-! ## Parts in turn -/

namespace MarkerQuery

variable (names : Resolution) (schemaOf : MarkerQuery) (c : ClassDecl)

/-- Asks for the schema of a marker, if one is named. -/
def askIf : Option String → Query (Option Schema)
  | some name => schemaOf name
  | none => return none

/-- Adds entries, and records their conflicts. -/
def addEntries (schema : Schema) (es : List Entry) : Query Schema :=
  es.foldlM (fun s e => addColumn c.name e.span s e.column) schema

/-- Adds the columns of a part. -/
def addPart (schema : Schema) : ClassPart → Query Schema
  | .supertype t => addSupertype schemaOf c schema t
  | .property p => addProperty names schemaOf c schema p

theorem ofClass_eq :
    ofClass names schemaOf c = c.parts.foldlM (addPart names schemaOf c) Schema.empty := by
  rw [ClassDecl.parts, List.foldlM_append, List.foldlM_map]
  simp only [List.foldlM_map]
  rfl

theorem addColumn_run (schema : Schema) (e : Entry) (m : Memo) :
    addColumn c.name e.span schema e.column m = some (schema.put e.column,
      { m with markerFailures := m.markerFailures ++ (schema.clash? c.name e).toList }) := by
  unfold addColumn Schema.put Schema.clash?
  cases schema.lookup? e.column.name with
  | none => simp [Query.pure_run]
  | some known =>
    by_cases h : known = e.column
    · simp [h, Query.pure_run]
    · simp only [ne_eq, h, not_false_eq_true, if_true]
      rfl

theorem addEntries_run : ∀ (es : List Entry) (schema : Schema) (m : Memo),
    addEntries c schema es m = some (schema.placed es,
      { m with markerFailures := m.markerFailures ++ schema.clashes c.name es })
  | [], schema, m => by simp [addEntries, Schema.placed, Schema.clashes, Query.pure_run]
  | e :: es, schema, m => by
    rw [addEntries, List.foldlM_cons]
    refine Query.bind_eq_some.2 ⟨_, _, addColumn_run c schema e m, ?_⟩
    rw [← addEntries, addEntries_run es]
    simp [Schema.placed, Schema.clashes]

/-- A part asks its question, and then adds the entries that follow from the answer. -/
theorem addPart_eq (schema : Schema) (part : ClassPart) :
    addPart names schemaOf c schema part = askIf schemaOf (part.asked? names) >>= fun answer =>
      addEntries c schema (part.entries names c answer) := by
  cases part with
  | supertype t =>
    simp only [addPart, addSupertype, ClassPart.asked?, askIf]
    congr 1
    funext answer
    cases answer with
    | none => rfl
    | some inherited =>
      simp [addEntries, ClassPart.entries, List.foldlM_map]
  | property p =>
    simp only [addPart, addProperty, ClassPart.asked?, ClassPart.entries]
    cases p.isStored with
    | false => rfl
    | true =>
      cases p.type with
      | none => rfl
      | some type =>
        simp only [Option.bind_some, column, ClassPart.columnOf]
        rcases nested type with ⟨kind, _ | marker⟩
        · simp [askIf, addEntries]
        · by_cases hm : (names.marker? marker.simpleName).isSome
          · simp [askIf, addEntries, hm]
          · simp only [hm, Bool.false_eq_true, if_false]
            split <;> simp [askIf, addEntries]

end MarkerQuery

end FrameCheck
