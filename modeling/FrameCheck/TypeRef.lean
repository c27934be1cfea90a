/-!
# Types as they are written

A `TypeRef` is a possibly qualified name with type arguments and a mark for nullability.
Types are compared by the last segment of their names, so `kotlin.Int` and `Int` are the
same type to `isAssignableTo`; the name `*` stands for a type that is not known, which
goes everywhere. The six numeric types are ordered by widening.

* `isAssignableTo` : whether a value of one type may stand where another is expected.
* `widenNumeric` : the type of an arithmetic result.
-/

namespace FrameCheck

structure TypeRef where
  name : String
  args : List TypeRef
  nullable : Bool
deriving Inhabited

namespace TypeRef

mutual

def decEq : (a b : TypeRef) → Decidable (a = b)
  | ⟨n, as, k⟩, ⟨m, bs, l⟩ =>
    if hn : n = m then
      if hk : k = l then
        match decEqList as bs with
        | isTrue h => isTrue (by rw [hn, hk, h])
        | isFalse h => isFalse fun e => h (congrArg args e)
      else isFalse fun e => hk (congrArg nullable e)
    else isFalse fun e => hn (congrArg name e)

def decEqList : (as bs : List TypeRef) → Decidable (as = bs)
  | [], [] => isTrue rfl
  | [], _ :: _ => isFalse nofun
  | _ :: _, [] => isFalse nofun
  | a :: as, b :: bs =>
    match decEq a b with
    | isTrue h =>
      match decEqList as bs with
      | isTrue h2 => isTrue (by rw [h, h2])
      | isFalse h2 => isFalse fun e => h2 (List.cons.inj e).2
    | isFalse h => isFalse fun e => h (List.cons.inj e).1

end

instance : DecidableEq TypeRef := decEq

/-- A type without arguments. -/
def simple (name : String) : TypeRef := ⟨name, [], false⟩

/-- The type that is not known. -/
def star : TypeRef := simple "*"

def isStar (t : TypeRef) : Bool := t.name == "*"

def withNullable (t : TypeRef) (nullable : Bool) : TypeRef := { t with nullable }

def nonNull (t : TypeRef) : TypeRef := t.withNullable false

/-- The last segment of a dotted name. -/
def lastSegment (name : String) : String :=
  String.ofList ((name.toList.reverse.takeWhile (· != '.')).reverse)

def simpleName (t : TypeRef) : String := lastSegment t.name

def arg? (t : TypeRef) (i : Nat) : Option TypeRef := t.args[i]?

/-! ### Numeric types -/

/-- The numeric types, from narrow to wide. -/
def numericNames : List String := ["Byte", "Short", "Int", "Long", "Float", "Double"]

/-- The place of a numeric type in the order of widening. -/
def numericRank? (t : TypeRef) : Option Nat :=
  numericNames.findIdx? (· == t.simpleName)

def isNumeric (t : TypeRef) : Bool := t.numericRank?.isSome

/-- The numeric type of an arithmetic result on two types, which is at least `Int`. -/
def widenNumeric (a b : TypeRef) : Option TypeRef := do
  let i ← a.numericRank?
  let j ← b.numericRank?
  (numericNames[max (max i j) 2]?).map simple

/-! ### Assignability -/

mutual

/-- Whether a value of type `t` may stand where `expected` is required. -/
def isAssignableTo (t expected : TypeRef) : Bool :=
  match t with
  | ⟨name, args, nullable⟩ =>
    if name == "*" || expected.isStar then true
    else if nullable && !expected.nullable then false
    else if expected.simpleName == "Any" then true
    else if expected.simpleName == "Number" then isNumeric ⟨name, args, nullable⟩
    else if expected.simpleName == "Comparable" then
      isNumeric ⟨name, args, nullable⟩ || ["String", "Char"].contains (lastSegment name)
    else expected.simpleName == lastSegment name
      && (expected.args.isEmpty || args.isEmpty || areAssignableTo args expected.args)

/-- Pairwise, on lists of one length. -/
def areAssignableTo : List TypeRef → List TypeRef → Bool
  | [], [] => true
  | a :: as, e :: es => isAssignableTo a e && areAssignableTo as es
  | _, _ => false

end

/-! ### Text -/

mutual

/-- The type by simple names, such as `Map<String, Int?>`. -/
def display : TypeRef → String
  | ⟨name, args, nullable⟩ =>
    let shown := if args.isEmpty then "" else "<" ++ displayArgs args ++ ">"
    lastSegment name ++ shown ++ if nullable then "?" else ""

/-- The types with a comma and a blank between them. -/
def displayArgs : List TypeRef → String
  | [] => ""
  | [a] => display a
  | a :: b :: rest => display a ++ ", " ++ displayArgs (b :: rest)

end

end TypeRef

end FrameCheck
