import FrameCheck.Parse.State

/-!
# Parsing types

The rules of the language are functions of a `Grammar`, which holds the parsers for what
may be nested: types, expressions and the statements of a block. A rule goes to the grammar
only behind a token that it has consumed, so the tokens of a text bound the nesting.

* `typeRef` : a type, such as `Map<String, out a.B?>`.
* `callTypeArgs` : the type arguments of a call, as opposed to a comparison.
-/

namespace FrameCheck

/-- The parsers for nested parts. -/
structure Grammar where
  type : Parser TypeRef
  expr : Parser Expr
  /-- The statements of a block, up to and past the brace that closes it. -/
  stmts : Parser (List Stmt)

namespace TokenKind

/-- The spelling of a name token; keywords have none. -/
def plainName? : TokenKind → Option String
  | name s => some s
  | _ => none

end TokenKind

namespace Parser

/-- Further segments of a dotted type name; the last one before a parenthesis is left, for
it names a function. -/
def typeSegments (name : String) : Parser String :=
  loop (fun name => do
    let c ← cursor
    if c.kind.isMark .dot && (c.kindAt 1).plainName?.isSome
        && !(c.kindAt 2).isMark .leftParen then
      let _ ← advance
      let (segment, _) ← expectName
      return .next (name ++ "." ++ segment)
    else return .stop name) name

/-- A variance mark says nothing about schemas. -/
def skipVariance : Parser Unit := do
  let c ← cursor
  if (c.kind.isName "out" || c.kind.isName "in") && (c.kindAt 1).plainName?.isSome then
    let _ ← advance

variable (g : Grammar)

/-- The type arguments behind an opening angle bracket. -/
def typeArgs : Parser (List TypeRef) := do
  let args ← loop (fun (args : List TypeRef) => do
    skipVariance
    let arg ← g.type
    if ← eat .comma then return .next (args ++ [arg]) else return .stop (args ++ [arg])) []
  let _ ← expect .greater
  return args

def typeRef : Parser TypeRef := do
  if ← eat .star then return TypeRef.star
  let (first, _) ← expectName
  let name ← typeSegments first
  let args ← if ← eat .less then typeArgs g else pure []
  let nullable ← eat .question
  return ⟨name, args, nullable⟩

/-- Type arguments that a call follows. Otherwise the angle bracket is a comparison, and the
cursor stays before it. -/
def callTypeArgs : Parser (Option (List TypeRef)) := do
  let start ← cursor
  let args ← attempt do
    let _ ← advance
    loop (fun (args : List TypeRef) => do
      let arg ← typeRef g
      if ← eat .comma then return .next (args ++ [arg])
      let _ ← expect .greater
      let k ← kind
      if k.isMark .leftParen || k.isMark .leftBrace then return .stop (args ++ [arg])
      else fail) []
  if args.isNone then moveTo start
  return args

end Parser

end FrameCheck
