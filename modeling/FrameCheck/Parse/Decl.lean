import FrameCheck.Parse.Expr

/-!
# Parsing declarations and statements

Statements and declarations that do not parse are skipped up to the next separator or
closing brace outside of brackets, and their spans are recorded. A skipped `val` or `var`
still declares its name where one can be read, so that later uses of the name do not find
an outer declaration instead.

* `statements` : the statements of a block.
* `item` : a declaration at the top level.
* `sourceUnit` : all items of a text.
-/

namespace FrameCheck

/-- The getter of an extension property, as a function of its receiver. -/
def ValDecl.getterFunction (v : ValDecl) : FunDecl :=
  ⟨v.decl, v.name, v.receiver, [], v.type, v.getter, true, v.span⟩

namespace TokenKind

/-- A keyword that marks a declaration and changes nothing here. -/
def isModifierKeyword : TokenKind → Bool
  | keyword k => k.isSoft && k != .dataKw
  | _ => false

/-- A name that marks a declaration where one follows. -/
def isModifierName : TokenKind → Bool
  | name s => ["sealed", "inline", "const", "lateinit"].contains s
  | _ => false

def isOpening (k : TokenKind) : Bool :=
  k.isMark .leftParen || k.isMark .leftBrace || k.isMark .leftBracket

def isClosing (k : TokenKind) : Bool :=
  k.isMark .rightParen || k.isMark .rightBrace || k.isMark .rightBracket

/-- A token that ends a statement if it stands outside of brackets. -/
def endsStatement (k : TokenKind) : Bool :=
  k.isSeparator || k.isMark .rightBrace || k.isEof

end TokenKind

/-- The name and receiver in a dotted type without arguments: what stands before the last
dot, and what stands behind it. -/
def splitReceiver? (name : String) : Option (String × String) :=
  let last := TypeRef.lastSegment name
  let before := name.toList.take (name.length - last.length - 1)
  if last.length < name.length then some (String.ofList before, last) else none

namespace Parser

/-! ### Skipping -/

/-- The end of the statement that holds `here`, with `depth` brackets open before it. -/
def skipStatementFrom (depth : Nat) (here : Token) (last : Span) : List Token → Cursor
  | [] => ⟨here, [], last⟩
  | t :: ts =>
    let k := here.kind
    if k.isEof || (depth == 0 && k.endsStatement) then ⟨here, t :: ts, last⟩
    else
      let inner := if k.isOpening then depth + 1 else if k.isClosing then depth - 1 else depth
      skipStatementFrom inner t here.span ts

/-- Returns to `start` and skips the statement there, or at least one token. -/
def skipUnparsed (start : Cursor) : Parser Unit := fun s =>
  let stop := skipStatementFrom 0 start.here start.last start.ahead
  let moved (c : Cursor) : Bool := c.ahead.length < start.ahead.length
  let stop := if moved stop then stop else stop.advance
  let span := if moved stop then start.here.span.join stop.last else start.here.span
  .done () { s with cursor := stop, skipped := span :: s.skipped }

variable (g : Grammar)

/-- What a `val` or `var` at `start` declares that did not parse: a plain name, with its
type if that can be read. -/
def unparsedVal (start : Cursor) : Parser (Option ValDecl) := do
  let mutable := start.kind.isKeyword .varKw
  match start.ahead with
  | nameToken :: rest =>
    match start.kind.isKeyword .valKw || mutable, nameToken.kind with
    | true, .name name =>
      let next := rest.head?.map Token.kind
      if next.any (TokenKind.isMark .dot) || next.any (TokenKind.isMark .less) then return none
      let type ← if next.any (TokenKind.isMark .colon) then do
          moveTo start.advance.advance.advance
          attempt (typeRef g)
        else pure none
      return some ⟨← newDecl, mutable, none, name, nameToken.span, type, none, .absent,
        start.here.span.join nameToken.span⟩
    | _, _ => return none
  | [] => return none

def statementEnd : Parser Unit := do
  let k ← kind
  if k.isSeparator then
    let _ ← advance
  else if k.endsStatement then return ()
  else fail

/-! ### Annotations and modifiers -/

/-- The last segment of an annotation's name, behind its use-site target if it has one. -/
def annotationName : Parser String := do
  let (first, _) ← expectName
  let name ← if ← eat .colon then Prod.fst <$> expectName else pure first
  loop (fun name => do
    if ← eat .dot then return .next (← expectName).1 else return .stop name) name

def annotations : Parser (List AnnotationEntry) :=
  loop (fun (seen : List AnnotationEntry) => do
    if ← atMark .at then
      let start ← advance
      let name ← annotationName
      let args ← if ← atMark .leftParen then arguments g else pure []
      let span := start.span.join (← lastSpan)
      skipNewlines
      return .next (seen ++ [⟨name, args.map Argument.value, span⟩])
    else return .stop seen) []

def skipModifiers : Parser Unit :=
  loop (fun () => do
    let c ← cursor
    let next := c.kindAt 1
    if c.kind.isModifierKeyword
        || (c.kind.isModifierName && !next.isNewline && !next.isMark .colon) then
      let _ ← advance
      return .next ()
    else return .stop ()) ()

/-- Type parameters in angle brackets; they say nothing about schemas. -/
def skipTypeParameters : Parser Unit := do
  let _ ← expect .less
  loop (fun (depth : Nat) => do
    let token ← advance
    if token.kind.isEof then fail
    else if token.kind.isMark .less then return .next (depth + 1)
    else if token.kind.isMark .greater then
      if depth = 0 then return .stop () else return .next (depth - 1)
    else return .next depth) 0

/-! ### Functions and properties -/

/-- A default value or an initializer, behind its equals sign. -/
def initializer : Parser (Option Expr) := do
  if ← eat .equal then
    skipNewlines
    some <$> expression g
  else return none

def typeMark : Parser (Option TypeRef) := do
  if ← eat .colon then some <$> typeRef g else return none

/-- Declarations in parentheses with commas between them. -/
def declared {α : Type} (one : List α → Parser (List α)) : Parser (List α) := do
  let _ ← expect .leftParen
  loop (fun (seen : List α) => do
    skipNewlines
    if ← eat .rightParen then return .stop seen
    let seen ← one seen
    skipNewlines
    if ← eat .comma then return .next seen
    let _ ← expect .rightParen
    return .stop seen) []

def param : Parser Param := do
  let _ ← annotations g
  let (name, span) ← expectName
  let type ← typeMark g
  let default ← initializer g
  return ⟨← newDecl, name, type, default, span.join (← lastSpan)⟩

/-- The body of a function or getter: an expression behind an equals sign, or a block. -/
def body : Parser Body := do
  if ← eat .equal then
    skipNewlines
    .expr <$> expression g
  else .block <$> block g

/-- A name, which may have a receiver type before it. -/
def functionName : Parser (Option TypeRef × String) := do
  let head ← typeRef g
  if ← eat .dot then return (some head, (← expectName).1)
  match splitReceiver? head.name, head.args with
  | some (receiver, name), [] => return (some (TypeRef.simple receiver), name)
  | _, _ => return (none, head.name)

def funDecl : Parser FunDecl := do
  let start ← advance
  let decl ← newDecl
  if ← atMark .less then skipTypeParameters
  let (receiver, name) ← functionName g
  let params ← declared fun seen => do return seen ++ [← param g]
  let returnType ← typeMark g
  let k ← kind
  let body ← if k.isMark .equal || k.isMark .leftBrace then body g else pure .absent
  return ⟨decl, name, receiver, params, returnType, body, false, start.span.join (← lastSpan)⟩

/-- The name of a property with its span, and the receiver type if it is an extension. -/
def propertyName : Parser (Option TypeRef × String × Span) := do
  let next := (← cursor).kindAt 1
  if next.isMark .dot || next.isMark .less then
    let head ← typeRef g
    if ← eat .dot then
      let (name, span) ← expectName
      return (some head, name, span)
    match splitReceiver? head.name, head.args, head.nullable with
    | some (receiver, name), [], false =>
      return (some (TypeRef.simple receiver), name, ← lastSpan)
    | _, _, _ => fail
  else
    let (name, span) ← expectName
    return (none, name, span)

/-- Whether a getter stands at the cursor. -/
def isGetter (c : Cursor) : Bool :=
  c.kind.isName "get" && (c.kindAt? 1).any (TokenKind.isMark .leftParen)
    && (c.kindAt? 2).any (TokenKind.isMark .rightParen)
    && (c.kindAt? 3).any fun k => k.isMark .equal || k.isMark .leftBrace || k.isMark .colon

/-- A getter behind a property, maybe on a later line. -/
def getter : Parser Body := do
  let c := (← cursor).pastNewlines
  if isGetter c then
    moveTo c.advance.advance.advance
    let _ ← typeMark g
    body g
  else return .absent

def valDecl : Parser ValDecl := do
  let keyword ← advance
  let mutable := keyword.kind.isKeyword .varKw
  let (receiver, name, nameSpan) ← propertyName g
  let type ← typeMark g
  let init ← initializer g
  let getter ← getter g
  return ⟨← newDecl, mutable, receiver, name, nameSpan, type, init, getter,
    keyword.span.join (← lastSpan)⟩

/-! ### Statements -/

def returned : Parser Stmt := do
  let start ← advance
  let value ← if (← kind).endsStatement then pure none else some <$> expression g
  return .ret value (start.span.join (← lastSpan))

/-- An expression, or an assignment to one. -/
def assignment : Parser Stmt := do
  let target ← expression g
  if ← eat .equal then
    skipNewlines
    let value ← expression g
    return .assign target value (target.span.join value.span)
  else return .expr target

def statement : Parser Stmt := do
  match ← kind with
  | .keyword .valKw | .keyword .varKw =>
    let v ← valDecl g
    if v.receiver.isSome then return .function v.getterFunction else return .val v
  | .keyword .funKw => .function <$> funDecl g
  | .keyword .returnKw => returned g
  | _ => assignment g

/-- The statements of a block, up to and past its closing brace. -/
def statements : Parser (List Stmt) :=
  loop (fun (stmts : List Stmt) => do
    skipSeparators
    if ← eat .rightBrace then return .stop stmts
    if (← kind).isEof then fail
    let start ← cursor
    let parsed ← attempt do
      let stmt ← statement g
      statementEnd
      return stmt
    match parsed with
    | some stmt => return .next (stmts ++ [stmt])
    | none =>
      let declared ← unparsedVal g start
      skipUnparsed start
      return .next (stmts ++ (declared.map Stmt.val).toList)) []

/-! ### Classes -/

/-- What a primary constructor declares. -/
inductive ConstructorParam where
  | plain (param : Param)
  | property (decl : PropertyDecl)

namespace ConstructorParam

def param? : ConstructorParam → Option Param
  | plain p => some p
  | property _ => none

def property? : ConstructorParam → Option PropertyDecl
  | plain _ => none
  | property p => some p

end ConstructorParam

def constructorParam : Parser ConstructorParam := do
  let annotations ← annotations g
  skipModifiers
  let start ← span
  let isVal ← eatKeyword .valKw
  let isVar ← if isVal then pure false else eatKeyword .varKw
  let (name, nameSpan) ← expectName
  let _ ← expect .colon
  let type ← typeRef g
  let default ← initializer g
  let decl ← newDecl
  let span := start.join (← lastSpan)
  if isVal || isVar then
    return .property ⟨decl, annotations, isVar, name, nameSpan, some type, default, .absent, true,
      span⟩
  else return .plain ⟨decl, name, some type, default, span⟩

/-- The members of a class body. -/
structure Members where
  properties : List PropertyDecl
  methods : List FunDecl

def member (seen : Members) : Parser Members := do
  let annotations ← annotations g
  skipModifiers
  match ← kind with
  | .keyword .valKw | .keyword .varKw =>
    let v ← valDecl g
    statementEnd
    if v.receiver.isSome then
      return { seen with methods := seen.methods ++ [v.getterFunction] }
    else return { seen with properties := seen.properties ++
      [⟨v.decl, annotations, v.mutable, v.name, v.nameSpan, v.type, v.init, v.getter, false,
        v.span⟩] }
  | .keyword .funKw =>
    let f ← funDecl g
    statementEnd
    return { seen with methods := seen.methods ++ [f] }
  | _ => fail

/-- The members of a class body that follow those seen, up to and past its closing brace. -/
def classBody (seen : Members) : Parser Members := do
  let _ ← expect .leftBrace
  loop (fun (seen : Members) => do
    skipSeparators
    if ← eat .rightBrace then return .stop seen
    if (← kind).isEof then fail
    let start ← cursor
    match ← attempt (member g seen) with
    | some more => return .next more
    | none =>
      skipUnparsed start
      return .next seen) seen

/-- Supertypes behind their colon. The arguments of a superclass constructor are dropped. -/
def supertypes : Parser (List TypeRef) := do
  if ← eat .colon then
    loop (fun (types : List TypeRef) => do
      skipNewlines
      let types := types ++ [← typeRef g]
      if ← atMark .leftParen then
        let _ ← arguments g
      if ← eat .comma then return .next types else return .stop types) []
  else return []

/-- A class or interface, from its keyword on. -/
def classDecl (annotations : List AnnotationEntry) (isInterface : Bool) : Parser ClassDecl := do
  let start ← advance
  let (name, nameSpan) ← expectName
  if ← atMark .less then skipTypeParameters
  let constructor ← if ← atMark .leftParen then
      declared fun seen => do return seen ++ [← constructorParam g]
    else pure []
  let supertypes ← supertypes g
  let members : Members := ⟨constructor.filterMap ConstructorParam.property?, []⟩
  let members ← if ← atMark .leftBrace then classBody g members else pure members
  return ⟨annotations, isInterface, name, nameSpan, supertypes,
    constructor.filterMap ConstructorParam.param?, members.properties, members.methods,
    start.span.join (← lastSpan)⟩

/-! ### Items -/

def item : Parser Item := do
  let annotations ← annotations g
  skipModifiers
  match ← kind with
  | .keyword .interfaceKw => .classDecl <$> classDecl g annotations true
  | .keyword .dataKw =>
    let _ ← advance
    .classDecl <$> classDecl g annotations false
  | .keyword .classKw => .classDecl <$> classDecl g annotations false
  | .keyword .funKw =>
    let f ← funDecl g
    statementEnd
    return .function f
  | .keyword .valKw | .keyword .varKw =>
    let v ← valDecl g
    statementEnd
    if v.receiver.isSome then return .function v.getterFunction else return .property v
  | _ => fail

/-- Package and import lines are passed over. -/
def skipLine : Parser Unit := fun s =>
  .done () { s with cursor := s.cursor.skipWhile fun k => !k.isNewline && !k.isEof }

def items : Parser (List Item) :=
  loop (fun (items : List Item) => do
    skipSeparators
    match ← kind with
    | .eof => return .stop items
    | .keyword .packageKw | .keyword .importKw =>
      skipLine
      return .next items
    | _ =>
      let start ← cursor
      match ← attempt (item g) with
      | some i => return .next (items ++ [i])
      | none =>
        let declared ← unparsedVal g start
        skipUnparsed start
        return .next (items ++ (declared.map Item.property).toList)) []

end Parser

namespace Grammar

/-- The grammar of a text in which parts are nested to some depth. -/
def ofDepth : Nat → Grammar
  | 0 => ⟨Parser.fail, Parser.fail, Parser.fail⟩
  | n + 1 =>
    ⟨fun s => Parser.typeRef (ofDepth n) s, fun s => Parser.expression (ofDepth n) s,
      fun s => Parser.statements (ofDepth n) s⟩

end Grammar

end FrameCheck
