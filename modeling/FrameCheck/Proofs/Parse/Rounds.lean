import FrameCheck.Parse.Decl

/-!
# Rounds of loops

What a loop of the parser does before it comes to its end or goes on. Each round is the body of the
loop in the rule that it is named for.
-/

namespace FrameCheck

namespace Parser

variable {α : Type}

namespace Rounds

/-- A round of a chain behind the operand on its left. -/
def chain (p : Precedence) (operand : Parser Expr) (left : Expr) : Parser (Round Expr Expr) := do
  match BinaryOp.at? (← cursor) with
  | some op =>
    if op.precedence = p then
      skipNewlines
      let _ ← advance
      skipNewlines
      let right ← operand
      return .next (← newExpr (left.span.join right.span) (.binary op left right))
    else return .stop left
  | none => return .stop left

/-- A round over the signs before an operand. -/
def signed (ops : List (UnaryOp × Span)) :
    Parser (Round (List (UnaryOp × Span)) (List (UnaryOp × Span))) := do
  match UnaryOp.ofToken? (← kind) with
  | some op => return .next ((op, (← advance).span) :: ops)
  | none => return .stop ops

/-- A round over the segments of an annotation's name. -/
def annotationName (name : String) : Parser (Round String String) := do
  if ← eat .dot then return .next (← expectName).1 else return .stop name

/-- A round over type parameters, where `depth` more angle brackets are open. -/
def skipTypeParameters (depth : Nat) : Parser (Round Nat Unit) := do
  let token ← advance
  if token.kind.isEof then fail
  else if token.kind.isMark .less then return .next (depth + 1)
  else if token.kind.isMark .greater then
    if depth = 0 then return .stop () else return .next (depth - 1)
  else return .next depth

variable (g : Grammar)

/-- A round over the casts behind an operand. -/
def castChain (e : Expr) : Parser (Round Expr Expr) := do
  if ← eatKeyword .asKw then
    let safe ← eat .question
    let type ← typeRef g
    return .next (← newExpr (e.span.join (← lastSpan)) (.cast e type safe))
  else return .stop e

/-- A round over the suffixes of a primary. -/
def suffixed (e : Expr) : Parser (Round Expr Expr) := do
  match ← suffix g e with
  | some next => return .next next
  | none => return .stop e

def indexOf (indices : List Expr) : Parser (Round (List Expr) (List Expr)) := do
  skipNewlines
  let indices := indices ++ [← g.expr]
  skipNewlines
  if ← eat .comma then return .next indices else return .stop indices

def annotations (seen : List AnnotationEntry) :
    Parser (Round (List AnnotationEntry) (List AnnotationEntry)) := do
  if ← atMark .at then
    let start ← advance
    let name ← Parser.annotationName
    let args ← if ← atMark .leftParen then Parser.arguments g else pure []
    let span := start.span.join (← lastSpan)
    skipNewlines
    return .next (seen ++ [⟨name, args.map Argument.value, span⟩])
  else return .stop seen

def typeArgs (args : List TypeRef) : Parser (Round (List TypeRef) (List TypeRef)) := do
  skipVariance
  let arg ← g.type
  if ← eat .comma then return .next (args ++ [arg]) else return .stop (args ++ [arg])

def callTypeArgs (args : List TypeRef) : Parser (Round (List TypeRef) (List TypeRef)) := do
  let arg ← typeRef g
  if ← eat .comma then return .next (args ++ [arg])
  let _ ← expect .greater
  let k ← kind
  if k.isMark .leftParen || k.isMark .leftBrace then return .stop (args ++ [arg])
  else fail

def arguments (args : List Argument) : Parser (Round (List Argument) (List Argument)) := do
  skipNewlines
  if ← eat .rightParen then return .stop args
  let name ← argumentName
  let _ ← eat .star
  let value ← g.expr
  let args := args ++ [⟨name, value⟩]
  skipNewlines
  if ← eat .comma then return .next args
  skipNewlines
  let _ ← expect .rightParen
  return .stop args

/-- What follows the name of a parameter. -/
def lambdaParam (params : List LambdaParam) (name : String) :
    Parser (Round (List LambdaParam) (List LambdaParam)) := do
  let _ ← advance
  let type ← if ← eat .colon then some <$> typeRef g else pure none
  let params := params ++ [⟨← newDecl, name, type⟩]
  if ← eat .comma then return .next params
  let _ ← expect .arrow
  return .stop params

def lambdaParams (params : List LambdaParam) :
    Parser (Round (List LambdaParam) (List LambdaParam)) := do
  let name ← orFail (← kind).plainName?
  lambdaParam g params name

def whenBranches (branches : List WhenBranch) :
    Parser (Round (List WhenBranch) (List WhenBranch)) := do
  skipSeparators
  if ← eat .rightBrace then return .stop branches
  return .next (branches ++ [← whenBranch g])

def whenConditions (conditions : List Expr) : Parser (Round (List Expr) (List Expr)) := do
  skipNewlines
  let conditions := conditions ++ (← whenCondition g).toList
  skipNewlines
  if ← eat .comma then return .next conditions else return .stop conditions

/-- The round for the parameters of a function, and for those of a constructor. -/
def declared (one : List α → Parser (List α)) (seen : List α) :
    Parser (Round (List α) (List α)) := do
  skipNewlines
  if ← eat .rightParen then return .stop seen
  let seen ← one seen
  skipNewlines
  if ← eat .comma then return .next seen
  let _ ← expect .rightParen
  return .stop seen

def statements (stmts : List Stmt) : Parser (Round (List Stmt) (List Stmt)) := do
  skipSeparators
  if ← eat .rightBrace then return .stop stmts
  if (← kind).isEof then fail
  let start ← cursor
  let parsed ← attempt do
    let stmt ← statement g
    statementEnd
    return stmt
  match parsed with
  | some stmt => return .next (stmts ++ [stmt])
  | none =>
    let declared ← unparsedVal g start
    skipUnparsed start
    return .next (stmts ++ (declared.map Stmt.val).toList)

def classBody (seen : Members) : Parser (Round Members Members) := do
  skipSeparators
  if ← eat .rightBrace then return .stop seen
  if (← kind).isEof then fail
  let start ← cursor
  match ← attempt (member g seen) with
  | some more => return .next more
  | none =>
    skipUnparsed start
    return .next seen

def items (items : List Item) : Parser (Round (List Item) (List Item)) := do
  skipSeparators
  match ← kind with
  | .eof => return .stop items
  | .keyword .packageKw | .keyword .importKw =>
    skipLine
    return .next items
  | _ =>
    let start ← cursor
    match ← attempt (item g) with
    | some i => return .next (items ++ [i])
    | none =>
      let declared ← unparsedVal g start
      skipUnparsed start
      return .next (items ++ (declared.map Item.property).toList)

end Rounds

theorem chain_eq_loop (p : Precedence) (operand : Parser Expr) :
    chain p operand = operand >>= loop (Rounds.chain p operand) := rfl

theorem signed_eq_loop (operand : Parser Expr) : signed operand = (do
    let ops ← loop Rounds.signed []
    let inner ← operand
    ops.foldlM (fun e (op, start) => newExpr (start.join e.span) (.unary op e)) inner) := rfl

theorem castChain_eq_loop (g : Grammar) (operand : Parser Expr) :
    castChain g operand = operand >>= loop (Rounds.castChain g) := rfl

theorem suffixed_eq_loop (g : Grammar) : suffixed g = primary g >>= loop (Rounds.suffixed g) := rfl

theorem indexOf_eq_loop (g : Grammar) (receiver : Expr) : indexOf g receiver = (do
    let _ ← advance
    let indices ← loop (Rounds.indexOf g) []
    let _ ← expect .rightBracket
    newExpr (receiver.span.join (← lastSpan)) (.index receiver indices)) := rfl

theorem annotationName_eq_loop : annotationName = (do
    let (first, _) ← expectName
    let name ← if ← eat .colon then Prod.fst <$> expectName else pure first
    loop Rounds.annotationName name) := rfl

theorem annotations_eq_loop (g : Grammar) : annotations g = loop (Rounds.annotations g) [] := rfl

theorem skipTypeParameters_eq_loop :
    skipTypeParameters = (expect .less >>= fun _ => loop Rounds.skipTypeParameters 0) := rfl

theorem typeArgs_eq_loop (g : Grammar) : typeArgs g = (do
    let args ← loop (Rounds.typeArgs g) []
    let _ ← expect .greater
    return args) := rfl

theorem callTypeArgs_eq_loop (g : Grammar) : callTypeArgs g = (do
    let start ← cursor
    let args ← attempt (advance >>= fun _ => loop (Rounds.callTypeArgs g) [])
    if args.isNone then moveTo start
    return args) := rfl

theorem arguments_eq_loop (g : Grammar) :
    arguments g = (expect .leftParen >>= fun _ => loop (Rounds.arguments g) []) := rfl

theorem lambdaParams_eq_loop (g : Grammar) : lambdaParams g = (do
    let start ← cursor
    match ← attempt (skipNewlines >>= fun _ => loop (Rounds.lambdaParams g) []) with
    | some params => return params
    | none =>
      moveTo start
      return []) := rfl

theorem whenBranch_eq_loop (g : Grammar) : whenBranch g = (do
    let isElse ← eatKeyword .elseKw
    let conditions ← if isElse then pure [] else loop (Rounds.whenConditions g) []
    skipNewlines
    let _ ← expect .arrow
    return ⟨conditions, isElse, ← branch g⟩) := rfl

theorem whenOf_eq_loop (g : Grammar) : whenOf g = (do
    let start ← advance
    let subject ← if ← eat .leftParen then some <$> whenSubject g else pure none
    skipNewlines
    let _ ← expect .leftBrace
    let branches ← loop (Rounds.whenBranches g) []
    newExpr (start.span.join (← lastSpan)) (.whenOf subject branches)) := rfl

theorem declared_eq_loop (one : List α → Parser (List α)) :
    declared one = (expect .leftParen >>= fun _ => loop (Rounds.declared one) []) := rfl

theorem statements_eq_loop (g : Grammar) : statements g = loop (Rounds.statements g) [] := rfl

theorem classBody_eq_loop (g : Grammar) (seen : Members) :
    classBody g seen = (expect .leftBrace >>= fun _ => loop (Rounds.classBody g) seen) := rfl

theorem items_eq_loop (g : Grammar) : items g = loop (Rounds.items g) [] := rfl

end Parser

end FrameCheck
