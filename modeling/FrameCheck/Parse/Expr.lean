import FrameCheck.Parse.Type

/-!
# Parsing expressions

An expression is a chain of binary operators over operands, by nine precedences from loose
to tight; operators of one precedence group to the left. An operand is a primary with its
suffixes (member access, calls, indices, `!!`), then its sign and negation operators, then
its casts. A line break ends an expression, except before the operators `?:`, `&&`, `||`
and a member access.

* `binary` : the chains, one per precedence.
* `suffixed`, `primary` : an operand without its operators.
* `expression` : the whole.
-/

namespace FrameCheck

/-- The precedences of binary operators, from loose to tight. -/
inductive Precedence where
  | or | and | equality | comparison | elvis | named | range | term | factor
deriving DecidableEq, Repr

def Precedence.all : List Precedence :=
  [or, and, equality, comparison, elvis, named, range, term, factor]

namespace BinaryOp

def precedence : BinaryOp → Precedence
  | or => .or
  | and => .and
  | eq | notEq => .equality
  | less | lessEq | greater | greaterEq => .comparison
  | elvis => .elvis
  | named _ => .named
  | range => .range
  | add | sub => .term
  | mul | div | rem => .factor

def ofToken? : TokenKind → Option BinaryOp
  | .mark .pipePipe => some or
  | .mark .ampersands => some and
  | .mark .doubleEqual => some eq
  | .mark .bangEqual => some notEq
  | .mark .less => some less
  | .mark .lessEqual => some lessEq
  | .mark .greater => some greater
  | .mark .greaterEqual => some greaterEq
  | .mark .elvis => some elvis
  | .name s => some (named s)
  | .mark .dotDot => some range
  | .mark .plus => some add
  | .mark .minus => some sub
  | .mark .star => some mul
  | .mark .slash => some div
  | .mark .percent => some rem
  | _ => none

/-- An operator that may start a line. -/
def startsLine : BinaryOp → Bool
  | elvis | and | or => true
  | _ => false

/-- The operator that continues an expression at a place. -/
def at? (c : Cursor) : Option BinaryOp :=
  if c.kind.isNewline then (ofToken? c.pastNewlines.kind).filter startsLine
  else ofToken? c.kind

end BinaryOp

def UnaryOp.ofToken? : TokenKind → Option UnaryOp
  | .mark .bang => some not
  | .mark .minus => some neg
  | .mark .plus => some plus
  | _ => none

def Literal.ofToken? : TokenKind → Option Literal
  | .integer n => some (int n)
  | .long n => some (long n)
  | .double x => some (double x)
  | .single x => some (float x)
  | .text s => some (string s)
  | .character c => some (char c)
  | .keyword .trueKw => some (bool true)
  | .keyword .falseKw => some (bool false)
  | .keyword .nullKw => some null
  | _ => none

namespace ExprKind

/-- Whether type arguments or a lambda may follow, as part of a call. -/
def isCallable : ExprKind → Bool
  | name _ => true
  | member .. => true
  | _ => false

end ExprKind

namespace TokenKind

/-- Statements and branches are separated by line breaks and semicolons. -/
def isSeparator (k : TokenKind) : Bool := k.isNewline || k.isMark .semicolon

/-- A token that continues a chain of member accesses. -/
def isAccess (k : TokenKind) : Bool := k.isMark .dot || k.isMark .safeDot

end TokenKind

namespace Parser

def skipSeparators : Parser Unit := fun s =>
  .done () { s with cursor := s.cursor.skipWhile TokenKind.isSeparator }

/-- Runs `p` over other tokens, and returns to the cursor in any case. -/
def within {α : Type} (tokens : List Token) (p : Parser α) : Parser α := fun s =>
  match p { s with cursor := Cursor.ofTokens tokens } with
  | .done a t => .done a { t with cursor := s.cursor }
  | .failed t => .failed { t with cursor := s.cursor }

/-! ### Operator chains -/

/-- Operands joined by operators of one precedence, grouped to the left. -/
def chain (p : Precedence) (operand : Parser Expr) : Parser Expr := do
  let first ← operand
  loop (fun left => do
    match BinaryOp.at? (← cursor) with
    | some op =>
      if op.precedence = p then
        skipNewlines
        let _ ← advance
        skipNewlines
        let right ← operand
        return .next (← newExpr (left.span.join right.span) (.binary op left right))
      else return .stop left
    | none => return .stop left) first

/-- Operands joined by operators of the given precedences, from loose to tight. -/
def binary (operand : Parser Expr) : List Precedence → Parser Expr
  | [] => operand
  | p :: tighter => chain p (binary operand tighter)

/-- Sign and negation operators before an operand. -/
def signed (operand : Parser Expr) : Parser Expr := do
  let ops ← loop (fun (ops : List (UnaryOp × Span)) => do
    match UnaryOp.ofToken? (← kind) with
    | some op => return .next ((op, (← advance).span) :: ops)
    | none => return .stop ops) []
  let inner ← operand
  ops.foldlM (fun e (op, start) => newExpr (start.join e.span) (.unary op e)) inner

variable (g : Grammar)

/-- An operand with the casts behind it. -/
def castChain (operand : Parser Expr) : Parser Expr := do
  let first ← operand
  loop (fun e => do
    if ← eatKeyword .asKw then
      let safe ← eat .question
      let type ← typeRef g
      return .next (← newExpr (e.span.join (← lastSpan)) (.cast e type safe))
    else return .stop e) first

/-! ### Calls and blocks -/

/-- The name of a named argument, with the sign behind it. -/
def argumentName : Parser (Option String) := do
  let c ← cursor
  match c.kind.plainName? with
  | some name =>
    if (c.kindAt 1).isMark .equal then
      let _ ← advance
      let _ ← advance
      skipNewlines
      return some name
    else return none
  | none => return none

/-- Arguments in parentheses. A spread mark is passed over. -/
def arguments : Parser (List Argument) := do
  let _ ← expect .leftParen
  loop (fun (args : List Argument) => do
    skipNewlines
    if ← eat .rightParen then return .stop args
    let name ← argumentName
    let _ ← eat .star
    let value ← g.expr
    let args := args ++ [⟨name, value⟩]
    skipNewlines
    if ← eat .comma then return .next args
    skipNewlines
    let _ ← expect .rightParen
    return .stop args) []

def block : Parser Block := do
  let start ← expect .leftBrace
  let stmts ← g.stmts
  return ⟨stmts, start.span.join (← lastSpan)⟩

/-- The parameters of a lambda with the arrow behind them; without an arrow there are none. -/
def lambdaParams : Parser (List LambdaParam) := do
  let start ← cursor
  let params ← attempt do
    skipNewlines
    loop (fun (params : List LambdaParam) => do
      let name ← orFail (← kind).plainName?
      let _ ← advance
      let type ← if ← eat .colon then some <$> typeRef g else pure none
      let params := params ++ [⟨← newDecl, name, type⟩]
      if ← eat .comma then return .next params
      let _ ← expect .arrow
      return .stop params) []
  match params with
  | some params => return params
  | none =>
    moveTo start
    return []

def lambda : Parser Expr := do
  let start ← expect .leftBrace
  let params ← lambdaParams g
  let implicitIt ← newDecl
  let stmts ← g.stmts
  let span := start.span.join (← lastSpan)
  newExpr span (.lambda params implicitIt ⟨stmts, span⟩)

/-- Arguments, a trailing lambda, or both, behind what is called. -/
def call (callee : Expr) (typeArgs : List TypeRef) : Parser Expr := do
  let args ← if ← atMark .leftParen then arguments g else pure []
  let args ← if ← atMark .leftBrace then do
      let f ← lambda g
      pure (args ++ [⟨none, f⟩])
    else pure args
  newExpr (callee.span.join (← lastSpan)) (.call callee typeArgs args)

/-! ### Suffixes -/

def memberOf (receiver : Expr) : Parser Expr := do
  skipNewlines
  let access ← advance
  let (name, nameSpan) ← expectName
  newExpr (receiver.span.join nameSpan)
    (.member receiver name nameSpan (access.kind.isMark .safeDot))

def indexOf (receiver : Expr) : Parser Expr := do
  let _ ← advance
  let indices ← loop (fun (indices : List Expr) => do
    skipNewlines
    let indices := indices ++ [← g.expr]
    skipNewlines
    if ← eat .comma then return .next indices else return .stop indices) []
  let _ ← expect .rightBracket
  newExpr (receiver.span.join (← lastSpan)) (.index receiver indices)

/-- What the suffix at the cursor makes of `e`, if there is one. -/
def suffix (e : Expr) : Parser (Option Expr) := do
  let c ← cursor
  let callable := e.kind.isCallable
  if c.pastNewlines.kind.isAccess then some <$> memberOf e
  else if c.kind.isMark .less && callable then
    match ← callTypeArgs g with
    | some typeArgs => some <$> call g e typeArgs
    | none => return none
  else if c.kind.isMark .leftParen || (c.kind.isMark .leftBrace && callable) then
    some <$> call g e []
  else if c.kind.isMark .leftBracket then some <$> indexOf g e
  else if c.kind.isMark .bangBang then do
    let _ ← advance
    some <$> newExpr (e.span.join (← lastSpan)) (.notNull e)
  else return none

/-! ### Branches -/

/-- The body of a branch: a block or an expression. -/
def branch : Parser Expr := do
  skipNewlines
  if ← atMark .leftBrace then
    let b ← block g
    newExpr b.span (.block b)
  else g.expr

/-- Whether an `else` goes on with an `if`, and is no arm of a `when`. -/
def atElse : Parser Bool := do
  let c := (← cursor).pastNewlines
  return c.kind.isKeyword .elseKw && !(c.kindAt? 1).any (TokenKind.isMark .arrow)

def ifElse : Parser Expr := do
  let start ← advance
  let _ ← expect .leftParen
  skipNewlines
  let condition ← g.expr
  skipNewlines
  let _ ← expect .rightParen
  let thenBranch ← branch g
  let elseBranch ← if ← atElse then do
      skipNewlines
      let _ ← advance
      some <$> branch g
    else pure none
  newExpr (start.span.join (← lastSpan)) (.ifElse condition thenBranch elseBranch)

/-- The subject of a `when` behind its parenthesis; a variable bound to it is dropped. -/
def whenSubject : Parser Expr := do
  skipNewlines
  if ← eatKeyword .valKw then
    let _ ← expectName
    if ← eat .colon then
      let _ ← typeRef g
    let _ ← expect .equal
    skipNewlines
  let subject ← g.expr
  skipNewlines
  let _ ← expect .rightParen
  return subject

/-- A condition of an arm; a type test has no expression. -/
def whenCondition : Parser (Option Expr) := do
  let c ← cursor
  if c.kind.isMark .bang && ((c.kindAt 1).isName "is" || (c.kindAt 1).isName "in") then
    let _ ← advance
  if ← eatIf (TokenKind.isName "is") then
    let _ ← typeRef g
    return none
  let _ ← eatIf (TokenKind.isName "in")
  some <$> g.expr

def whenBranch : Parser WhenBranch := do
  let isElse ← eatKeyword .elseKw
  let conditions ← if isElse then pure [] else
    loop (fun (conditions : List Expr) => do
      skipNewlines
      let conditions := conditions ++ (← whenCondition g).toList
      skipNewlines
      if ← eat .comma then return .next conditions else return .stop conditions) []
  skipNewlines
  let _ ← expect .arrow
  return ⟨conditions, isElse, ← branch g⟩

def whenOf : Parser Expr := do
  let start ← advance
  let subject ← if ← eat .leftParen then some <$> whenSubject g else pure none
  skipNewlines
  let _ ← expect .leftBrace
  let branches ← loop (fun (branches : List WhenBranch) => do
    skipSeparators
    if ← eat .rightBrace then return .stop branches
    return .next (branches ++ [← whenBranch g])) []
  newExpr (start.span.join (← lastSpan)) (.whenOf subject branches)

/-! ### Operands -/

/-- The expression of one template of a string, from its own tokens. -/
def embedded (tokens : List Token) : Parser Expr :=
  within tokens do
    skipNewlines
    let e ← g.expr
    skipNewlines
    if (← kind).isEof then return e else fail

def parenthesized : Parser Expr := do
  let _ ← advance
  skipNewlines
  let inner ← g.expr
  skipNewlines
  let _ ← expect .rightParen
  return inner

def primary : Parser Expr := do
  let token := (← cursor).here
  match Literal.ofToken? token.kind, token.kind.asName? with
  | some value, _ => do
    let _ ← advance
    newExpr token.span (.literal value)
  | none, some name => do
    let _ ← advance
    newExpr token.span (.name name)
  | none, none =>
    match token.kind with
    | .keyword .thisKw => do
      let _ ← advance
      newExpr token.span .this
    | .mark .leftParen => parenthesized g
    | .template parts => do
      let _ ← advance
      newExpr token.span (.template (← parts.mapM (embedded g)))
    | .keyword .ifKw => ifElse g
    | .keyword .whenKw => whenOf g
    | .mark .leftBrace => lambda g
    | _ => fail

/-- A primary with its suffixes. -/
def suffixed : Parser Expr := do
  let first ← primary g
  loop (fun e => do
    match ← suffix g e with
    | some next => return .next next
    | none => return .stop e) first

def expression : Parser Expr :=
  binary (castChain g (signed (suffixed g))) Precedence.all

end Parser

end FrameCheck
