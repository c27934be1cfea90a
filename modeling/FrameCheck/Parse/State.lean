import FrameCheck.Token.Basic
import FrameCheck.Tree.Basic

/-!
# Parser states

A parser reads from a `Cursor`: the token it stands on, those ahead, and the span of the
token before. A cursor never leaves the last token, which is `eof` in what the scanner
makes, so there is always a token to look at. Beside the cursor the state holds the next
free ids and the spans skipped so far; these outlive an attempt that is given up, and only
the cursor is put back.

`Parser.loop` repeats a step. A round that is not the last has to consume a token, and the
tokens ahead bound the rounds.

* `Cursor.advance`, `Cursor.kindAt` : one step, and looking ahead.
* `Parser.attempt` : failure as a value.
-/

namespace FrameCheck

/-- A place in a list of tokens. -/
structure Cursor where
  here : Token
  ahead : List Token
  /-- The span of the token before `here`, or of the first token at the start. -/
  last : Span

namespace Cursor

/-- The start of a list of tokens; an empty list is taken for the end of a text. -/
def ofTokens : List Token → Cursor
  | [] => ⟨default, [], ⟨0, 0⟩⟩
  | t :: ts => ⟨t, ts, t.span⟩

def kind (c : Cursor) : TokenKind := c.here.kind

/-- One token further, unless this is the last. -/
def advance (c : Cursor) : Cursor :=
  match c.ahead with
  | [] => c
  | t :: ts => ⟨t, ts, c.here.span⟩

/-- The kind of the token `n` places ahead, or of the last one. -/
def kindAt (c : Cursor) : Nat → TokenKind
  | 0 => c.kind
  | n + 1 => ((c.ahead[n]?).getD (c.ahead.getLastD c.here)).kind

/-- The kind of the token `n` places ahead, if there is one. -/
def kindAt? (c : Cursor) : Nat → Option TokenKind
  | 0 => some c.kind
  | n + 1 => (c.ahead[n]?).map Token.kind

/-- The first place from `here` on whose token is not skipped. -/
def skipFrom (skipped : TokenKind → Bool) (here : Token) (last : Span) : List Token → Cursor
  | [] => ⟨here, [], last⟩
  | t :: ts =>
    if skipped here.kind then skipFrom skipped t here.span ts else ⟨here, t :: ts, last⟩

def skipWhile (c : Cursor) (skipped : TokenKind → Bool) : Cursor :=
  skipFrom skipped c.here c.last c.ahead

def pastNewlines (c : Cursor) : Cursor := c.skipWhile TokenKind.isNewline

end Cursor

structure ParseState where
  cursor : Cursor
  nextExpr : ExprId
  nextDecl : DeclId
  /-- The skipped spans, the latest first. -/
  skipped : List Span

/-- How a parser ends. -/
inductive Outcome (α : Type) where
  | done (value : α) (state : ParseState)
  | failed (state : ParseState)

def Parser (α : Type) : Type := ParseState → Outcome α

namespace Parser

variable {α β σ : Type}

instance : Monad Parser where
  pure a := fun s => .done a s
  bind p f := fun s =>
    match p s with
    | .done a t => f a t
    | .failed t => .failed t

def fail : Parser α := fun s => .failed s

instance : Inhabited (Parser α) := ⟨fail⟩

/-- Runs `p`, and answers with nothing where it fails. -/
def attempt (p : Parser α) : Parser (Option α) := fun s =>
  match p s with
  | .done a t => .done (some a) t
  | .failed t => .done none t

/-- Fails unless there is a value. -/
def orFail : Option α → Parser α
  | some a => pure a
  | none => fail

/-! ### The cursor -/

def cursor : Parser Cursor := fun s => .done s.cursor s

def moveTo (c : Cursor) : Parser Unit := fun s => .done () { s with cursor := c }

def kind : Parser TokenKind := fun s => .done s.cursor.kind s

def span : Parser Span := fun s => .done s.cursor.here.span s

/-- The span of the token before. -/
def lastSpan : Parser Span := fun s => .done s.cursor.last s

def advance : Parser Token := fun s =>
  .done s.cursor.here { s with cursor := s.cursor.advance }

def skipNewlines : Parser Unit := fun s =>
  .done () { s with cursor := s.cursor.pastNewlines }

/-- Whether the token satisfies the test, and then past it. -/
def eatIf (test : TokenKind → Bool) : Parser Bool := fun s =>
  if test s.cursor.kind then .done true { s with cursor := s.cursor.advance }
  else .done false s

def eat (m : Mark) : Parser Bool := eatIf (TokenKind.isMark m)

def eatKeyword (k : Keyword) : Parser Bool := eatIf (TokenKind.isKeyword k)

/-- Whether the token is this mark. -/
def atMark (m : Mark) : Parser Bool := fun s => .done (s.cursor.kind.isMark m) s

/-- The token, which must be this mark. -/
def expect (m : Mark) : Parser Token := fun s =>
  if s.cursor.kind.isMark m then advance s else .failed s

/-- A name with its span. A token that is no name is passed over all the same. -/
def expectName : Parser (String × Span) := do
  let token ← advance
  match token.kind.asName? with
  | some name => pure (name, token.span)
  | none => fail

/-! ### Ids -/

def newDecl : Parser DeclId := fun s => .done s.nextDecl { s with nextDecl := s.nextDecl + 1 }

/-- An expression with the next id. -/
def newExpr (span : Span) (kind : ExprKind) : Parser Expr := fun s =>
  .done ⟨s.nextExpr, span, kind⟩ { s with nextExpr := s.nextExpr + 1 }

/-! ### Repetition -/

/-- What a round of a loop comes to. -/
inductive Round (σ β : Type) where
  | next (state : σ)
  | stop (result : β)

def rounds (step : σ → Parser (Round σ β)) : Nat → σ → Parser β
  | 0, _ => fail
  | n + 1, a => do
    match ← step a with
    | .next b => rounds step n b
    | .stop r => pure r

/-- Repeats `step` until it stops. Each round but the last consumes a token. -/
def loop (step : σ → Parser (Round σ β)) (start : σ) : Parser β := fun s =>
  rounds step (s.cursor.ahead.length + 1) start s

end Parser

end FrameCheck
