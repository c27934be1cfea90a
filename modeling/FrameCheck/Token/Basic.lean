import FrameCheck.Text.Span

/-!
# Tokens

A token is a kind with the span it was read from. Keywords and punctuation marks are
closed enumerations, each with its `lexeme`; a keyword that only marks a declaration
(`Keyword.isSoft`) is an ordinary name wherever a name may stand. A string with
templates keeps the token list of each template, which ends in its own `eof`.

* `Keyword.ofLexeme?_lexeme` : every keyword is read back from its lexeme.
-/

namespace FrameCheck

inductive Keyword where
  | packageKw | importKw | interfaceKw | classKw | dataKw | funKw | valKw | varKw
  | ifKw | elseKw | whenKw | returnKw | asKw | nullKw | trueKw | falseKw | thisKw
  | overrideKw | privateKw | publicKw | internalKw | protectedKw | abstractKw | openKw
deriving DecidableEq, Repr

namespace Keyword

def all : List Keyword :=
  [packageKw, importKw, interfaceKw, classKw, dataKw, funKw, valKw, varKw, ifKw, elseKw,
   whenKw, returnKw, asKw, nullKw, trueKw, falseKw, thisKw, overrideKw, privateKw, publicKw,
   internalKw, protectedKw, abstractKw, openKw]

def lexeme : Keyword → String
  | packageKw => "package"
  | importKw => "import"
  | interfaceKw => "interface"
  | classKw => "class"
  | dataKw => "data"
  | funKw => "fun"
  | valKw => "val"
  | varKw => "var"
  | ifKw => "if"
  | elseKw => "else"
  | whenKw => "when"
  | returnKw => "return"
  | asKw => "as"
  | nullKw => "null"
  | trueKw => "true"
  | falseKw => "false"
  | thisKw => "this"
  | overrideKw => "override"
  | privateKw => "private"
  | publicKw => "public"
  | internalKw => "internal"
  | protectedKw => "protected"
  | abstractKw => "abstract"
  | openKw => "open"

def ofLexeme? (word : String) : Option Keyword :=
  all.find? fun k => k.lexeme == word

theorem ofLexeme?_lexeme (k : Keyword) : ofLexeme? k.lexeme = some k := by
  cases k <;> decide +kernel

/-- A modifier keyword, which is an ordinary name elsewhere (`val data = …`). -/
def isSoft : Keyword → Bool
  | dataKw | overrideKw | privateKw | publicKw | internalKw | protectedKw | abstractKw
  | openKw => true
  | _ => false

end Keyword

/-- Punctuation and operators. -/
inductive Mark where
  | at | leftParen | rightParen | leftBrace | rightBrace | leftBracket | rightBracket
  | comma | dot | safeDot | dotDot | colon | doubleColon | semicolon | equal | doubleEqual
  | bang | bangBang | bangEqual | greater | greaterEqual | less | lessEqual | plus | minus
  | star | slash | percent | pipePipe | ampersands | arrow | question | elvis
deriving DecidableEq, Repr

namespace Mark

/-- The mark of one character. -/
def ofChar? : Char → Option Mark
  | '(' => some leftParen
  | ')' => some rightParen
  | '{' => some leftBrace
  | '}' => some rightBrace
  | '[' => some leftBracket
  | ']' => some rightBracket
  | ',' => some comma
  | ';' => some semicolon
  | '@' => some .at
  | '+' => some plus
  | '*' => some star
  | '/' => some slash
  | '%' => some percent
  | '.' => some dot
  | ':' => some colon
  | '=' => some equal
  | '!' => some bang
  | '>' => some greater
  | '<' => some less
  | '-' => some minus
  | '?' => some question
  | _ => none

/-- The mark of two characters. -/
def ofChars? : Char → Char → Option Mark
  | '.', '.' => some dotDot
  | ':', ':' => some doubleColon
  | '=', '=' => some doubleEqual
  | '!', '!' => some bangBang
  | '!', '=' => some bangEqual
  | '>', '=' => some greaterEqual
  | '<', '=' => some lessEqual
  | '-', '>' => some arrow
  | '?', '.' => some safeDot
  | '?', ':' => some elvis
  | '|', '|' => some pipePipe
  | '&', '&' => some ampersands
  | _, _ => none

end Mark

mutual

inductive TokenKind where
  | name (spelling : String)
  | integer (value : Nat)
  | long (value : Nat)
  | double (value : Float)
  | single (value : Float)
  | text (value : String)
  /-- The tokens of each `$name` and `${…}` of a string. -/
  | template (parts : List (List Token))
  | character (value : Char)
  | keyword (word : Keyword)
  | mark (sign : Mark)
  | newline
  | eof

structure Token where
  kind : TokenKind
  span : Span

end

instance : Inhabited TokenKind := ⟨.eof⟩
instance : Inhabited Token := ⟨⟨.eof, ⟨0, 0⟩⟩⟩

namespace TokenKind

def isNewline : TokenKind → Bool
  | newline => true
  | _ => false

def isEof : TokenKind → Bool
  | eof => true
  | _ => false

def isMark (sign : Mark) : TokenKind → Bool
  | mark m => m == sign
  | _ => false

def isKeyword (word : Keyword) : TokenKind → Bool
  | keyword k => k == word
  | _ => false

def isName (spelling : String) : TokenKind → Bool
  | name s => s == spelling
  | _ => false

/-- The name a token stands for where a name is expected. -/
def asName? : TokenKind → Option String
  | name s => some s
  | keyword k => if k.isSoft then some k.lexeme else none
  | _ => none

end TokenKind

end FrameCheck
