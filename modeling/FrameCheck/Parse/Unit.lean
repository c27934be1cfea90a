import FrameCheck.Parse.Decl
import FrameCheck.Token.Scan

/-!
# Parsing a source unit

Parsing never fails: what is not understood is skipped. Nested parts start behind a token
of their own, so the number of tokens, those of templates included, bounds the nesting, and
`SourceUnit.ofTokens` takes the grammar of that depth.

* `SourceUnit.ofTokens` : the tree of a list of tokens.
* `SourceUnit.ofText` : the tree of a text that splits into tokens.
-/

namespace FrameCheck

mutual

/-- The number of tokens in a token, with those of its templates. -/
def Token.weight : Token → Nat
  | ⟨kind, _⟩ => kind.weight + 1

def TokenKind.weight : TokenKind → Nat
  | .template parts => Token.partsWeight parts
  | _ => 0

def Token.listWeight : List Token → Nat
  | [] => 0
  | t :: ts => t.weight + Token.listWeight ts

def Token.partsWeight : List (List Token) → Nat
  | [] => 0
  | ts :: parts => Token.listWeight ts + Token.partsWeight parts

end

namespace SourceUnit

/-- The state at the start of a text. -/
def start (tokens : List Token) : ParseState := ⟨Cursor.ofTokens tokens, 0, 0, []⟩

def ofTokens (tokens : List Token) : SourceUnit :=
  match Parser.items (Grammar.ofDepth (Token.listWeight tokens)) (start tokens) with
  | .done items s => ⟨items, s.skipped.reverse⟩
  | .failed s => ⟨[], s.skipped.reverse⟩

def ofText (text : String) : Except ScanError SourceUnit :=
  (Token.scan text).map ofTokens

theorem ofText_ofList {text : String} {cs : List Char} (h : text = String.ofList cs) :
    ofText text = ((scanCode none 0 0 cs).map (·.value)).map ofTokens := by
  rw [ofText, Token.scan_ofList h]

/-- A test of the unit of a text may be run on the characters that spell the text. -/
theorem exists_ofText {text : String} {cs : List Char} {test : SourceUnit → Bool}
    (h : text = String.ofList cs)
    (ht : (((scanCode none 0 0 cs).map (·.value)).map ofTokens).toOption.any test = true) :
    ∃ u, ofText text = .ok u ∧ test u = true := by
  rw [ofText_ofList h]
  generalize ((scanCode none 0 0 cs).map (·.value)).map ofTokens = r at ht ⊢
  cases r with
  | error e => exact absurd ht Bool.false_ne_true
  | ok u => exact ⟨u, rfl, ht⟩

end SourceUnit

/-- What is reported of a text that does not split into tokens. -/
def ScanError.report (e : ScanError) : String := "Failed to tokenize source: " ++ e.message

end FrameCheck
