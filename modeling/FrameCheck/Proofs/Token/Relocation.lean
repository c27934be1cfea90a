import FrameCheck.Parse.Unit
import Mathlib.Order.MinMax

/-!
# Tokens at other places

A `Relocation` gives each offset a new one and keeps their order, on its own for the offsets
at which tokens start and for those at which they stop; so it goes together with joining
spans. The `eof` of a text or a template stands behind the blanks that end it, and what is
joined never reaches it: its span may change in any way.

Relocating changes spans only. Every test that a parser makes on a kind of token gives what
it gave before.

* `Token.relocateAll` : a list of tokens, with those of its templates, at other places.
* `Cursor.relocate` : the same place among the tokens.
-/

namespace FrameCheck

/-- New offsets for the starts and the stops of spans, in the same order. -/
structure Relocation where
  start : Nat → Nat
  stop : Nat → Nat
  /-- The span of the end of a text or a template. -/
  last : Span → Span
  start_mono : Monotone start
  stop_mono : Monotone stop

def Relocation.span (r : Relocation) (s : Span) : Span := ⟨r.start s.start, r.stop s.stop⟩

theorem Relocation.span_join (r : Relocation) (a b : Span) :
    r.span (a.join b) = (r.span a).join (r.span b) := by
  unfold span Span.join
  rw [r.start_mono.map_min, r.stop_mono.map_max]

mutual

def TokenKind.relocate (r : Relocation) : TokenKind → TokenKind
  | .template parts => .template (Token.relocateParts r parts)
  | k => k

/-- A token at another place; `atEnd` says that it is the last of its list. -/
def Token.relocate (r : Relocation) (atEnd : Bool) : Token → Token
  | ⟨kind, span⟩ =>
    ⟨kind.relocate r, if atEnd && kind.isEof then r.last span else r.span span⟩

def Token.relocateAll (r : Relocation) : List Token → List Token
  | [] => []
  | t :: ts => t.relocate r ts.isEmpty :: Token.relocateAll r ts

def Token.relocateParts (r : Relocation) : List (List Token) → List (List Token)
  | [] => []
  | ts :: parts => Token.relocateAll r ts :: Token.relocateParts r parts

end

variable (r : Relocation)

/-! ## Kinds -/

namespace TokenKind

/-- A relocation changes no kind but that of a template. -/
theorem relocate_cases (k : TokenKind) :
    (∃ parts, k = .template parts) ∨ k.relocate r = k ∧ ∀ parts, k ≠ .template parts := by
  cases k
  case template parts => exact Or.inl ⟨parts, rfl⟩
  all_goals exact Or.inr ⟨by rw [relocate]; exact nofun, nofun⟩

/-- A test that no template passes gives what it gave before. -/
theorem test_relocate {α : Type} (test : TokenKind → α)
    (h : ∀ parts parts', test (.template parts) = test (.template parts')) (k : TokenKind) :
    test (k.relocate r) = test k := by
  rcases k.relocate_cases r with ⟨parts, rfl⟩ | ⟨hk, -⟩
  · rw [relocate]
    exact h _ _
  · rw [hk]

@[simp] theorem isNewline_relocate (k : TokenKind) : (k.relocate r).isNewline = k.isNewline :=
  k.test_relocate r _ fun _ _ => rfl

@[simp] theorem isEof_relocate (k : TokenKind) : (k.relocate r).isEof = k.isEof :=
  k.test_relocate r _ fun _ _ => rfl

@[simp] theorem isMark_relocate (k : TokenKind) (m : Mark) :
    (k.relocate r).isMark m = k.isMark m :=
  k.test_relocate r (isMark m) fun _ _ => rfl

@[simp] theorem isKeyword_relocate (k : TokenKind) (w : Keyword) :
    (k.relocate r).isKeyword w = k.isKeyword w :=
  k.test_relocate r (isKeyword w) fun _ _ => rfl

@[simp] theorem isName_relocate (k : TokenKind) (n : String) :
    (k.relocate r).isName n = k.isName n :=
  k.test_relocate r (isName n) fun _ _ => rfl

@[simp] theorem asName?_relocate (k : TokenKind) : (k.relocate r).asName? = k.asName? :=
  k.test_relocate r _ fun _ _ => rfl

@[simp] theorem plainName?_relocate (k : TokenKind) : (k.relocate r).plainName? = k.plainName? :=
  k.test_relocate r _ fun _ _ => rfl

@[simp] theorem isSeparator_relocate (k : TokenKind) :
    (k.relocate r).isSeparator = k.isSeparator :=
  k.test_relocate r _ fun _ _ => rfl

@[simp] theorem isAccess_relocate (k : TokenKind) : (k.relocate r).isAccess = k.isAccess :=
  k.test_relocate r _ fun _ _ => rfl

@[simp] theorem isModifierKeyword_relocate (k : TokenKind) :
    (k.relocate r).isModifierKeyword = k.isModifierKeyword :=
  k.test_relocate r _ fun _ _ => rfl

@[simp] theorem isModifierName_relocate (k : TokenKind) :
    (k.relocate r).isModifierName = k.isModifierName :=
  k.test_relocate r _ fun _ _ => rfl

@[simp] theorem isOpening_relocate (k : TokenKind) : (k.relocate r).isOpening = k.isOpening :=
  k.test_relocate r _ fun _ _ => rfl

@[simp] theorem isClosing_relocate (k : TokenKind) : (k.relocate r).isClosing = k.isClosing :=
  k.test_relocate r _ fun _ _ => rfl

@[simp] theorem endsStatement_relocate (k : TokenKind) :
    (k.relocate r).endsStatement = k.endsStatement :=
  k.test_relocate r _ fun _ _ => rfl

end TokenKind

@[simp] theorem BinaryOp.ofToken?_relocate (k : TokenKind) :
    ofToken? (k.relocate r) = ofToken? k :=
  k.test_relocate r _ fun _ _ => rfl

@[simp] theorem UnaryOp.ofToken?_relocate (k : TokenKind) :
    ofToken? (k.relocate r) = ofToken? k :=
  k.test_relocate r _ fun _ _ => rfl

@[simp] theorem Literal.ofToken?_relocate (k : TokenKind) :
    ofToken? (k.relocate r) = ofToken? k :=
  k.test_relocate r _ fun _ _ => rfl

/-! ## Tokens -/

namespace Token

@[simp] theorem kind_relocate (atEnd : Bool) (t : Token) :
    (t.relocate r atEnd).kind = t.kind.relocate r := by
  rcases t with ⟨kind, span⟩
  rw [relocate]

theorem span_relocate {atEnd : Bool} {t : Token} (h : (atEnd && t.kind.isEof) = false) :
    (t.relocate r atEnd).span = r.span t.span := by
  rcases t with ⟨kind, span⟩
  simp only at h
  rw [relocate]
  simp [h]

@[simp] theorem span_relocate_false (t : Token) : (t.relocate r false).span = r.span t.span :=
  span_relocate r rfl

@[simp] theorem length_relocateAll : ∀ ts : List Token, (relocateAll r ts).length = ts.length
  | [] => by rw [relocateAll]
  | t :: ts => by rw [relocateAll, List.length_cons, length_relocateAll ts, List.length_cons]

@[simp] theorem isEmpty_relocateAll (ts : List Token) :
    (relocateAll r ts).isEmpty = ts.isEmpty := by
  cases ts <;> simp [relocateAll]

theorem map_kind_relocateAll : ∀ ts : List Token,
    (relocateAll r ts).map kind = (ts.map kind).map (TokenKind.relocate r)
  | [] => by simp [relocateAll]
  | t :: ts => by simp [relocateAll, map_kind_relocateAll ts]

theorem relocateParts_eq_map : ∀ parts : List (List Token),
    relocateParts r parts = parts.map (relocateAll r)
  | [] => by simp [relocateParts]
  | ts :: parts => by simp [relocateParts, relocateParts_eq_map parts]

end Token

mutual

theorem Token.weight_relocate (atEnd : Bool) : ∀ t : Token, (t.relocate r atEnd).weight = t.weight
  | ⟨kind, _⟩ => by simp [Token.relocate, Token.weight, kind.weight_relocate]

theorem TokenKind.weight_relocate : ∀ k : TokenKind, (k.relocate r).weight = k.weight
  | .template parts => by
    simp [TokenKind.relocate, TokenKind.weight, Token.partsWeight_relocateParts parts]
  | .name _ | .integer _ | .long _ | .double _ | .single _ | .text _ | .character _
  | .keyword _ | .mark _ | .newline | .eof => by simp [TokenKind.relocate]

theorem Token.listWeight_relocateAll : ∀ ts : List Token,
    Token.listWeight (Token.relocateAll r ts) = Token.listWeight ts
  | [] => by simp [Token.relocateAll]
  | t :: ts => by
    simp [Token.relocateAll, Token.listWeight, t.weight_relocate ts.isEmpty,
      Token.listWeight_relocateAll ts]

theorem Token.partsWeight_relocateParts : ∀ parts : List (List Token),
    Token.partsWeight (Token.relocateParts r parts) = Token.partsWeight parts
  | [] => by simp [Token.relocateParts]
  | ts :: parts => by
    simp [Token.relocateParts, Token.partsWeight, Token.listWeight_relocateAll ts,
      Token.partsWeight_relocateParts parts]

end

/-! ## Cursors -/

namespace Cursor

def relocate (c : Cursor) : Cursor :=
  ⟨c.here.relocate r c.ahead.isEmpty, Token.relocateAll r c.ahead, r.span c.last⟩

@[simp] theorem kind_relocate (c : Cursor) : (c.relocate r).kind = c.kind.relocate r :=
  c.here.kind_relocate r _

@[simp] theorem length_ahead_relocate (c : Cursor) :
    (c.relocate r).ahead.length = c.ahead.length :=
  Token.length_relocateAll r c.ahead

@[simp] theorem last_relocate (c : Cursor) : (c.relocate r).last = r.span c.last := rfl

/-- The span of a token that is no end. -/
theorem span_here_relocate {c : Cursor} (h : c.kind.isEof = false) :
    (c.relocate r).here.span = r.span c.here.span :=
  Token.span_relocate r (by
    rw [show c.here.kind.isEof = false from h, Bool.and_false])

theorem advance_relocate (c : Cursor) : (c.relocate r).advance = c.advance.relocate r := by
  rcases c with ⟨here, _ | ⟨t, ts⟩, last⟩
  · simp [relocate, advance, Token.relocateAll]
  · simp [relocate, advance, Token.relocateAll, Token.span_relocate]

@[simp] theorem kindAt_relocate (c : Cursor) (n : Nat) :
    (c.relocate r).kindAt n = (c.kindAt n).relocate r := by
  cases n with
  | zero => exact c.kind_relocate r
  | succ n =>
    -- both sides read a list of kinds
    have hkind (o : Option Token) (t : Token) :
        (o.getD t).kind = (o.map Token.kind).getD t.kind := by cases o <;> rfl
    have hlast (ts : List Token) (t : Token) :
        (ts.getLastD t).kind = (ts.map Token.kind).getLastD t.kind := by
      rw [List.getLastD_eq_getLast?, List.getLastD_eq_getLast?, List.getLast?_map, hkind]
    have hmap (o : Option TokenKind) (k : TokenKind) :
        (o.map (TokenKind.relocate r)).getD (k.relocate r) = (o.getD k).relocate r := by
      cases o <;> rfl
    simp only [kindAt, relocate, hkind, hlast, ← List.getElem?_map, Token.map_kind_relocateAll,
      Token.kind_relocate]
    rw [List.getElem?_map, List.getLastD_eq_getLast?, List.getLast?_map,
      hmap, List.getLastD_eq_getLast?, hmap]

@[simp] theorem kindAt?_relocate (c : Cursor) (n : Nat) :
    (c.relocate r).kindAt? n = (c.kindAt? n).map (TokenKind.relocate r) := by
  cases n with
  | zero => simp [kindAt?]
  | succ n =>
    simp only [kindAt?, relocate]
    rw [← List.getElem?_map, Token.map_kind_relocateAll, List.getElem?_map, List.getElem?_map]

theorem skipFrom_relocate {skipped : TokenKind → Bool}
    (h : ∀ k, skipped (k.relocate r) = skipped k) :
    ∀ (ts : List Token) (here : Token) (last : Span),
      skipFrom skipped (here.relocate r ts.isEmpty) (r.span last) (Token.relocateAll r ts)
        = (skipFrom skipped here last ts).relocate r
  | [], here, last => by simp [skipFrom, relocate, Token.relocateAll]
  | t :: ts, here, last => by
    simp only [skipFrom, Token.relocateAll, Token.kind_relocate, h]
    split
    · rw [← skipFrom_relocate h ts t here.span, Token.span_relocate r (by simp)]
    · simp [relocate, Token.relocateAll]

theorem skipWhile_relocate {skipped : TokenKind → Bool}
    (h : ∀ k, skipped (k.relocate r) = skipped k) (c : Cursor) :
    (c.relocate r).skipWhile skipped = (c.skipWhile skipped).relocate r :=
  skipFrom_relocate r h c.ahead c.here c.last

@[simp] theorem pastNewlines_relocate (c : Cursor) :
    (c.relocate r).pastNewlines = c.pastNewlines.relocate r :=
  skipWhile_relocate r (fun k => k.isNewline_relocate r) c

theorem pastNewlines_of_isEof {c : Cursor} (h : c.kind.isEof = true) : c.pastNewlines = c := by
  have hk : c.here.kind.isNewline = false := by
    unfold kind at h
    cases hh : c.here.kind <;> first | rfl | (rw [hh] at h; exact nomatch h)
  rcases c with ⟨here, _ | ⟨t, ts⟩, last⟩
  · rfl
  · simp only at hk
    simp [pastNewlines, skipWhile, skipFrom, hk]

/-- The start of a list of tokens that is not at its end. -/
theorem ofTokens_relocateAll {ts : List Token} (h : (ofTokens ts).kind.isEof = false) :
    ofTokens (Token.relocateAll r ts) = (ofTokens ts).relocate r := by
  cases ts with
  | nil => exact absurd h (by decide)
  | cons t ts =>
    have ht : (ts.isEmpty && t.kind.isEof) = false := by
      rw [show t.kind.isEof = false from h, Bool.and_false]
    simp only [ofTokens, Token.relocateAll, relocate, Token.span_relocate r ht]

/-- The end of a list of tokens is its end behind a relocation. -/
theorem isEof_ofTokens_relocateAll (ts : List Token) :
    (ofTokens (Token.relocateAll r ts)).kind.isEof = (ofTokens ts).kind.isEof := by
  cases ts with
  | nil => rw [Token.relocateAll]
  | cons t ts => simp [ofTokens, kind, Token.relocateAll]

end Cursor

theorem BinaryOp.at?_relocate (c : Cursor) : at? (c.relocate r) = at? c := by
  simp [at?]

namespace Parser

theorem skipStatementFrom_relocate :
    ∀ (ts : List Token) (depth : Nat) (here : Token) (last : Span),
      skipStatementFrom depth (here.relocate r ts.isEmpty) (r.span last) (Token.relocateAll r ts)
        = (skipStatementFrom depth here last ts).relocate r
  | [], depth, here, last => by simp [skipStatementFrom, Cursor.relocate, Token.relocateAll]
  | t :: ts, depth, here, last => by
    simp only [skipStatementFrom, Token.relocateAll, Token.kind_relocate,
      TokenKind.isEof_relocate, TokenKind.endsStatement_relocate, TokenKind.isOpening_relocate,
      TokenKind.isClosing_relocate]
    split
    · simp [Cursor.relocate, Token.relocateAll]
    · rw [← skipStatementFrom_relocate ts _ t here.span, Token.span_relocate r (by simp)]

end Parser

/-! ## States -/

def ParseState.relocate (s : ParseState) : ParseState :=
  ⟨s.cursor.relocate r, s.nextExpr, s.nextDecl, s.skipped.map r.span⟩

end FrameCheck
