import FrameCheck.Parse.Unit
import Mathlib.Data.List.Basic

/-!
# Soft keywords in the place of a name

A `Softening` puts a soft keyword in the place of a name. Both stand for a name where a name is
expected, and most tests that a parser makes on a kind of token do not tell them apart; those for a
plain name and for the name of an operator do.

* `Token.softenAll` : a list of tokens, with those of its templates, after the replacement.
* `Cursor.soften` : the same place among the tokens.
-/

namespace FrameCheck

/-- A name that is replaced by a soft keyword. Tokens spelled `is`, `in`, `out` and `get` mean
something of their own in some places, and so does the type `*`. -/
structure Softening where
  name : String
  word : Keyword
  isSoft : word.isSoft = true
  ordinary : name ∉ ["is", "in", "out", "get", "*"]
  unreserved : Keyword.ofLexeme? name = none
  /-- A name with a dot in it could be taken for a qualified one. -/
  undotted : '.' ∉ name.toList

variable (σ : Softening)

namespace Softening

/-- What becomes of a name. -/
def on (n : String) : String := if n = σ.name then σ.word.lexeme else n

theorem on_name : σ.on σ.name = σ.word.lexeme := if_pos rfl

variable {σ}

theorem on_of_ne {n : String} (h : n ≠ σ.name) : σ.on n = n := if_neg h

theorem lexeme_ne (w : Keyword) : w.lexeme ≠ σ.name := by
  intro h
  have hnone := σ.unreserved
  rw [← h, Keyword.ofLexeme?_lexeme] at hnone
  exact Option.some_ne_none _ hnone

end Softening

mutual

def TokenKind.soften : TokenKind → TokenKind
  | .name n => if n = σ.name then .keyword σ.word else .name n
  | .template parts => .template (Token.softenParts parts)
  | k => k

def Token.soften : Token → Token
  | ⟨kind, span⟩ => ⟨kind.soften, span⟩

def Token.softenAll : List Token → List Token
  | [] => []
  | t :: ts => t.soften :: Token.softenAll ts

def Token.softenParts : List (List Token) → List (List Token)
  | [] => []
  | ts :: parts => Token.softenAll ts :: Token.softenParts parts

end

@[simp] theorem Token.softenAll_eq_map (ts : List Token) : softenAll σ ts = ts.map (soften σ) := by
  induction ts with
  | nil => rfl
  | cons t ts ih => rw [softenAll, ih, List.map_cons]

@[simp] theorem Token.softenParts_eq_map (parts : List (List Token)) :
    softenParts σ parts = parts.map (List.map (soften σ)) := by
  induction parts with
  | nil => rfl
  | cons ts parts ih => rw [softenParts, softenAll_eq_map, ih, List.map_cons]

@[simp] theorem Token.kind_soften (t : Token) : (t.soften σ).kind = t.kind.soften σ := by
  rcases t with ⟨kind, span⟩
  rw [soften]

@[simp] theorem Token.span_soften (t : Token) : (t.soften σ).span = t.span := by
  rcases t with ⟨kind, span⟩
  rw [soften]

/-! ## Kinds -/

namespace TokenKind

theorem soften_name : (name σ.name).soften σ = keyword σ.word := by
  rw [soften, if_pos rfl]

/-- The name is replaced, templates are changed inside, and all else is left. -/
theorem soften_cases (k : TokenKind) :
    k = .name σ.name ∨ (∃ parts, k = .template parts) ∨
      k.isName σ.name = false ∧ (∀ parts, k ≠ .template parts) ∧ k.soften σ = k := by
  cases k
  case name n =>
    by_cases hn : n = σ.name
    · exact Or.inl (congrArg _ hn)
    · refine Or.inr (Or.inr ⟨beq_eq_false_iff_ne.2 hn, nofun, ?_⟩)
      rw [soften, if_neg hn]
  case template parts => exact Or.inr (Or.inl ⟨parts, rfl⟩)
  all_goals exact Or.inr (Or.inr ⟨rfl, nofun, by rw [soften] <;> exact nofun⟩)

theorem isName_name (n : String) : (name n).isName n = true := beq_self_eq_true n

theorem asName?_of_isName {k : TokenKind} {n : String} (h : k.isName n = true) :
    k.asName? = some n := by
  cases k with
  | name m => exact congrArg some (beq_iff_eq.1 h)
  | _ => exact nomatch h

theorem isName_of_plainName? {k : TokenKind} {n : String} (h : k.plainName?.isSome = true)
    (hn : k.asName? = some n) : k.isName n = true := by
  cases k with
  | name m => exact beq_iff_eq.2 (Option.some.inj hn)
  | _ => exact nomatch h

variable {σ}

/-- A test that neither a template nor the name passes gives what it gave before. -/
theorem test_soften {α : Type} (test : TokenKind → α)
    (h : ∀ parts parts', test (.template parts) = test (.template parts'))
    (hname : test (.keyword σ.word) = test (.name σ.name)) (k : TokenKind) :
    test (k.soften σ) = test k := by
  rcases k.soften_cases σ with rfl | ⟨parts, rfl⟩ | ⟨-, -, hk⟩
  · rw [soften_name, hname]
  · rw [soften]
    exact h _ _
  · rw [hk]

@[simp] theorem isNewline_soften (k : TokenKind) : (k.soften σ).isNewline = k.isNewline :=
  test_soften isNewline (fun _ _ => rfl) rfl k

@[simp] theorem isEof_soften (k : TokenKind) : (k.soften σ).isEof = k.isEof :=
  test_soften isEof (fun _ _ => rfl) rfl k

@[simp] theorem isMark_soften (k : TokenKind) (m : Mark) : (k.soften σ).isMark m = k.isMark m :=
  test_soften (isMark m) (fun _ _ => rfl) rfl k

@[simp] theorem isSeparator_soften (k : TokenKind) : (k.soften σ).isSeparator = k.isSeparator :=
  test_soften isSeparator (fun _ _ => rfl) rfl k

@[simp] theorem isAccess_soften (k : TokenKind) : (k.soften σ).isAccess = k.isAccess :=
  test_soften isAccess (fun _ _ => rfl) rfl k

@[simp] theorem endsStatement_soften (k : TokenKind) :
    (k.soften σ).endsStatement = k.endsStatement :=
  test_soften endsStatement (fun _ _ => rfl) rfl k

/-- A keyword that is not soft is found where it was. -/
theorem isKeyword_soften {w : Keyword} (hw : w.isSoft = false) (k : TokenKind) :
    (k.soften σ).isKeyword w = k.isKeyword w :=
  test_soften (isKeyword w) (fun _ _ => rfl)
    (beq_eq_false_iff_ne.2 fun h => by simp [← h, σ.isSoft] at hw) k

/-- A name that means something of its own is found where it was. -/
theorem isName_soften {n : String} (hn : n ∈ ["is", "in", "out", "get", "*"]) (k : TokenKind) :
    (k.soften σ).isName n = k.isName n := by
  refine test_soften (isName n) (fun _ _ => rfl) ?_ k
  exact (beq_eq_false_iff_ne.2 fun (h : σ.name = n) => σ.ordinary (h.symm ▸ hn)).symm

/-- The name that a token stands for is replaced. -/
@[simp] theorem asName?_soften (k : TokenKind) : (k.soften σ).asName? = k.asName?.map σ.on := by
  rcases k.soften_cases σ with rfl | ⟨parts, rfl⟩ | ⟨hname, -, hk⟩
  · rw [soften_name]
    simp [asName?, σ.isSoft, σ.on_name]
  · rw [soften]
    rfl
  · rw [hk]
    cases k with
    | name n =>
      exact congrArg some (Softening.on_of_ne (beq_eq_false_iff_ne.1 hname)).symm
    | keyword w =>
      rw [asName?]
      split
      · exact congrArg some (Softening.on_of_ne (Softening.lexeme_ne w)).symm
      · rfl
    | _ => rfl

/-- A soft keyword is no plain name. -/
theorem plainName?_soften (k : TokenKind) :
    (k.soften σ).plainName? = if k.isName σ.name then none else k.plainName? := by
  rcases k.soften_cases σ with rfl | ⟨parts, rfl⟩ | ⟨hname, -, hk⟩
  · rw [soften_name, if_pos (isName_name _)]
    rfl
  · rw [soften]
    rfl
  · rw [hk, hname, if_neg Bool.false_ne_true]

end TokenKind

@[simp] theorem UnaryOp.ofToken?_soften (k : TokenKind) :
    ofToken? (k.soften σ) = ofToken? k :=
  TokenKind.test_soften ofToken? (fun _ _ => rfl) rfl k

@[simp] theorem Literal.ofToken?_soften (k : TokenKind) :
    ofToken? (k.soften σ) = ofToken? k := by
  refine TokenKind.test_soften ofToken? (fun _ _ => rfl) ?_ k
  have hsoft := σ.isSoft
  cases h : σ.word <;> first | rfl | exact absurd hsoft (by rw [h]; decide)

/-- A soft keyword is no operator. -/
theorem BinaryOp.ofToken?_soften (k : TokenKind) :
    ofToken? (k.soften σ) = if k.isName σ.name then none else ofToken? k := by
  rcases k.soften_cases σ with rfl | ⟨parts, rfl⟩ | ⟨hname, -, hk⟩
  · rw [TokenKind.soften_name, if_pos (TokenKind.isName_name _)]
    rfl
  · rw [TokenKind.soften]
    rfl
  · rw [hk, hname, if_neg Bool.false_ne_true]

/-! ## Places -/

namespace Cursor

/-- The same place among the tokens. -/
def soften (c : Cursor) : Cursor := ⟨c.here.soften σ, c.ahead.map (Token.soften σ), c.last⟩

variable {σ} (c : Cursor)

@[simp] theorem kind_soften : (c.soften σ).kind = c.kind.soften σ := c.here.kind_soften σ

@[simp] theorem last_soften : (c.soften σ).last = c.last := rfl

@[simp] theorem length_ahead_soften : (c.soften σ).ahead.length = c.ahead.length :=
  List.length_map _

@[simp] theorem advance_soften : (c.soften σ).advance = c.advance.soften σ := by
  rcases c with ⟨here, ahead, last⟩
  cases ahead with
  | nil => rfl
  | cons t ts => simp [soften, advance]

@[simp] theorem kindAt_soften (n : Nat) : (c.soften σ).kindAt n = (c.kindAt n).soften σ := by
  rcases c with ⟨here, ahead, last⟩
  cases n with
  | zero => exact here.kind_soften σ
  | succ n =>
    have hlast : (ahead.map (Token.soften σ)).getLastD (here.soften σ)
        = (ahead.getLastD here).soften σ := by
      rw [List.getLastD_eq_getLast?, List.getLast?_map, List.getLastD_eq_getLast?]
      cases ahead.getLast? <;> rfl
    show ((ahead.map (Token.soften σ))[n]?.getD
      ((ahead.map (Token.soften σ)).getLastD (here.soften σ))).kind = _
    rw [hlast, List.getElem?_map, kindAt]
    cases h : ahead[n]? with
    | none => exact Token.kind_soften σ _
    | some t => exact Token.kind_soften σ t

@[simp] theorem kindAt?_soften (n : Nat) :
    (c.soften σ).kindAt? n = (c.kindAt? n).map (TokenKind.soften σ) := by
  cases n with
  | zero => exact congrArg some c.kind_soften
  | succ n =>
    simp only [kindAt?, soften, List.getElem?_map, Option.map_map]
    exact Option.map_congr fun t _ => t.kind_soften σ

theorem skipWhile_soften {skipped : TokenKind → Bool}
    (h : ∀ k : TokenKind, skipped (k.soften σ) = skipped k) :
    (c.soften σ).skipWhile skipped = (c.skipWhile skipped).soften σ := by
  obtain ⟨here, ahead, last⟩ := c
  show skipFrom skipped (here.soften σ) last (ahead.map (Token.soften σ))
    = (skipFrom skipped here last ahead).soften σ
  induction ahead generalizing here last with
  | nil => rfl
  | cons t ts ih =>
    rw [List.map_cons, skipFrom, skipFrom, Token.kind_soften, h]
    split
    · rw [Token.span_soften, ih]
    · rfl

@[simp] theorem pastNewlines_soften : (c.soften σ).pastNewlines = c.pastNewlines.soften σ :=
  c.skipWhile_soften fun k => k.isNewline_soften

theorem ofTokens_soften (ts : List Token) :
    ofTokens (ts.map (Token.soften σ)) = (ofTokens ts).soften σ := by
  cases ts with
  | nil => rfl
  | cons t ts => simp [ofTokens, soften]

end Cursor

end FrameCheck
