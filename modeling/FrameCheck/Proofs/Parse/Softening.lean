import FrameCheck.Proofs.Parse.Erasure
import FrameCheck.Proofs.Parse.Totality
import FrameCheck.Proofs.Token.Softening
import FrameCheck.Proofs.Tree.Softening

/-!
# Soft keywords in expressions
-/

namespace FrameCheck

/-! ## Tokens in which a name can be replaced -/

/-- What stands for the name of a function, behind its keyword and its type parameters. -/
def Parser.functionHead (g : Grammar) : Parser TypeRef := do
  let _ ← advance
  let _ ← newDecl
  if ← atMark .less then skipTypeParameters
  typeRef g

/-- Behind the token the parser neither drops nor passes over a name. -/
def TokenKind.isUndemanding : TokenKind → Bool
  | .name n => n != "is" && !n.toList.contains '.'
  | .mark m => m ∉ [Mark.at, .less, .comma, .colon]
  | .keyword w => w ∉ [Keyword.funKw, .valKw, .varKw]
  | _ => true

namespace Softening

/-- What the replacement needs of a token and of those behind it. The parser drops some of what it
reads, and names in there are not found in the tree. -/
structure Suits (σ : Softening) (t : Token) (rest : List Token) : Prop where
  /-- Annotations of parameters are dropped. -/
  unmarked : t.kind.isMark .at = false
  undotted : ∀ n, t.kind = .name n → '.' ∉ n.toList
  /-- The name stands behind no variance mark, for those are passed over. -/
  invariant : t.kind.isMark .less = true ∨ t.kind.isMark .comma = true →
    ∀ u v more, rest = u :: v :: more → u.kind.isName "out" = true ∨ u.kind.isName "in" = true →
      v.kind.isName σ.name = false
  /-- The type of a test, of the variable of a `when` and of a getter are dropped. -/
  type_dropped : t.kind.isName "is" = true ∨ t.kind.isMark .colon = true →
    ∀ n s type u, s.cursor.rest = t :: rest →
      (Parser.advance >>= fun _ => Parser.typeRef (Grammar.ofDepth n)) s = .done type u →
        σ.name ∉ type.strictNames
  /-- Type arguments behind the name of a function are dropped. -/
  args_dropped : t.kind.isKeyword .funKw = true →
    ∀ n s head u, s.cursor.rest = t :: rest →
      Parser.functionHead (Grammar.ofDepth n) s = .done head u →
        σ.name ∉ TypeRef.strictNamesAll head.args
  /-- The initializer of an extension property is dropped. -/
  init_dropped : t.kind.isKeyword .valKw = true ∨ t.kind.isKeyword .varKw = true →
    ∀ n s v u, s.cursor.rest = t :: rest → Parser.valDecl (Grammar.ofDepth n) s = .done v u →
      v.receiver.isSome = true → σ.name ∉ Expr.strictNames? v.init

/-- The name can be replaced in the tokens, and in those of their templates. -/
def Suited (σ : Softening) (ts : List Token) : Prop :=
  ∀ us, Token.Within ts us → ∀ t rest, t :: rest <:+ us → σ.Suits t rest

variable {σ : Softening} {ts us : List Token}

theorem Suited.within (h : σ.Suited ts) (hus : Token.Within ts us) : σ.Suited us :=
  fun vs hvs => h vs (hus.trans hvs)

theorem Suited.of_suffix (h : σ.Suited us) (hs : ts <:+ us) : σ.Suited ts := by
  intro vs hvs t rest hrest
  rcases hvs.of_suffix hs with rfl | hvs
  · exact h us .self t rest (hrest.trans hs)
  · exact h vs hvs t rest hrest

theorem Suited.part {t : Token} {part : List Token} (h : σ.Suited ts) (ht : t ∈ ts)
    (hpart : part ∈ t.kind.parts) : σ.Suited part :=
  h.within (.part .self ht hpart)

/-- No name stands in the end of a text. -/
theorem Suited.ofTokens (h : σ.Suited ts) : σ.Suited (Cursor.ofTokens ts).rest := by
  cases ts with
  | cons t ts => exact h
  | nil =>
    have hself {us : List Token} (hus : Token.Within [default] us) : us = [default] := by
      induction hus with
      | self => rfl
      | part _ ht hpart ih =>
        obtain rfl := List.mem_singleton.1 (ih ▸ ht)
        exact nomatch hpart
    intro us hus t rest hrest
    obtain rfl := hself hus
    have hnil : t = default ∧ rest = [] := by
      rcases List.suffix_cons_iff.1 hrest with heq | hnil
      · exact List.cons.inj heq
      · exact nomatch List.suffix_nil.1 hnil
    obtain ⟨rfl, rfl⟩ := hnil
    exact ⟨rfl, nofun, fun h => absurd h (by decide), fun h => absurd h (by decide), nofun,
      fun h => absurd h (by decide)⟩

theorem Suits.of_undemanding {t : Token} (rest : List Token) (h : t.kind.isUndemanding = true) :
    σ.Suits t rest := by
  have hmark {m : Mark} (hm : m ∈ [Mark.at, .less, .comma, .colon]) : t.kind.isMark m = false := by
    refine Bool.eq_false_iff.2 fun hkind => ?_
    cases hk : t.kind <;> simp [hk, TokenKind.isMark, TokenKind.isUndemanding] at hkind h
    subst hkind
    simp [h] at hm
  have hkeyword {w : Keyword} (hw : w ∈ [Keyword.funKw, .valKw, .varKw]) :
      t.kind.isKeyword w = false := by
    refine Bool.eq_false_iff.2 fun hkind => ?_
    cases hk : t.kind <;> simp [hk, TokenKind.isKeyword, TokenKind.isUndemanding] at hkind h
    subst hkind
    simp [h] at hw
  have his : t.kind.isName "is" = false := by
    refine Bool.eq_false_iff.2 fun hkind => ?_
    cases hk : t.kind <;> simp [hk, TokenKind.isName, TokenKind.isUndemanding] at hkind h
    exact h.1 hkind
  refine ⟨hmark (by decide), fun n hn => ?_, fun h => ?_, fun h => ?_, fun h => ?_, fun h => ?_⟩
  · rw [hn] at h
    simpa [TokenKind.isUndemanding] using (Bool.and_eq_true_iff.1 h).2
  · simp [hmark] at h
  · simp [hmark, his] at h
  · simp [hkeyword] at h
  · simp [hkeyword] at h

/-- It is enough that each token drops nothing, and that templates are suited. -/
theorem Suited.of_undemanding (h : ∀ t ∈ ts, t.kind.isUndemanding = true)
    (hparts : ∀ t ∈ ts, ∀ part ∈ t.kind.parts, σ.Suited part) : σ.Suited ts := by
  have hwithin {us : List Token} (hus : Token.Within ts us) : us = ts ∨ σ.Suited us := by
    induction hus with
    | self => exact Or.inl rfl
    | part _ ht hpart ih =>
      rcases ih with rfl | hsuited
      · exact Or.inr (hparts _ ht _ hpart)
      · exact Or.inr (hsuited.part ht hpart)
  intro us hus t rest hrest
  rcases hwithin hus with rfl | hsuited
  · exact .of_undemanding rest (h t (hrest.subset List.mem_cons_self))
  · exact hsuited us .self t rest hrest

theorem Suited.head {t : Token} {rest : List Token} (h : σ.Suited (t :: rest)) : σ.Suits t rest :=
  h _ .self t rest (List.suffix_refl _)

end Softening

/-! ## Values with names -/

/-- Values in which names stand. -/
class Named (α : Type) extends Erasable α where
  /-- The value with its names changed. -/
  rename : Softening → α → α
  /-- The names that are no soft keywords. -/
  strict : α → List String

namespace Named

open Erasable

/-- A value in which no name stands. -/
@[reducible] def plain (α : Type) [Erasable α] : Named α := { rename _ a := a, strict _ := [] }

instance : Named Unit := plain Unit
instance : Named Bool := plain Bool
instance : Named Nat := plain Nat
instance : Named Span := plain Span
instance : Named Token := { rename := Token.soften, strict _ := [] }
instance : Named TokenKind := { rename := TokenKind.soften, strict _ := [] }
instance : Named Cursor := { rename := Cursor.soften, strict _ := [] }
instance : Named (UnaryOp × Span) := plain _
instance : Named (String × Span) := { rename σ x := (σ.on x.1, x.2), strict _ := [] }

instance : Named TypeRef := { rename σ := TypeRef.renamed σ.on, strict := TypeRef.strictNames }
instance : Named Expr := { rename σ := Expr.renamed σ.on, strict := Expr.strictNames }
instance : Named Argument := { rename σ := Argument.renamed σ.on, strict := Argument.strictNames }
instance : Named LambdaParam :=
  { rename σ := LambdaParam.renamed σ.on, strict := LambdaParam.strictNames }
instance : Named WhenBranch :=
  { rename σ := WhenBranch.renamed σ.on, strict := WhenBranch.strictNames }
instance : Named Block := { rename σ := Block.renamed σ.on, strict := Block.strictNames }
instance : Named Stmt := { rename σ := Stmt.renamed σ.on, strict := Stmt.strictNames }
instance : Named Body := { rename σ := Body.renamed σ.on, strict := Body.strictNames }
instance : Named Param := { rename σ := Param.renamed σ.on, strict := Param.strictNames }
instance : Named FunDecl := { rename σ := FunDecl.renamed σ.on, strict := FunDecl.strictNames }
instance : Named ValDecl := { rename σ := ValDecl.renamed σ.on, strict := ValDecl.strictNames }

variable {α β : Type} [Named α] [Named β]

instance : Named (Option α) where
  rename σ := Option.map (rename σ)
  strict o := o.toList.flatMap strict

instance : Named (List α) where
  rename σ := List.map (rename σ)
  strict l := l.flatMap strict

/-- A type whose values hold no ids, and no name that matters. -/
class Nameless (α : Type) [Named α] : Prop extends Idless α where
  strict_eq : ∀ a : α, strict a = []

instance : Nameless Unit := { strict_eq _ := rfl }
instance : Nameless Bool := { strict_eq _ := rfl }
instance : Nameless Nat := { strict_eq _ := rfl }
instance : Nameless Span := { strict_eq _ := rfl }
instance : Nameless Token := { strict_eq _ := rfl }
instance : Nameless TokenKind := { strict_eq _ := rfl }
instance : Nameless (String × Span) := { strict_eq _ := rfl }
instance : Nameless (UnaryOp × Span) := { strict_eq _ := rfl }

instance [Nameless α] : Nameless (List α) where
  strict_eq _ := List.flatMap_eq_nil_iff.2 fun a _ => Nameless.strict_eq a

/-- The value is the one with its names changed, up to ids. -/
def Same (σ : Softening) (a b : α) : Prop := erase b = erase (rename σ a)

/-- The name is none of those that are no soft keywords. -/
def Clean (σ : Softening) (a : α) : Prop := σ.name ∉ strict a

theorem Same.eq {σ : Softening} [Idless α] {a b : α} (h : Same σ a b) : b = rename σ a := by
  have h : erase b = erase (rename σ a) := h
  rwa [Idless.erase_eq, Idless.erase_eq] at h

theorem Nameless.clean {σ : Softening} [Nameless α] (a : α) : Clean σ a := by
  rw [Clean, strict_eq]
  exact List.not_mem_nil

variable {σ : Softening}

theorem clean_none : Clean σ (none : Option α) := List.not_mem_nil

theorem clean_some {a : α} : Clean σ (some a) ↔ Clean σ a := by
  simp [Clean, strict]

theorem clean_cons {a : α} {as : List α} : Clean σ (a :: as) ↔ Clean σ a ∧ Clean σ as := by
  simp [Clean, strict]

theorem clean_append {as : List α} {a : α} :
    Clean σ (as ++ [a]) ↔ Clean σ as ∧ Clean σ a := by
  simp [Clean, strict]

theorem same_append {as as' : List α} {a a' : α} (has : Same σ as as') (ha : Same σ a a') :
    Same σ (as ++ [a]) (as' ++ [a']) := by
  show (as' ++ [a']).map erase = ((as ++ [a]).map (rename σ)).map erase
  rw [List.map_append, List.map_append, List.map_append, show as'.map erase = _ from has]
  exact congrArg₂ _ rfl (congrArg (fun x => [x]) ha)

end Named

/-- The second state is the first one after the replacement, up to ids. -/
structure ParseState.Softens (σ : Softening) (s s' : ParseState) : Prop where
  suited : σ.Suited s.cursor.rest
  cursor : s'.cursor = s.cursor.soften σ
  skipped : s'.skipped = s.skipped

namespace Parser

open Named Erasable

variable {σ : Softening} {α β τ : Type} [Named α] [Named β] [Named τ]

instance : Named (Round τ β) where
  rename σ
    | .next a => .next (rename σ a)
    | .stop b => .stop (rename σ b)
  strict
    | .next a => strict a
    | .stop b => strict b

/-- What is read without anything skipped is read as well after the replacement, if the name is none
of those that are no soft keywords, and then `A` holds of what was read before. -/
def Carries (σ : Softening) (A : Prop) (p p' : Parser α) (s : ParseState) : Prop :=
  σ.Suited s.cursor.rest → ∀ a t, p s = .done a t → σ.Suited t.cursor.rest ∧
    (t.skipped = [] → Clean σ a → s.skipped = [] ∧ A ∧
      ∀ s', s.Softens σ s' → ∃ b t', p' s' = .done b t' ∧ Same σ a b ∧ t.Softens σ t')

namespace Carries

variable {A B : Prop} {p p' : Parser α} {f f' : α → Parser β} {s : ParseState}

theorem done {a b : α} (h : Same σ a b) (hA : Clean σ a → A) :
    Carries σ A (pure a) (pure b) s := by
  intro hs c t hd
  cases hd
  exact ⟨hs, fun hskipped hclean => ⟨hskipped, hA hclean, fun s' hs' => ⟨b, s', rfl, h, hs'⟩⟩⟩

theorem done_of_clean {a b : α} (h : Clean σ a → Same σ a b ∧ A) :
    Carries σ A (pure a) (pure b) s := by
  intro hs c t hd
  cases hd
  exact ⟨hs, fun hskipped hclean =>
    ⟨hskipped, (h hclean).2, fun s' hs' => ⟨b, s', rfl, (h hclean).1, hs'⟩⟩⟩

theorem fail : Carries σ A (Parser.fail : Parser α) Parser.fail s := nofun

theorem mono (h : Carries σ A p p' s) (hA : A → B) : Carries σ B p p' s := by
  intro hs a t hd
  obtain ⟨ht, hback⟩ := h hs a t hd
  refine ⟨ht, fun hskipped hclean => ?_⟩
  obtain ⟨hs, hA', hrun⟩ := hback hskipped hclean
  exact ⟨hs, hA hA', hrun⟩

theorem nextWith (hp : Carries σ B p p' s)
    (hf : ∀ a b t, p s = .done a t → Same σ a b → Carries σ (Clean σ a ∧ A) (f a) (f' b) t) :
    Carries σ (B ∧ A) (p >>= f) (p' >>= f') s := by
  intro hs c u hd
  obtain ⟨a, t, hpa, hfa⟩ := bind_eq_done.1 hd
  obtain ⟨ht, hback⟩ := hp hs a t hpa
  obtain ⟨hu, hback'⟩ := hf a (rename σ a) t hpa rfl ht c u hfa
  refine ⟨hu, fun hskipped hclean => ?_⟩
  obtain ⟨htskipped, ⟨hclean', hA⟩, -⟩ := hback' hskipped hclean
  obtain ⟨hsskipped, hB, hrun⟩ := hback htskipped hclean'
  refine ⟨hsskipped, ⟨hB, hA⟩, fun s' hs' => ?_⟩
  obtain ⟨b, t', hpb, hab, ht'⟩ := hrun s' hs'
  obtain ⟨-, -, hrun'⟩ := (hf a b t hpa hab ht c u hfa).2 hskipped hclean
  obtain ⟨d, u', hfb, hcd, hu'⟩ := hrun' t' ht'
  exact ⟨d, u', bind_eq_done.2 ⟨b, t', hpb, hfb⟩, hcd, hu'⟩

theorem next (hp : Carries σ True p p' s)
    (hf : ∀ a b t, p s = .done a t → Same σ a b → Carries σ (Clean σ a ∧ A) (f a) (f' b) t) :
    Carries σ A (p >>= f) (p' >>= f') s :=
  (nextWith hp hf).mono And.right

/-- What the first parser returns has the name where the second one's value has it. -/
theorem through (hp : Carries σ A p p' s)
    (hf : ∀ a b t, Same σ a b → Carries σ (Clean σ a) (f a) (f' b) t) :
    Carries σ A (p >>= f) (p' >>= f') s :=
  (nextWith (A := True) hp fun a b t _ hab => (hf a b t hab).mono fun hc => ⟨hc, trivial⟩).mono
    And.left

theorem ite {c c' : Prop} [Decidable c] [Decidable c'] {q q' : Parser α} (hc : c' ↔ c)
    (h : c → Carries σ A p p' s) (h' : ¬c → Carries σ A q q' s) :
    Carries σ A (if c then p else q) (if c' then p' else q') s :=
  rel_ite (R := fun p p' => Carries σ A p p' s) hc h h'

omit [Named α] in
theorem ite_next {c c' : Prop} [Decidable c] [Decidable c'] {q q' : Parser α} (hc : c' ↔ c)
    (h : c → Carries σ A (p >>= f) (p' >>= f') s) (h' : ¬c → Carries σ A (q >>= f) (q' >>= f') s) :
    Carries σ A ((if c then p else q) >>= f) ((if c' then p' else q') >>= f') s :=
  rel_ite (R := fun p p' => Carries σ A (p >>= f) (p' >>= f') s) hc h h'

theorem map {g g' : α → β} (hp : Carries σ True p p' s)
    (hg : ∀ a b, Same σ a b → Same σ (g a) (g' b)) (hclean : ∀ a, Clean σ (g a) → Clean σ a) :
    Carries σ True (g <$> p) (g' <$> p') s :=
  next hp fun a b _ _ hab => done (hg a b hab) fun h => ⟨hclean a h, trivial⟩

theorem rounds {step step' : τ → Parser (Round τ β)}
    (h : ∀ a b s, Same σ a b → Carries σ (Clean σ a) (step a) (step' b) s) :
    ∀ n a b s, Same σ a b → Carries σ (Clean σ a) (rounds step n a) (rounds step' n b) s
  | 0, _, _, _, _ => fail
  | n + 1, a, b, s, hab => by
    refine through (h a b s hab) fun round round' t hround => ?_
    cases round <;> cases round'
    case next.next c d => exact rounds h n c d t (Round.next.inj hround)
    case stop.stop c d => exact done (Round.stop.inj hround) fun hc => hc
    all_goals exact nomatch hround

theorem loop {step step' : τ → Parser (Round τ β)}
    (h : ∀ a b s, Same σ a b → Carries σ (Clean σ a) (step a) (step' b) s) {a b : τ}
    (hab : Same σ a b) (s : ParseState) :
    Carries σ (Clean σ a) (loop step a) (loop step' b) s := by
  intro hs c t hd
  obtain ⟨ht, hback⟩ := rounds h _ a b s hab hs c t hd
  refine ⟨ht, fun hskipped hclean => ?_⟩
  obtain ⟨hsskipped, hA, hrun⟩ := hback hskipped hclean
  refine ⟨hsskipped, hA, fun s' hs' => ?_⟩
  have hn : s'.cursor.ahead.length = s.cursor.ahead.length := by
    rw [hs'.cursor, Cursor.length_ahead_soften]
  unfold Parser.loop
  rw [hn]
  exact hrun s' hs'

theorem foldlM {step step' : β → α → Parser β}
    (h : ∀ b c a a' s, Same σ b c → Same σ a a' → Carries σ (Clean σ b) (step b a) (step' c a') s) :
    ∀ (l l' : List α) (b c : β) (s : ParseState), Same σ l l' → Same σ b c →
      Carries σ (Clean σ b) (l.foldlM step b) (l'.foldlM step' c) s
  | [], l', b, c, s, hl, hbc => by
    obtain rfl : l' = [] := List.map_eq_nil_iff.1 hl
    exact done hbc fun h => h
  | a :: l, l', b, c, s, hl, hbc => by
    obtain ⟨a', l', rfl, ha, hl⟩ := List.map_eq_cons_iff.1 hl
    rw [List.foldlM_cons, List.foldlM_cons]
    exact through (h b c a a' s hbc ha) fun b' c' t hbc' => foldlM h l l' b' c' t hl hbc'

theorem mapM {τ : Type} {g : τ → Parser α} {g' : τ → Parser α} {item : τ → τ} :
    ∀ (l : List τ) (_ : ∀ a ∈ l, ∀ s, Carries σ True (g a) (g' (item a)) s) (s : ParseState),
      Carries σ True (l.mapM g) ((l.map item).mapM g') s
  | [], _, _ => done rfl fun _ => trivial
  | a :: l, h, s => by
    rw [List.map_cons, List.mapM_cons, List.mapM_cons]
    refine next (h a List.mem_cons_self s) fun b b' t _ hb => ?_
    refine next (mapM l (fun a ha => h a (List.mem_cons_of_mem _ ha)) t) fun bs bs' u _ hbs => ?_
    exact done (congrArg₂ List.cons hb hbs) fun h => ⟨(clean_cons.1 h).2, (clean_cons.1 h).1, trivial⟩

/-- Other tokens. -/
theorem within {tokens : List Token} (ht : σ.Suited tokens)
    (hp : Carries σ A p p' { s with cursor := Cursor.ofTokens tokens }) :
    Carries σ A (within tokens p) (within (tokens.map (Token.soften σ)) p') s := by
  intro hs a t hd
  obtain ⟨u, hps, rfl⟩ := within_eq_done.1 hd
  obtain ⟨-, hback⟩ := hp ht.ofTokens a u hps
  refine ⟨hs, fun hskipped hclean => ?_⟩
  obtain ⟨hsskipped, hA, hrun⟩ := hback hskipped hclean
  refine ⟨hsskipped, hA, fun s' hs' => ?_⟩
  obtain ⟨b, u', hd', hab, hu'⟩ := hrun { s' with cursor := Cursor.ofTokens (tokens.map (Token.soften σ)) }
    ⟨ht.ofTokens, Cursor.ofTokens_soften tokens, hs'.skipped⟩
  exact ⟨b, { u' with cursor := s'.cursor }, within_of_done hd', hab, hs, hs'.cursor, hu'.skipped⟩

/-! ### Places and ids -/

theorem moveTo_next {c : Cursor} {f f' : Unit → Parser α} (hc : c.rest <:+ s.cursor.rest)
    (hf : Carries σ A (f ()) (f' ()) { s with cursor := c }) :
    Carries σ A (Parser.moveTo c >>= f) (Parser.moveTo (c.soften σ) >>= f') s := by
  intro hs a t hd
  obtain ⟨ht, hback⟩ := hf (hs.of_suffix hc) a t hd
  refine ⟨ht, fun hskipped hclean => ?_⟩
  obtain ⟨hsskipped, hA, hrun⟩ := hback hskipped hclean
  exact ⟨hsskipped, hA, fun s' hs' => hrun { s' with cursor := c.soften σ }
    ⟨hs.of_suffix hc, rfl, hs'.skipped⟩⟩

theorem of_suited (h : σ.Suited s.cursor.rest → Carries σ A p p' s) : Carries σ A p p' s :=
  fun hs => h hs hs

theorem cursor_next {f f' : Cursor → Parser β}
    (hf : σ.Suited s.cursor.rest → Carries σ A (f s.cursor) (f' (s.cursor.soften σ)) s) :
    Carries σ A (Parser.cursor >>= f) (Parser.cursor >>= f') s := by
  intro hs a t hd
  obtain ⟨ht, hback⟩ := hf hs hs a t hd
  refine ⟨ht, fun hskipped hclean => ?_⟩
  obtain ⟨hsskipped, hA, hrun⟩ := hback hskipped hclean
  refine ⟨hsskipped, hA, fun s' hs' => ?_⟩
  show ∃ b t', f' s'.cursor s' = _ ∧ _
  rw [hs'.cursor]
  exact hrun s' hs'

theorem newDecl_next {f f' : DeclId → Parser β}
    (hf : ∀ d d' t, Parser.newDecl s = .done d t → Carries σ A (f d) (f' d') t) :
    Carries σ A (Parser.newDecl >>= f) (Parser.newDecl >>= f') s := by
  intro hs a t hd
  replace hd : f s.nextDecl { s with nextDecl := s.nextDecl + 1 } = .done a t := hd
  obtain ⟨ht, hback⟩ := hf s.nextDecl s.nextDecl { s with nextDecl := s.nextDecl + 1 } rfl hs a t hd
  refine ⟨ht, fun hskipped hclean => ?_⟩
  obtain ⟨hsskipped, hA, -⟩ := hback hskipped hclean
  refine ⟨hsskipped, hA, fun s' hs' => ?_⟩
  obtain ⟨-, -, hrun⟩ := (hf s.nextDecl s'.nextDecl { s with nextDecl := s.nextDecl + 1 } rfl hs a t hd).2 hskipped hclean
  exact hrun { s' with nextDecl := s'.nextDecl + 1 } ⟨hs'.suited, hs'.cursor, hs'.skipped⟩

theorem newExpr {span span' : Span} {kind kind' : ExprKind} (hspan : span' = span)
    (hk : kind'.unnumbered = (kind.renamed σ.on).unnumbered)
    (hA : σ.name ∉ kind.strictNames → A) :
    Carries σ A (Parser.newExpr span kind) (Parser.newExpr span' kind') s := by
  subst hspan
  intro hs e t hd
  cases hd
  refine ⟨hs, fun hskipped hclean => ⟨hskipped, hA hclean, fun s' hs' => ?_⟩⟩
  refine ⟨_, _, rfl, ?_, hs'.suited, hs'.cursor, hs'.skipped⟩
  show Expr.unnumbered _ = (Expr.renamed σ.on _).unnumbered
  rw [Expr.unnumbered, Expr.renamed, Expr.unnumbered, hk]

end Carries

/-! ## Parsers that cannot tell -/

/-- After the replacement the parser does the same. -/
def Exact (σ : Softening) (p p' : Parser α) (s : ParseState) : Prop :=
  ∀ s', s.Softens σ s' → match p s, p' s' with
    | .done a t, .done b t' => Same σ a b ∧ t.Softens σ t'
    | .failed _, .failed _ => True
    | _, _ => False

namespace Exact

variable {A : Prop} {p p' : Parser α} {f f' : α → Parser β} {s : ParseState}

theorem carries [hp : Forward p] (h : Exact σ p p' s) : Carries σ True p p' s := by
  intro hs a t hd
  refine ⟨hs.of_suffix (hp.reaches_of_done hd).rest_suffix, fun hskipped _ => ⟨?_, trivial, ?_⟩⟩
  · have hgrown := (hp.along s).grown.skipped
    rw [hd] at hgrown
    exact List.suffix_nil.1 (hskipped ▸ hgrown)
  · intro s' hs'
    have hboth := h s' hs'
    rw [hd] at hboth
    cases hd' : p' s' with
    | failed t' =>
      rw [hd'] at hboth
      exact hboth.elim
    | done b t' =>
      rw [hd'] at hboth
      exact ⟨b, t', rfl, hboth⟩

/-- A parser whose value holds no name that matters, and then one that goes on. -/
theorem next [Nameless α] [hp : Forward p] (h : Exact σ p p' s)
    (hf : ∀ a t, p s = .done a t → Carries σ A (f a) (f' (rename σ a)) t) :
    Carries σ A (p >>= f) (p' >>= f') s := by
  refine h.carries.next fun a b t hd hab => ?_
  obtain rfl := hab.eq
  exact (hf a t hd).mono fun hA => ⟨Nameless.clean a, hA⟩

end Exact

namespace Exact

variable {p p' : Parser α} {s : ParseState}

theorem moved {s s' : ParseState} (h : s.Softens σ s') {c : Cursor} (hc : c.rest <:+ s.cursor.rest) :
    { s with cursor := c }.Softens σ { s' with cursor := c.soften σ } :=
  ⟨h.suited.of_suffix hc, rfl, h.skipped⟩

theorem advance (s : ParseState) : Exact σ Parser.advance Parser.advance s := by
  intro s' hs'
  refine ⟨congrArg Cursor.here hs'.cursor, ?_⟩
  rw [hs'.cursor, Cursor.advance_soften]
  exact moved hs' s.cursor.advance_rest

theorem kind (s : ParseState) : Exact σ Parser.kind Parser.kind s := fun s' hs' => by
  refine ⟨?_, hs'⟩
  show s'.cursor.kind = _
  rw [hs'.cursor, Cursor.kind_soften]
  rfl

theorem lastSpan (s : ParseState) : Exact σ Parser.lastSpan Parser.lastSpan s := fun s' hs' =>
  ⟨(congrArg Cursor.last hs'.cursor : s'.cursor.last = _), hs'⟩

theorem skipWhile {skipped : TokenKind → Bool} (h : ∀ k : TokenKind, skipped (k.soften σ) = skipped k)
    (s : ParseState) :
    Exact σ (fun s => .done () { s with cursor := s.cursor.skipWhile skipped })
      (fun s => .done () { s with cursor := s.cursor.skipWhile skipped }) s := by
  intro s' hs'
  refine ⟨rfl, ?_⟩
  rw [hs'.cursor, Cursor.skipWhile_soften _ h]
  exact moved hs' (s.cursor.skipWhile_rest skipped)

theorem skipNewlines (s : ParseState) : Exact σ Parser.skipNewlines Parser.skipNewlines s :=
  skipWhile (fun k => k.isNewline_soften) s

theorem skipSeparators (s : ParseState) : Exact σ Parser.skipSeparators Parser.skipSeparators s :=
  skipWhile (fun k => k.isSeparator_soften) s

theorem eatIf {test : TokenKind → Bool} (h : ∀ k : TokenKind, test (k.soften σ) = test k)
    (s : ParseState) : Exact σ (Parser.eatIf test) (Parser.eatIf test) s := by
  intro s' hs'
  have hk : test s'.cursor.kind = test s.cursor.kind := by
    rw [hs'.cursor, Cursor.kind_soften, h]
  unfold Parser.eatIf
  rw [hk]
  by_cases ht : test s.cursor.kind = true
  · rw [if_pos ht, if_pos ht, hs'.cursor, Cursor.advance_soften]
    exact ⟨rfl, moved hs' s.cursor.advance_rest⟩
  · rw [if_neg ht, if_neg ht]
    exact ⟨rfl, hs'⟩

theorem eat (s : ParseState) (m : Mark) : Exact σ (Parser.eat m) (Parser.eat m) s :=
  eatIf (fun k => k.isMark_soften m) s

theorem eatKeyword (s : ParseState) {w : Keyword} (hw : w.isSoft = false) :
    Exact σ (Parser.eatKeyword w) (Parser.eatKeyword w) s :=
  eatIf (fun k => k.isKeyword_soften hw) s

theorem atMark (s : ParseState) (m : Mark) : Exact σ (Parser.atMark m) (Parser.atMark m) s := by
  intro s' hs'
  refine ⟨?_, hs'⟩
  show s'.cursor.kind.isMark m = _
  rw [hs'.cursor, Cursor.kind_soften, TokenKind.isMark_soften]
  rfl

theorem expect (s : ParseState) (m : Mark) : Exact σ (Parser.expect m) (Parser.expect m) s := by
  intro s' hs'
  have hk : s'.cursor.kind.isMark m = s.cursor.kind.isMark m := by
    rw [hs'.cursor, Cursor.kind_soften, TokenKind.isMark_soften]
  unfold Parser.expect
  rw [hk]
  by_cases ht : s.cursor.kind.isMark m = true
  · rw [if_pos ht, if_pos ht]
    exact advance s s' hs'
  · rw [if_neg ht, if_neg ht]
    trivial

theorem done {a b : α} (h : Same σ a b) : Exact σ (pure a) (pure b) s := fun _ hs' => ⟨h, hs'⟩

theorem fail : Exact σ (Parser.fail : Parser α) Parser.fail s := fun _ _ => trivial

theorem seq {f f' : α → Parser β} (h : Exact σ p p' s)
    (hf : ∀ a b t, p s = .done a t → Same σ a b → Exact σ (f a) (f' b) t) :
    Exact σ (p >>= f) (p' >>= f') s := by
  intro s' hs'
  have hboth := h s' hs'
  cases hd : p s <;> cases hd' : p' s' <;> rw [hd, hd'] at hboth
  case done.done a t b t' =>
    rw [bind_of_done hd, bind_of_done hd']
    exact hf a b t hd hboth.1 t' hboth.2
  case failed.failed t t' =>
    rw [bind_of_failed hd, bind_of_failed hd']
    trivial
  all_goals exact hboth.elim

theorem ite {c c' : Prop} [Decidable c] [Decidable c'] {q q' : Parser α} (hc : c' ↔ c)
    (h : Exact σ p p' s) (h' : Exact σ q q' s) :
    Exact σ (if c then p else q) (if c' then p' else q') s := by
  by_cases hh : c
  · rw [if_pos hh, if_pos (hc.2 hh)]
    exact h
  · rw [if_neg hh, if_neg fun h => hh (hc.1 h)]
    exact h'

theorem cursor_next {f f' : Cursor → Parser β}
    (hf : Exact σ (f s.cursor) (f' (s.cursor.soften σ)) s) :
    Exact σ (Parser.cursor >>= f) (Parser.cursor >>= f') s := by
  intro s' hs'
  have h := hf s' hs'
  rw [← hs'.cursor] at h
  exact h

theorem atElse (s : ParseState) : Exact σ Parser.atElse Parser.atElse s := by
  refine cursor_next (done ?_)
  rw [Cursor.pastNewlines_soften, Cursor.kind_soften, TokenKind.isKeyword_soften rfl,
    Cursor.kindAt?_soften, Option.any_map]
  simp only [TokenKind.isMark_soften]
  rfl

theorem expectName (s : ParseState) : Exact σ Parser.expectName Parser.expectName s := by
  refine seq (advance s) fun token token' t _ htoken => ?_
  obtain rfl : token' = token.soften σ := htoken
  rw [Token.kind_soften, TokenKind.asName?_soften, Token.span_soften]
  cases token.kind.asName? with
  | none => exact fail
  | some name => exact done rfl

end Exact

/-! ## Parsers that skip nothing -/

/-- Whatever the parser comes to, it records nothing as skipped. -/
class Steady {α : Type} (p : Parser α) : Prop where
  skipped_eq : ∀ s, (p s).state.skipped = s.skipped

namespace Steady

variable {α β τ : Type} {p q : Parser α} {f : α → Parser β}

instance answer (a : α) : Steady (pure a : Parser α) := ⟨fun _ => rfl⟩
instance fail : Steady (Parser.fail : Parser α) := ⟨fun _ => rfl⟩
instance cursor : Steady Parser.cursor := ⟨fun _ => rfl⟩
instance kind : Steady Parser.kind := ⟨fun _ => rfl⟩
instance advance : Steady Parser.advance := ⟨fun _ => rfl⟩
instance skipNewlines : Steady Parser.skipNewlines := ⟨fun _ => rfl⟩
instance newDecl : Steady Parser.newDecl := ⟨fun _ => rfl⟩

instance bind [hp : Steady p] [hf : ∀ a, Steady (f a)] : Steady (p >>= f) where
  skipped_eq s := by
    have hs := hp.skipped_eq s
    cases hd : p s with
    | done a t =>
      rw [bind_of_done hd, (hf a).skipped_eq]
      rwa [hd] at hs
    | failed t =>
      rw [bind_of_failed hd]
      rwa [hd] at hs

instance map [Steady p] (f : α → β) : Steady (f <$> p) := bind (f := fun a => pure (f a))

instance ite {c : Prop} [Decidable c] [Steady p] [Steady q] : Steady (if c then p else q) := by
  split <;> infer_instance

instance eatIf (test : TokenKind → Bool) : Steady (Parser.eatIf test) where
  skipped_eq s := by
    unfold Parser.eatIf
    split <;> rfl

instance eat (m : Mark) : Steady (Parser.eat m) := eatIf _

instance expect (m : Mark) : Steady (Parser.expect m) where
  skipped_eq s := by
    unfold Parser.expect
    split <;> rfl

instance orFail (o : Option α) : Steady (Parser.orFail o) := by
  cases o
  · exact fail
  · exact answer _

instance expectName : Steady Parser.expectName :=
  @bind _ _ _ _ _ fun token => by cases token.kind.asName? <;> infer_instance

theorem rounds {step : τ → Parser (Round τ β)} (h : ∀ a, Steady (step a)) :
    ∀ n a, Steady (Parser.rounds step n a)
  | 0, _ => fail
  | n + 1, a => @bind _ _ _ _ (h a) fun r => by
    cases r with
    | next b => exact rounds h n b
    | stop r => exact answer r

instance loop {step : τ → Parser (Round τ β)} [h : ∀ a, Steady (step a)] (start : τ) :
    Steady (Parser.loop step start) where
  skipped_eq s := (rounds h _ start).skipped_eq s

theorem next [hp : Steady p] (hf : ∀ a, Steady (f a)) : Steady (p >>= f) := bind

instance typeSegments (name : String) : Steady (Parser.typeSegments name) := by
  refine @loop _ _ _ (fun name => next fun c => ?_) _
  split
  · exact next fun _ => next fun _ => answer _
  · exact answer _

instance skipVariance : Steady Parser.skipVariance := by
  unfold Parser.skipVariance
  infer_instance

variable (g : Grammar) [hg : Steady g.type]

instance typeArgs : Steady (Parser.typeArgs g) := by
  unfold Parser.typeArgs
  infer_instance

instance typeRef : Steady (Parser.typeRef g) := by
  unfold Parser.typeRef
  refine next fun star => ?_
  split
  · exact answer _
  · refine next fun _ => next fun name => next fun more => ?_
    infer_instance

instance callTypeArgsRound (args : List TypeRef) : Steady (Rounds.callTypeArgs g args) := by
  unfold Rounds.callTypeArgs
  infer_instance

instance lambdaParamsRound (params : List LambdaParam) : Steady (Rounds.lambdaParams g params) := by
  refine next fun k => next fun name => next fun _ => next fun typed => ?_
  extract_lets made
  have hmade (type) : Steady (made type) := inferInstance
  split <;> exact next hmade

end Steady

instance Steady.ofDepth (n : ℕ) : Steady (Grammar.ofDepth n).type := by
  induction n with
  | zero => exact Steady.fail
  | succ n ih => exact Steady.typeRef (Grammar.ofDepth n)

end Parser

end FrameCheck
