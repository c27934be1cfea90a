import FrameCheck.Proofs.Parse.Totality

/-!
# Parsing terminates in range

Parsing a list of tokens that ends comes to an end: it does not fail, how deep the grammar is does not
matter once it is as deep as the tokens are heavy, every rule of the grammar leaves its cursor on a
token of the list that it reads, and every round after which a loop goes on moves the cursor on
(`SourceUnit.Terminates`). A rule may read the tokens of a template, so all of this holds in the lists
of templates as well.

* `Parser.IsLoop`, `Parser.IsRule` : the loops and the rules, so that something may be said of all.
-/

namespace FrameCheck

namespace Parser

variable {α σ β : Type}

/-- The rounds of the loops over items, members, statements, parameters of constructors and of
functions, arguments, the arms of a `when` with their conditions, and type arguments. -/
inductive IsLoop (g : Grammar) : {σ β : Type} → (σ → Parser (Round σ β)) → Prop
  | items : IsLoop g (Rounds.items g)
  | classBody : IsLoop g (Rounds.classBody g)
  | statements : IsLoop g (Rounds.statements g)
  | constructor : IsLoop g (Rounds.declared fun seen => do return seen ++ [← constructorParam g])
  | params : IsLoop g (Rounds.declared fun seen => do return seen ++ [← param g])
  | arguments : IsLoop g (Rounds.arguments g)
  | whenBranches : IsLoop g (Rounds.whenBranches g)
  | whenConditions : IsLoop g (Rounds.whenConditions g)
  | typeArgs : IsLoop g (Rounds.typeArgs g)
  | callTypeArgs : IsLoop g (Rounds.callTypeArgs g)

/-- The rules of the language over a grammar, and the rounds of their loops. -/
inductive IsRule (g : Grammar) : {α : Type} → Parser α → Prop
  | typeRef : IsRule g (typeRef g)
  | typeArgs : IsRule g (typeArgs g)
  | callTypeArgs : IsRule g (callTypeArgs g)
  | argumentName : IsRule g argumentName
  | arguments : IsRule g (arguments g)
  | block : IsRule g (block g)
  | lambdaParams : IsRule g (lambdaParams g)
  | lambda : IsRule g (lambda g)
  | call (callee : Expr) (args : List TypeRef) : IsRule g (call g callee args)
  | memberOf (receiver : Expr) : IsRule g (memberOf receiver)
  | indexOf (receiver : Expr) : IsRule g (indexOf g receiver)
  | suffix (e : Expr) : IsRule g (suffix g e)
  | branch : IsRule g (branch g)
  | ifElse : IsRule g (ifElse g)
  | whenSubject : IsRule g (whenSubject g)
  | whenCondition : IsRule g (whenCondition g)
  | whenBranch : IsRule g (whenBranch g)
  | whenOf : IsRule g (whenOf g)
  | embedded (tokens : List Token) : IsRule g (embedded g tokens)
  | parenthesized : IsRule g (parenthesized g)
  | primary : IsRule g (primary g)
  | suffixed : IsRule g (suffixed g)
  | signed {operand : Parser Expr} (h : IsRule g operand) : IsRule g (signed operand)
  | castChain {operand : Parser Expr} (h : IsRule g operand) : IsRule g (castChain g operand)
  | binary {operand : Parser Expr} (h : IsRule g operand) (os : List Precedence) :
    IsRule g (binary operand os)
  | expression : IsRule g (expression g)
  | statementEnd : IsRule g statementEnd
  | annotations : IsRule g (annotations g)
  | skipModifiers : IsRule g skipModifiers
  | skipTypeParameters : IsRule g skipTypeParameters
  | typeMark : IsRule g (typeMark g)
  | initializer : IsRule g (initializer g)
  | param : IsRule g (param g)
  | constructorParam : IsRule g (constructorParam g)
  | declared {α : Type} {one : List α → Parser (List α)} (h : ∀ seen, IsRule g (one seen)) :
    IsRule g (declared one)
  | functionName : IsRule g (functionName g)
  | propertyName : IsRule g (propertyName g)
  | body : IsRule g (body g)
  | getter : IsRule g (getter g)
  | funDecl : IsRule g (funDecl g)
  | valDecl : IsRule g (valDecl g)
  | returned : IsRule g (returned g)
  | assignment : IsRule g (assignment g)
  | statement : IsRule g (statement g)
  | statements : IsRule g (statements g)
  | member (seen : Members) : IsRule g (member g seen)
  | classBody (seen : Members) : IsRule g (classBody g seen)
  | supertypes : IsRule g (supertypes g)
  | classDecl (as : List AnnotationEntry) (isInterface : Bool) :
    IsRule g (classDecl g as isInterface)
  | item : IsRule g (item g)
  | items : IsRule g (items g)
  | round {σ β : Type} {step : σ → Parser (Round σ β)} (h : IsLoop g step) (a : σ) :
    IsRule g (step a)

section

variable {g : Grammar} [hg : g.Forward]

theorem IsLoop.forward {step : σ → Parser (Round σ β)} (h : IsLoop g step) (a : σ) :
    Forward (step a) := by
  cases h with
  | constructor | params => exact ⟨fun _ => Tracks.declaredRound (fun _ => inferInstance) a⟩
  | _ => infer_instance

theorem IsLoop.progresses {step : σ → Parser (Round σ β)} (h : IsLoop g step) :
    Progresses step := by
  cases h with
  | items => exact .items g
  | classBody => exact .classBody g
  | statements => exact .statements g
  | constructor | params => exact .declared fun seen => inferInstance
  | arguments => exact .arguments g
  | whenBranches => exact .whenBranches g
  | whenConditions => exact .whenConditions g
  | typeArgs => exact .typeArgs g
  | callTypeArgs => exact .callTypeArgs g

/-- Every rule goes on. -/
theorem IsRule.forward {p : Parser α} (h : IsRule g p) : Forward p := by
  induction h with
  | indexOf receiver =>
    exact ⟨fun _ => Tracks.next fun _ => Tracks.seq (fun _ => inferInstance)
      (Tracks.loop inferInstance _)⟩
  | parenthesized => exact ⟨fun _ => Tracks.next fun _ => Tracks.next fun _ => inferInstance⟩
  | signed h ih => exact ⟨fun _ => Tracks.signed ih.tracks⟩
  | castChain h ih => exact ⟨fun c => (Tracks.castChain_starts g g _ _).tracks (ih.tracks c)⟩
  | binary h os ih => exact ⟨Tracks.binary ih.tracks os⟩
  | declared h ih => exact ⟨fun c => Tracks.declared fun seen => (ih seen).tracks c⟩
  | round h a => exact h.forward a
  | _ => infer_instance

end

/-- The parser leaves the cursor in each of these lists in which it stands, not before its place. -/
def StaysIn (ts : List Token) (p : Parser α) : Prop :=
  ∀ us, Token.Within ts us → ∀ i s, s.cursor.Stands us i →
    ∃ j, i ≤ j ∧ (p s).state.cursor.Stands us j

/-- In each of these lists, a round after which the loop goes on moves the cursor on, and the
rounds that the loop may make are as good as any larger number. -/
structure AdvancesIn (ts : List Token) (step : σ → Parser (Round σ β)) : Prop where
  next_lt : ∀ us, Token.Within ts us → ∀ i a s b t, s.cursor.Stands us i →
    step a s = .done (.next b) t → ∃ j, i < j ∧ t.cursor.Stands us j
  rounds_eq : ∀ us, Token.Within ts us → ∀ i a s n, s.cursor.Stands us i → us.length ≤ n →
    rounds step n a s = loop step a s

section

variable {g : Grammar} [hg : g.Forward] {ts : List Token}

theorem Forward.staysIn {p : Parser α} (h : Forward p) : StaysIn ts p :=
  fun _ _ _ s hs => hs.reaches (h.reaches s)

theorem IsLoop.advancesIn {step : σ → Parser (Round σ β)} (h : IsLoop g step)
    (hts : Token.Ended ts) : AdvancesIn ts step where
  next_lt us hus i a s b t hs hd := by
    have hends := (hts us hus).of_suffix (hs.rest_eq ▸ List.drop_suffix i us) s.cursor.rest_ne_nil
    have hlt := (h.progresses a).lt hends hd trivial
    obtain ⟨j, hij, hj⟩ := hs.reaches ((h.forward a).reaches_of_done hd)
    refine ⟨j, ?_, hj⟩
    rw [hs.length_rest, hj.length_rest] at hlt
    omega
  rounds_eq us hus i a s n hs hn := by
    have hends := (hts us hus).of_suffix (hs.rest_eq ▸ List.drop_suffix i us) s.cursor.rest_ne_nil
    refine h.progresses.rounds_eq_loop h.forward hends ?_
    rw [hs.length_rest]
    omega

/-- The expression of a template is read from its own tokens. -/
theorem cursor_within (tokens : List Token) (p : Parser α) (s : ParseState) :
    (within tokens p s).state.cursor = s.cursor := by
  rw [state_within]

end

end Parser

namespace SourceUnit

/-- A grammar that is as deep as the tokens are heavy may be deeper. -/
theorem items_ofDepth {ts : List Token} (h : Token.Ended ts) {n : Nat}
    (hn : Token.listWeight ts ≤ n) :
    Parser.items (Grammar.ofDepth n) (start ts)
      = Parser.items (Grammar.ofDepth (Token.listWeight ts)) (start ts) := by
  obtain ⟨k, rfl⟩ := Nat.exists_eq_add_of_le hn
  have := Grammar.agrees_ofDepth (Token.listWeight ts) k
  have hfits : (Cursor.ofTokens ts).Fits (Token.listWeight ts + 1) := by
    rw [Cursor.Fits, Cursor.rest_ofTokens h.ends.ne_nil]
    exact ⟨h, Nat.le_succ _⟩
  have htracks : Parser.Tracks Cursor.Fits (Cursor.ofTokens ts) (Token.listWeight ts + 1)
      (Parser.items (Grammar.ofDepth (Token.listWeight ts)))
      (Parser.items (Grammar.ofDepth (Token.listWeight ts + k))) := inferInstance
  exact (htracks.along (s := start ts) (.here hfits)).agree.symm

/-- What parsing these tokens comes to, and where it looks on its way. -/
structure Terminates (ts : List Token) : Prop where
  /-- All items are read, by every grammar that is deep enough. -/
  done : ∃ t, ∀ n, Token.listWeight ts ≤ n →
    Parser.items (Grammar.ofDepth n) (start ts) = .done (ofTokens ts).items t
  /-- Every rule of the grammar keeps to the list that it reads. -/
  stays : ∀ n {α : Type} {p : Parser α}, Parser.IsRule (Grammar.ofDepth n) p → p.StaysIn ts
  /-- A cursor that stands in a list looks at tokens of the list. -/
  looks : ∀ us, Token.Within ts us → ∀ i c, Cursor.Stands c us i → i < us.length ∧
    (∀ n, (us[min (i + n) (us.length - 1)]?).map Token.kind = some (c.kindAt n)) ∧
      ∀ n, c.kindAt? n = (us[i + n]?).map Token.kind
  /-- A template is read from the first of its tokens, and then the cursor is where it was. -/
  restores : ∀ us, Token.Within ts us → (Cursor.ofTokens us).Stands us 0 ∧
    ∀ {α : Type} (p : Parser α) (s : ParseState),
      (Parser.within us p s).state.cursor = s.cursor
  /-- Every loop goes on only if a round has moved the cursor on. -/
  advances : ∀ n {σ β : Type} {step : σ → Parser (Parser.Round σ β)},
    Parser.IsLoop (Grammar.ofDepth n) step → Parser.AdvancesIn ts step

/-- Tokens that come to an end, as the scanner makes them, are parsed without failing and in range. -/
theorem terminates {ts : List Token} (h : Token.Ended ts) : Terminates ts where
  done := by
    have hrest : Token.Ends (start ts).cursor.rest := by
      rw [start, Cursor.rest_ofTokens h.ends.ne_nil]
      exact h.ends
    obtain ⟨items, t, hitems⟩ :=
      Parser.items_done (Grammar.ofDepth (Token.listWeight ts)) (start ts) hrest
    refine ⟨t, fun n hn => ?_⟩
    rw [items_ofDepth h hn, ofTokens, hitems]
  stays n _ _ hp := hp.forward.staysIn
  looks us _ i c hc := ⟨hc.lt, hc.kindAt_eq, hc.kindAt?_eq⟩
  restores us hus :=
    ⟨Cursor.stands_ofTokens (h us hus).ne_nil, fun p s => Parser.cursor_within us p s⟩
  advances n _ _ _ hstep := hstep.advancesIn h

/-- Declarations and statements that do not parse, and a template that does not. -/
def brokenText : String := "fun f(a: ) = 1\nval s = \"$\x7b g(\x7d\"\nfun h() \x7b val x: = 2; y \x7d\n"

theorem terminates_brokenText : ∃ ts, Token.scan brokenText = .ok ts ∧
    (ofTokens ts).skipped.length = 3 ∧ Token.Ended ts ∧ Terminates ts := by
  obtain ⟨ts, hts, hskipped⟩ : ∃ ts, Token.scan brokenText = .ok ts ∧
      ((ofTokens ts).skipped.length == 3) = true := by
    refine Token.exists_scan rfl ?_
    decide +kernel
  exact ⟨ts, hts, eq_of_beq hskipped, Token.ended_of_scan hts, terminates (Token.ended_of_scan hts)⟩

end SourceUnit

end FrameCheck
