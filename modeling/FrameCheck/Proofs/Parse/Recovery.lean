import FrameCheck.Inference.Basic
import FrameCheck.Proofs.Parse.Relocation

/-!
# What recovery leaves of a body

A statement that does not parse is skipped, and the parser goes on behind it. The tree of a body
does not show it: of a skipped statement there is at most the name that it declares. Here a body
is read as a list of entries, one for each statement whether it is kept or skipped, of which the
statements in the tree are what is left (`Parser.statements_eq`).

What the body is taken for later is then said by its entries. Its value is that of the last entry
that left something, and it lists columns if all entries that left something do.

* `Block.tail?_of_entries`, `Block.columnFroms?_eq_none_of_entries` : what a body is taken for.
-/

namespace FrameCheck

/-! ## Entries -/

/-- What becomes of a statement, of an item or of a member: it is kept, or the tokens from `start`
on are skipped and at most a name is declared. -/
inductive ParseEntry (α : Type) where
  | kept (part : α)
  | skipped (start : Cursor) (declared : Option ValDecl)

namespace ParseEntry

/-- What is left in the tree. -/
def parts {α : Type} (ofVal : ValDecl → α) : ParseEntry α → List α
  | kept a => [a]
  | skipped _ declared => (declared.map ofVal).toList

/-- What is left in the list of statements. -/
def stmts (e : ParseEntry Stmt) : List Stmt := e.parts Stmt.val

/-- Nothing is left of the statement. -/
def isLost {α : Type} : ParseEntry α → Bool
  | kept _ => false
  | skipped _ declared => declared.isNone

/-- The name that a skipped part declares. -/
def lostName? {α : Type} : ParseEntry α → Option String
  | kept _ => none
  | skipped _ declared => declared.map ValDecl.name

theorem lostName?_eq_some {α : Type} {e : ParseEntry α} {name : String}
    (h : e.lostName? = some name) : ∃ start v, e = skipped start (some v) ∧ v.name = name := by
  cases e with
  | kept a => cases h
  | skipped start declared =>
    obtain ⟨v, rfl, hv⟩ := Option.map_eq_some_iff.1 h
    exact ⟨start, v, rfl, hv⟩

/-- The expression that the statement consists of, if it is kept. -/
def expr? : ParseEntry Stmt → Option Expr
  | kept s => s.expr?
  | skipped _ _ => none

theorem stmts_eq_nil {e : ParseEntry Stmt} : e.stmts = [] ↔ e.isLost = true := by
  cases e with
  | kept s => simp [stmts, parts, isLost]
  | skipped start declared => cases declared <;> simp [stmts, parts, isLost]

/-- An entry that left something left one statement, and its expression. -/
theorem stmts_of_not_isLost {e : ParseEntry Stmt} (h : e.isLost = false) :
    ∃ s, e.stmts = [s] ∧ s.expr? = e.expr? := by
  cases e with
  | kept s => exact ⟨s, rfl, rfl⟩
  | skipped start declared =>
    cases declared with
    | none => exact absurd h Bool.noConfusion
    | some v => exact ⟨.val v, rfl, rfl⟩

theorem eq_skipped_of_isLost {e : ParseEntry Stmt} (h : e.isLost = true) :
    ∃ start, e = skipped start none := by
  cases e with
  | kept s => exact absurd h Bool.false_ne_true
  | skipped start declared =>
    cases declared with
    | none => exact ⟨start, rfl⟩
    | some v => exact absurd h Bool.false_ne_true

/-- The entries that left something. -/
def left (es : List (ParseEntry Stmt)) : List (ParseEntry Stmt) := es.filter fun e => !e.isLost

theorem mem_left {e : ParseEntry Stmt} {es : List (ParseEntry Stmt)} :
    e ∈ left es ↔ e ∈ es ∧ e.isLost = false := by
  rw [left, List.mem_filter, Bool.not_eq_true']

theorem map_expr?_stmts (es : List (ParseEntry Stmt)) :
    (es.flatMap stmts).map Stmt.expr? = (left es).map expr? := by
  induction es with
  | nil => rfl
  | cons e es ih =>
    rw [List.flatMap_cons, List.map_append, ih, left, left]
    cases h : e.isLost with
    | true =>
      rw [stmts_eq_nil.2 h, List.filter_cons_of_neg (by simp [h]), List.map_nil, List.nil_append]
    | false =>
      obtain ⟨s, hs, he⟩ := stmts_of_not_isLost h
      rw [hs, List.filter_cons_of_pos (by simp [h]), List.map_cons, List.map_nil, he,
        List.map_cons, List.singleton_append]

theorem left_eq_nil_iff {es : List (ParseEntry Stmt)} : left es = [] ↔ es.flatMap stmts = [] := by
  rw [← List.map_eq_nil_iff (f := Stmt.expr?), map_expr?_stmts, List.map_eq_nil_iff]

theorem left_append (es fs : List (ParseEntry Stmt)) : left (es ++ fs) = left es ++ left fs :=
  List.filter_append ..

end ParseEntry

/-! ## What a body is taken for -/

theorem mapM_eq_none {α β : Type} {f : α → Option β} :
    ∀ {l : List α}, l.mapM f = none ↔ ∃ a ∈ l, f a = none
  | [] => by simp
  | a :: l => by
    rw [List.mapM_cons, List.exists_mem_cons_iff, ← mapM_eq_none]
    cases f a with
    | none => simp
    | some b => cases l.mapM f <;> simp

namespace Block

variable {b : Block} {es : List (ParseEntry Stmt)} (h : b.stmts = es.flatMap ParseEntry.stmts)

include h

/-- The value of a body is that of the last entry that left something. -/
theorem tail?_of_entries : b.tail? = (ParseEntry.left es).getLast?.bind ParseEntry.expr? := by
  have hjoin {α β : Type} (l : List α) (f : α → Option β) :
      l.getLast?.bind f = (l.map f).getLast?.join := by
    rw [List.getLast?_map]
    cases l.getLast? <;> rfl
  rw [tail?, hjoin, h, ParseEntry.map_expr?_stmts, ← hjoin]

/-- A body lists no columns if nothing is left of it or something else than a column. -/
theorem columnFroms?_eq_none_of_entries : b.columnFroms? = none ↔
    ParseEntry.left es = [] ∨ ∃ e ∈ ParseEntry.left es, e.expr?.bind Expr.columnFrom? = none := by
  have hexists : (∃ s ∈ b.stmts, s.expr?.bind Expr.columnFrom? = none)
      ↔ ∃ e ∈ ParseEntry.left es, e.expr?.bind Expr.columnFrom? = none := by
    have hany (ss : List Stmt) : (∃ s ∈ ss, s.expr?.bind Expr.columnFrom? = none)
        ↔ ∃ o ∈ ss.map Stmt.expr?, o.bind Expr.columnFrom? = none := by
      simp only [List.mem_map, exists_exists_and_eq_and]
    rw [hany, h, ParseEntry.map_expr?_stmts]
    simp only [List.mem_map, exists_exists_and_eq_and]
  rw [columnFroms?, ParseEntry.left_eq_nil_iff, ← h]
  cases hb : b.stmts with
  | nil => simp
  | cons s ss =>
    rw [← hexists, hb, List.isEmpty_cons, if_neg Bool.false_ne_true, mapM_eq_none]
    simp

end Block

/-! ## Reading entries -/

namespace Parser

theorem bind_eq_map {α β γ : Type} {f : α → β} {p : Parser γ} {k : γ → Parser α} {k' : γ → Parser β}
    (h : ∀ c, k' c = f <$> k c) : p >>= k' = f <$> (p >>= k) := by
  rw [map_bind, funext h]

/-- A loop over another state that takes the same rounds. -/
theorem loop_map {σ σ' α β : Type} (state : σ → σ') (f : α → β) {step : σ → Parser (Round σ α)}
    {step' : σ' → Parser (Round σ' β)}
    (h : ∀ a, step' (state a) = Round.map state f <$> step a) (start : σ) :
    loop step' (state start) = f <$> loop step start := by
  have hrounds : ∀ n a, rounds step' n (state a) = f <$> rounds step n a := by
    intro n
    induction n with
    | zero => exact fun a => rfl
    | succ n ih =>
      intro a
      rw [rounds, rounds, h, bind_map_left]
      refine bind_eq_map fun round => ?_
      cases round with
      | next b => exact ih b
      | stop r => exact (map_pure f r).symm
  funext s
  exact congrFun (hrounds _ start) s

variable (g : Grammar)

/-- A statement with its end. -/
def endedStatement : Parser Stmt := do
  let stmt ← statement g
  statementEnd
  return stmt

/-- The entries of a body, up to and past its closing brace. -/
def entries : Parser (List (ParseEntry Stmt)) :=
  loop (fun (es : List (ParseEntry Stmt)) => do
    skipSeparators
    if ← eat .rightBrace then return .stop es
    if (← kind).isEof then fail
    let start ← cursor
    match ← attempt (endedStatement g) with
    | some stmt => return .next (es ++ [.kept stmt])
    | none =>
      let declared ← unparsedVal g start
      skipUnparsed start
      return .next (es ++ [.skipped start declared])) []

/-- The statements of a body are what is left of its entries. -/
theorem statements_eq :
    statements g = (fun es : List (ParseEntry Stmt) => es.flatMap ParseEntry.stmts) <$> entries g := by
  refine loop_map (fun es : List (ParseEntry Stmt) => es.flatMap ParseEntry.stmts) _ (fun es => ?_) []
  refine bind_eq_map fun _ => bind_eq_map fun closed => ?_
  split
  · rfl
  refine bind_eq_map fun k => ?_
  split
  · rfl
  refine bind_eq_map fun start => bind_eq_map fun parsed => ?_
  cases parsed with
  | some stmt => simp [ParseEntry.stmts, ParseEntry.parts]
  | none => simp [ParseEntry.stmts, ParseEntry.parts]

theorem entries_of_statements {s t : ParseState} {stmts : List Stmt}
    (h : statements g s = .done stmts t) :
    ∃ es, entries g s = .done es t ∧ stmts = es.flatMap ParseEntry.stmts := by
  rw [statements_eq, map_eq_pure_bind] at h
  obtain ⟨es, u, hes, h⟩ := bind_eq_done.1 h
  cases h
  exact ⟨es, hes, rfl⟩

/-- The opening brace of a lambda with its parameters. -/
def lambdaHead : Parser (List LambdaParam × DeclId) := do
  let _ ← expect .leftBrace
  let params ← lambdaParams g
  return (params, ← newDecl)

theorem block_eq_done {s t : ParseState} {b : Block} (h : block g s = .done b t) :
    g.stmts { s with cursor := s.cursor.advance } = .done b.stmts t := by
  obtain ⟨start, u, hstart, h⟩ := bind_eq_done.1 h
  obtain ⟨-, rfl, rfl⟩ := expect_eq_done.1 hstart
  obtain ⟨stmts, v, hstmts, h⟩ := bind_eq_done.1 h
  cases h
  exact hstmts

theorem lambda_eq_done {s t : ParseState} {e : Expr} (h : lambda g s = .done e t) :
    ∃ params it b u v, e.kind = .lambda params it b ∧
      lambdaHead g s = .done (params, it) u ∧ g.stmts u = .done b.stmts v := by
  obtain ⟨start, s₁, hstart, h⟩ := bind_eq_done.1 h
  obtain ⟨params, s₂, hparams, h⟩ := bind_eq_done.1 h
  obtain ⟨it, u, hit, h⟩ := bind_eq_done.1 h
  obtain ⟨stmts, v, hstmts, h⟩ := bind_eq_done.1 h
  cases h
  refine ⟨params, it, _, u, v, rfl, ?_, hstmts⟩
  exact bind_eq_done.2 ⟨start, s₁, hstart, bind_eq_done.2 ⟨params, s₂, hparams,
    bind_eq_done.2 ⟨it, u, hit, rfl⟩⟩⟩

end Parser

/-! ## Bodies with skipped statements -/

/-- What a body with these entries is taken for. -/
structure Block.Recovered (b : Block) (es : List (ParseEntry Stmt)) : Prop where
  stmts : b.stmts = es.flatMap ParseEntry.stmts
  /-- A skipped statement at the end takes the value that the body has before it only by
  declaring a name. -/
  tail : ∀ {earlier start declared}, es = earlier ++ [.skipped start declared] →
    (b.tail? = none ↔
      declared.isSome = true ∨ (ParseEntry.left earlier).getLast?.bind ParseEntry.expr? = none)
  /-- A skipped statement keeps a body from listing columns only by declaring a name. -/
  columns : b.columnFroms? = none ↔ (∃ start v, .skipped start (some v) ∈ es) ∨
    (∀ stmt, .kept stmt ∉ es) ∨
      ∃ stmt, .kept stmt ∈ es ∧ stmt.expr?.bind Expr.columnFrom? = none
  /-- Without a value the body is bound to nothing known and has no type. -/
  unknown : b.tail? = none →
    ∀ q : Queries, q.blockBinding b = pure .unknown ∧ q.blockType b = pure none
  /-- A lambda with a body that lists no columns gives none to the call it is passed to. -/
  noColumns : b.columnFroms? = none → ∀ (q : Queries) id span params it,
    q.argument ⟨id, span, .lambda params it b⟩ = OperationArg.value <$> q.blockType b

theorem Block.recovered {b : Block} {es : List (ParseEntry Stmt)}
    (h : b.stmts = es.flatMap ParseEntry.stmts) :
    b.Recovered es where
  stmts := h
  tail := by
    rintro earlier start declared rfl
    rw [tail?_of_entries h, ParseEntry.left_append]
    cases declared with
    | none => simp [ParseEntry.left, ParseEntry.isLost]
    | some v => simp [ParseEntry.left, ParseEntry.isLost, ParseEntry.expr?]
  columns := by
    rw [columnFroms?_eq_none_of_entries h]
    constructor
    · rintro (hnil | ⟨e, he, hnone⟩)
      · refine .inr (.inl fun stmt hstmt => ?_)
        exact List.not_mem_nil (hnil ▸ ParseEntry.mem_left.2 ⟨hstmt, rfl⟩)
      · obtain ⟨he, hleft⟩ := ParseEntry.mem_left.1 he
        cases e with
        | kept stmt => exact .inr (.inr ⟨stmt, he, hnone⟩)
        | skipped start declared =>
          cases declared with
          | none => exact absurd hleft Bool.noConfusion
          | some v => exact .inl ⟨start, v, he⟩
    · rintro (⟨start, v, he⟩ | hkept | ⟨stmt, he, hnone⟩)
      · exact .inr ⟨_, ParseEntry.mem_left.2 ⟨he, rfl⟩, rfl⟩
      · cases hl : ParseEntry.left es with
        | nil => exact .inl rfl
        | cons e rest =>
          have he := ParseEntry.mem_left.1 (hl ▸ List.mem_cons_self : e ∈ ParseEntry.left es)
          cases e with
          | kept stmt => exact absurd he.1 (hkept stmt)
          | skipped start declared => exact .inr ⟨_, List.mem_cons_self, rfl⟩
      · exact .inr ⟨_, ParseEntry.mem_left.2 ⟨he, rfl⟩, hnone⟩
  unknown hnone q := by
    rw [Queries.blockBinding, Queries.blockType, hnone]
    exact ⟨rfl, rfl⟩
  noColumns hnone q id span params it := by
    simp only [Queries.argument, Expr.stringLiteral?, Expr.intLiteral?, hnone]
    rfl

namespace Parser

/-- What the body of a block or of a lambda is taken for, whatever is skipped in it. -/
theorem body_recovered (n : ℕ) (s t : ParseState) :
    (∀ b, block (Grammar.ofDepth (n + 1)) s = .done b t →
      ∃ es, entries (Grammar.ofDepth n) { s with cursor := s.cursor.advance } = .done es t ∧
        b.Recovered es) ∧
    ∀ e, lambda (Grammar.ofDepth (n + 1)) s = .done e t →
      ∃ params it b u v es, e.kind = .lambda params it b ∧
        lambdaHead (Grammar.ofDepth (n + 1)) s = .done (params, it) u ∧
          entries (Grammar.ofDepth n) u = .done es v ∧ b.Recovered es := by
  refine ⟨fun b hb => ?_, fun e he => ?_⟩
  · obtain ⟨es, hes, hstmts⟩ := entries_of_statements _ (block_eq_done _ hb)
    exact ⟨es, hes, Block.recovered hstmts⟩
  · obtain ⟨params, it, b, u, v, hkind, hhead, hbody⟩ := lambda_eq_done _ he
    obtain ⟨es, hes, hstmts⟩ := entries_of_statements _ hbody
    exact ⟨params, it, b, u, v, es, hkind, hhead, hes, Block.recovered hstmts⟩

/-- A column, and a statement with a bound reference, which is skipped. -/
def lostBody : List Token :=
  [⟨.mark .leftBrace, ⟨0, 1⟩⟩, ⟨.text "z", ⟨2, 5⟩⟩, ⟨.name "from", ⟨6, 10⟩⟩, ⟨.integer 2, ⟨11, 12⟩⟩,
    ⟨.newline, ⟨12, 13⟩⟩, ⟨.mark .doubleColon, ⟨13, 15⟩⟩, ⟨.name "more", ⟨15, 19⟩⟩,
    ⟨.mark .rightBrace, ⟨20, 21⟩⟩, ⟨.eof, ⟨21, 21⟩⟩]

/-- The last statement of this lambda is skipped, and declares nothing. -/
theorem body_recovered_lostBody : ∃ e t params it b es earlier start,
    lambda (Grammar.ofDepth 9) (SourceUnit.start lostBody) = .done e t ∧
      e.kind = ExprKind.lambda params it b ∧ b.Recovered es ∧
        es = earlier ++ [.skipped start none] := by
  have hdone : (lambda (Grammar.ofDepth 9) (SourceUnit.start lostBody)).value?.isSome = true := by
    decide +kernel
  have hlast : (((lambdaHead (Grammar.ofDepth 9) >>= fun _ => entries (Grammar.ofDepth 8))
      (SourceUnit.start lostBody)).value?.bind List.getLast?).any ParseEntry.isLost = true := by
    decide +kernel
  cases he : lambda (Grammar.ofDepth 9) (SourceUnit.start lostBody) with
  | failed t =>
    rw [he] at hdone
    exact absurd hdone Bool.false_ne_true
  | done e t =>
  obtain ⟨params, it, b, u, v, es, hkind, hhead, hes, hb⟩ := (body_recovered 8 _ t).2 e he
  have hbody : (lambdaHead (Grammar.ofDepth 9) >>= fun _ => entries (Grammar.ofDepth 8))
      (SourceUnit.start lostBody) = .done es v := bind_eq_done.2 ⟨_, u, hhead, hes⟩
  rw [hbody] at hlast
  obtain ⟨entry, hentry, hlost⟩ := Option.any_eq_true .. |>.1 hlast
  obtain ⟨earlier, hes⟩ := List.getLast?_eq_some_iff.1 hentry
  obtain ⟨start, rfl⟩ := ParseEntry.eq_skipped_of_isLost hlost
  exact ⟨e, t, params, it, b, es, earlier, start, rfl, hkind, hb, hes⟩

end Parser

/-- A lambda with a column and a statement that is skipped. -/
def lostText : String :=
  "val a = dataFrameOf(\"x\" to 1).add \x7b\n    \"z\" from 2\n    ::addMore.call(this)\n\x7d\nval b = a.y\n"

/-- The body of the lambda that the first property is initialized with a call of. -/
def SourceUnit.passedBody? (u : SourceUnit) : Option Block :=
  match u.items with
  | .property ⟨_, _, _, _, _, _, some ⟨_, _, .call _ _ [⟨_, ⟨_, _, .lambda _ _ b⟩⟩]⟩, _, _⟩ :: _ =>
    some b
  | _ => none

/-- Whether the body passed consists of one expression, lists columns, and has a skipped statement
behind the expression. -/
def SourceUnit.losesLast (u : SourceUnit) (b : Block) : Bool :=
  match u.skipped, b.stmts with
  | [skipped], [.expr e] =>
    e.span.stop < skipped.start && skipped.stop < b.span.stop && b.columnFroms?.isSome
  | _, _ => false

/-- The last statement of the lambda is skipped, and yet the lambda has a value and lists
columns. -/
theorem not_recovered_lostText : ∃ u b e skipped,
    SourceUnit.ofText lostText = .ok u ∧ u.passedBody? = some b ∧ u.skipped = [skipped] ∧
      b.stmts = [.expr e] ∧ e.span.stop < skipped.start ∧ skipped.stop < b.span.stop ∧
        b.tail? ≠ none ∧ b.columnFroms? ≠ none := by
  obtain ⟨u, hu, h⟩ : ∃ u, SourceUnit.ofText lostText = .ok u ∧
      u.passedBody?.any u.losesLast = true := by
    refine SourceUnit.exists_ofText rfl ?_
    decide +kernel
  obtain ⟨b, hb, h⟩ := Option.any_eq_true .. |>.1 h
  rw [SourceUnit.losesLast] at h
  split at h
  · rename_i skipped e hskipped hstmts
    simp only [Bool.and_eq_true, decide_eq_true_eq] at h
    refine ⟨u, b, e, skipped, hu, hb, hskipped, hstmts, h.1.1, h.1.2, ?_, ?_⟩
    · rw [Block.tail?, hstmts]
      exact Option.some_ne_none e
    · exact Option.isSome_iff_ne_none.1 h.2
  · exact absurd h Bool.false_ne_true

end FrameCheck
