import FrameCheck.Proofs.Parse.Spans
import FrameCheck.Proofs.Parse.Units

/-!
# How a parser lays out expressions

`Parser.Lays p before after` says of a parser that reads on behind the pieces `before` what pieces
its answer comes to. What a parser makes of its pieces, it makes of them behind others
(`Lays.frame`), and what only goes on in the text adds none (`Lays.skip`). Followed through the rules
for expressions, it says that the expressions of a grammar nest.

* `Lays.next`, `Lays.behind`, `Lays.close` : the rules for combined parsers.
* `LaysAt`, `LaysBack` : from a known place, and back to one.
* `Lays.expression` : the expressions of a grammar, whatever it is built on.
-/

namespace FrameCheck

namespace Parser

variable {α β σ : Type}

/-- Behind the pieces `before`, the parser goes on in the list, and then it stands behind the pieces
`after` of what it returns. -/
structure Lays (p : Parser α) (before : List Piece) (after : α → List Piece) : Prop where
  made : ∀ {ts lo s a t}, Token.Orderly ts → s.cursor.Follows ts lo before → p s = .done a t →
    t.cursor.Follows ts lo (after a)

/-- The parser does so from the place `d`. -/
structure LaysAt (d : Cursor) (p : Parser α) (before : List Piece) (after : α → List Piece) :
    Prop where
  made : ∀ {ts lo s a t}, Token.Orderly ts → d.Follows ts lo before → s.cursor = d →
    p s = .done a t → t.cursor.Follows ts lo (after a)

/-- The parser does so wherever the cursor is, for it returns to the place `d`. -/
structure LaysBack (d : Cursor) (p : Parser α) (before : List Piece) (after : α → List Piece) :
    Prop where
  made : ∀ {ts lo s a t}, Token.Orderly ts → d.Follows ts lo before → p s = .done a t →
    t.cursor.Follows ts lo (after a)

section

variable {p : Parser α} {f : α → Parser β} {before : List Piece} {mid : α → List Piece}
  {after : β → List Piece} {d : Cursor}

theorem Lays.at (h : Lays p before mid) : LaysAt d p before mid where
  made hts hd hs hp := h.made hts (hs ▸ hd) hp

theorem LaysBack.at (h : LaysBack d p before mid) : LaysAt d p before mid where
  made hts hd _ hp := h.made hts hd hp

namespace Lays

/-- An answer with some of the pieces. -/
theorem done {a : α} (h : (mid a).Sublist before) : Lays (pure a) before mid where
  made _ hs hd := by
    cases hd
    exact hs.sublist h

/-- An answer with the same pieces. -/
theorem same {a : α} (h : mid a = before) : Lays (pure a) before mid :=
  done (h ▸ List.Sublist.refl _)

theorem fail : Lays (fail : Parser α) before mid where
  made _ _ hd := by cases hd

theorem failBefore : Lays ((Parser.fail : Parser α) >>= f) before after where
  made _ _ hd := by cases hd

theorem next (h : Lays p before mid) (hf : ∀ a, Lays (f a) (mid a) after) :
    Lays (p >>= f) before after where
  made hts hs hd := by
    obtain ⟨a, t, hp, hfa⟩ := bind_eq_done.1 hd
    exact (hf a).made hts (h.made hts hs hp) hfa

/-- What a parser makes of pieces, it makes of them behind others. -/
theorem frame (h : Lays p before mid) (front : List Piece) :
    Lays p (front ++ before) fun a => front ++ mid a where
  made {ts lo s a t} hts hs hp := by
    obtain ⟨i, hi, hlaid⟩ := hs
    obtain ⟨k, hfront, hbefore⟩ := hlaid.split
    obtain ⟨j, hj, hmid⟩ := h.made hts ⟨i, hi, hbefore⟩ hp
    exact ⟨j, hj, hfront.append hmid⟩

/-- What a parser makes on its own, it makes behind other pieces. -/
theorem behind (h : Lays p [] mid) (hf : ∀ a, Lays (f a) (before ++ mid a) after) :
    Lays (p >>= f) before after :=
  next (by simpa using h.frame before) hf

/-- A parser that goes on in the text, and then one that goes on. -/
theorem skip [hp : Forward p] (hf : ∀ a, Lays (f a) before after) :
    Lays (p >>= f) before after where
  made hts hs hd := by
    obtain ⟨a, u, hp', hfa⟩ := bind_eq_done.1 hd
    exact (hf a).made hts (hs.reaches (hp.reaches_of_done hp')) hfa

theorem map {g : α → β} (h : Lays p before mid) (hg : ∀ a, (after (g a)).Sublist (mid a)) :
    Lays (g <$> p) before after :=
  h.next fun a => done (hg a)

/-- An expression that may be missing. -/
theorem optional {p : Parser Expr} (h : Lays p before fun e => [.expr e]) :
    Lays (some <$> p) before fun o => o.toList.map Piece.expr :=
  h.map fun _ => List.Sublist.refl _

theorem cursor_next {f : Cursor → Parser α} (hf : ∀ d, LaysAt d (f d) before mid) :
    Lays (Parser.cursor >>= f) before mid where
  made hts hs hd := (hf _).made hts hs rfl hd

theorem kind_next {f : TokenKind → Parser α} (hf : ∀ d : Cursor, LaysAt d (f d.kind) before mid) :
    Lays (Parser.kind >>= f) before mid where
  made hts hs hd := (hf _).made hts hs rfl hd

/-- A mark that is expected is a piece. -/
theorem expect_next {m : Mark} {f : Token → Parser α}
    (hf : ∀ t, Lays (f t) (before ++ [.token t.span]) mid) :
    Lays (Parser.expect m >>= f) before mid where
  made hts hs hd := by
    obtain ⟨token, u, he, hd⟩ := bind_eq_done.1 hd
    obtain ⟨hk, rfl, rfl⟩ := expect_eq_done.1 he
    exact (hf _).made hts (hs.advance hts (TokenKind.isEof_of_isMark hk)) hd

/-- A name that is expected is a piece. -/
theorem expectName_next {f : String × Span → Parser α}
    (hf : ∀ name a, Lays (f (name, a)) (before ++ [.token a]) mid) :
    Lays (Parser.expectName >>= f) before mid where
  made {ts lo s a t} hts hs hd := by
    obtain ⟨⟨name, a⟩, u, he, hd⟩ := bind_eq_done.1 hd
    obtain ⟨token, v, hadvance, he⟩ := bind_eq_done.1 he
    cases hadvance
    cases hk : s.cursor.here.kind.asName? with
    | none =>
      rw [hk] at he
      cases he
    | some name' =>
      rw [hk] at he
      cases he
      refine (hf _ _).made hts (hs.advance hts ?_) hd
      show s.cursor.here.kind.isEof = false
      generalize s.cursor.here.kind = k at hk
      cases k <;> first | rfl | cases hk

/-! ### Expressions -/

/-- An expression from its first piece to the last token that was read. -/
theorem close {q : Piece} {l : List Piece} {kind : Span → ExprKind} {a : Span} (ha : q.span = a)
    (hc : ∀ id span last, (Expr.mk id span (kind last)).children = Piece.exprs (q :: l)) :
    Lays (Parser.lastSpan >>= fun last => Parser.newExpr (a.join last) (kind last)) (q :: l)
      fun e => [.expr e] where
  made {ts lo s e t} hts hs hd := by
    obtain ⟨i, hi, hlaid⟩ := hs
    obtain ⟨last, hlast, hspan⟩ := Option.map_eq_some_iff.1 hi.last
    cases hd
    exact ⟨i, hi, hlaid.close hts hlast (by rw [ha, hspan]) (hc _ _ _)⟩

theorem close_next {q : Piece} {l : List Piece} {kind : Span → ExprKind} {a : Span}
    {f : Expr → Parser β} (ha : q.span = a)
    (hc : ∀ id span last, (Expr.mk id span (kind last)).children = Piece.exprs (q :: l))
    (hf : ∀ e, Lays (f e) [.expr e] after) :
    Lays (Parser.lastSpan >>= fun last => Parser.newExpr (a.join last) (kind last) >>= f) (q :: l)
      after := by
  rw [← bind_assoc]
  exact (close ha hc).next hf

/-- An expression from one piece to another. -/
theorem pair {q r : Piece} {kind : ExprKind} {a b : Span} (ha : q.span = a) (hb : r.span = b)
    (hc : ∀ id span, (Expr.mk id span kind).children = Piece.exprs [q, r]) :
    Lays (Parser.newExpr (a.join b) kind) [q, r] fun e => [.expr e] where
  made {ts lo s e t} hts hs hd := by
    obtain ⟨i, hi, hlaid⟩ := hs
    cases hd
    exact ⟨i, hi, hlaid.pair hts (by rw [ha, hb]) (hc _ _)⟩

/-- An expression of one token, with nothing inside. -/
theorem leaf {a : Span} {kind : ExprKind} (hc : ∀ id span, (Expr.mk id span kind).children = []) :
    Lays (Parser.newExpr a kind) [.token a] fun e => [.expr e] where
  made {ts lo s e t} hts hs hd := by
    obtain ⟨i, hi, hlaid⟩ := hs
    cases hd
    refine ⟨i, hi, hlaid.leaf rfl ?_ ?_⟩
    · rw [hc]
      exact fun c hmem => absurd hmem List.not_mem_nil
    · rw [hc]
      exact .nil

/-! ### Repetition -/

/-- The pieces after a round of a loop : those of the next state, or those of the result. -/
def ofRound (state : σ → List Piece) (after : β → List Piece) : Round σ β → List Piece
  | .next a => state a
  | .stop r => after r

theorem rounds {step : σ → Parser (Round σ β)} {state : σ → List Piece}
    (h : ∀ a, Lays (step a) (state a) (ofRound state after)) :
    ∀ n a, Lays (Parser.rounds step n a) (state a) after
  | 0, _ => fail
  | n + 1, a => by
    refine (h a).next fun r => ?_
    cases r with
    | next b => exact rounds h n b
    | stop r => exact same rfl

/-- A loop keeps what each of its rounds keeps. -/
theorem loop {step : σ → Parser (Round σ β)} (state : σ → List Piece) (after : β → List Piece)
    (h : ∀ a, Lays (step a) (state a) (ofRound state after)) (start : σ) :
    Lays (Parser.loop step start) (state start) after where
  made hts hs hd := (rounds h _ start).made hts hs hd

/-- A fold keeps what each of its steps keeps, where the pieces depend on what is left. -/
theorem foldlM {step : β → α → Parser β} (state : List α → β → List Piece)
    (h : ∀ a l b, Lays (step b a) (state (a :: l) b) (state l)) :
    ∀ (l : List α) (b : β), Lays (l.foldlM step b) (state l b) (state [])
  | [], _ => same rfl
  | a :: l, b => by
    rw [List.foldlM_cons]
    exact (h a l b).next fun b' => foldlM state h l b'

end Lays

/-- A token at a known place, which does not end the text, is a piece. -/
theorem LaysAt.advance_next {f : Token → Parser α} (hk : d.kind.isEof = false)
    (hf : Lays (f d.here) (before ++ [.token d.here.span]) mid) :
    LaysAt d (Parser.advance >>= f) before mid where
  made := by
    rintro ts lo s a t hts hd rfl hp
    exact hf.made (s := { s with cursor := s.cursor.advance }) hts (hd.advance hts hk) hp

/-- Wherever the cursor is, the parser moves to a place behind `d`. -/
theorem LaysBack.moveTo_next {e : Cursor} {f : Unit → Parser α} (he : d.Reaches e)
    (hf : Lays (f ()) before mid) : LaysBack d (Parser.moveTo e >>= f) before mid where
  made {_ _ s _ _} hts hd hp :=
    hf.made (s := { s with cursor := e }) hts (hd.reaches he) hp

/-- Wherever the cursor is, the parser returns and skips what starts at `d`. -/
theorem LaysBack.skipUnparsed_next {f : Unit → Parser α} (hf : Lays (f ()) before mid) :
    LaysBack d (Parser.skipUnparsed d >>= f) before mid where
  made {_ _ s _ _} hts hd hp := by
    rw [bind_of_done (skipUnparsed_eq d s)] at hp
    exact hf.made (s := { s with cursor := skipStop d, skipped := skipSpan d :: s.skipped }) hts
      (hd.reaches (reaches_skipStop d)) hp

/-- An attempt that succeeds goes on, and one that is given up returns. -/
theorem LaysAt.attempt_next {f : Option α → Parser β} (hp : Lays p [] mid)
    (hsome : ∀ a, Lays (f (some a)) (before ++ mid a) after)
    (hnone : LaysBack d (f none) before after) :
    LaysAt d (Parser.attempt p >>= f) before after where
  made := by
    rintro ts lo s b t hts hd rfl hpb
    obtain ⟨o, u, ho, hfo⟩ := bind_eq_done.1 hpb
    obtain ⟨a, rfl, h⟩ | ⟨rfl, -⟩ := attempt_eq_done.1 ho
    · exact (hsome a).made hts ((hp.frame before).made hts (by rwa [List.append_nil]) h) hfo
    · exact hnone.made hts hd hfo

end

end Parser

/-- The parsers for nested parts lay out what they read. -/
class Grammar.Laying (g : Grammar) : Prop extends g.Forward where
  expr : Parser.Lays g.expr [] fun e => [.expr e]
  stmts : Parser.Lays g.stmts [] fun ss => (Stmt.exprsOf ss).map .expr

namespace Parser.Lays

/-! ## Expressions -/

section

variable {operand : Parser Expr} (h : Lays operand [] fun e => [.expr e])

include h

theorem chain (p : Precedence) : Lays (Parser.chain p operand) [] fun e => [.expr e] := by
  refine h.next fun first => loop (fun e => [.expr e]) _ (fun left => ?_) first
  refine skip fun c => ?_
  cases BinaryOp.at? c with
  | none => exact same rfl
  | some op =>
    simp only
    split
    · refine skip fun _ => skip fun _ => skip fun _ => h.behind fun right => ?_
      exact (pair (q := .expr left) (r := .expr right) rfl rfl fun _ _ => rfl).next
        fun e => same rfl
    · exact same rfl

theorem binary : ∀ ps, Lays (Parser.binary operand ps) [] fun e => [.expr e]
  | [] => h
  | p :: tighter => (binary tighter).chain p

theorem signed : Lays (Parser.signed operand) [] fun e => [.expr e] := by
  -- the operators are kept from the operand to the left
  let marks (ops : List (UnaryOp × Span)) : List Piece := ops.reverse.map fun op => .token op.2
  refine (loop marks marks (fun ops => kind_next fun d => ?_) []).next fun ops => ?_
  · generalize hop : UnaryOp.ofToken? d.kind = op
    cases op with
    | none =>
      have hstop : Lays (pure (.stop ops)) (marks ops) (ofRound marks marks) := same rfl
      exact hstop.at
    | some op =>
      refine .advance_next ?_ (same (by simp [ofRound, marks]))
      generalize d.kind = k at hop
      cases k <;> first | rfl | cases hop
  · refine h.behind fun inner => ?_
    refine foldlM (fun ops e => marks ops ++ [.expr e]) (fun (op, start) ops e => ?_) ops inner
    have hop : Lays (Parser.newExpr (start.join e.span) (.unary op e)) [.token start, .expr e]
        fun e => [.expr e] := pair rfl rfl fun _ _ => rfl
    simpa [marks] using hop.frame (marks ops)

theorem castChain (g : Grammar) [g.Forward] :
    Lays (Parser.castChain g operand) [] fun e => [.expr e] := by
  refine h.next fun first => loop (fun e => [.expr e]) _ (fun e => ?_) first
  refine skip fun isCast => ?_
  split
  · refine skip fun safe => skip fun type => ?_
    exact close_next (q := .expr e) rfl (fun _ _ _ => rfl) fun e => same rfl
  · exact same rfl

end

variable (g : Grammar) [hg : g.Laying]

/-! ### Calls and blocks -/

theorem arguments : Lays (Parser.arguments g) []
    fun args => (args.map Argument.value).map .expr := by
  refine skip fun _ => loop (fun args => (args.map Argument.value).map .expr) _ (fun args => ?_) []
  refine skip fun _ => skip fun closed => ?_
  split
  · exact same rfl
  refine skip fun name => skip fun _ => hg.expr.behind fun value => ?_
  refine skip fun _ => skip fun more => ?_
  split
  · exact same (by simp [ofRound])
  · exact skip fun _ => skip fun _ => same (by simp [ofRound])

theorem block : Lays (Parser.block g) [] fun b => b.exprs.map .expr :=
  skip fun _ => hg.stmts.next fun _ => skip fun _ => same rfl

theorem lambda : Lays (Parser.lambda g) [] fun e => [.expr e] := by
  refine expect_next fun start => skip fun params => skip fun it => ?_
  refine hg.stmts.behind fun stmts => ?_
  exact close (q := .token start.span) rfl fun _ _ _ => (Piece.exprs_map_expr _).symm

theorem call (callee : Expr) (typeArgs : List TypeRef) :
    Lays (Parser.call g callee typeArgs) [.expr callee] fun e => [.expr e] := by
  refine skip fun paren => ?_
  extract_lets made trailing
  have hmade (args : List Argument) : Lays (made args)
      (.expr callee :: (args.map Argument.value).map .expr) fun e => [.expr e] :=
    close rfl fun _ _ _ => (Piece.exprs_map_expr (callee :: args.map Argument.value)).symm
  have htrailing (args : List Argument) : Lays (trailing args)
      (.expr callee :: (args.map Argument.value).map .expr) fun e => [.expr e] := by
    refine skip fun brace => ?_
    split
    · refine (lambda g).behind fun f => (same ?_).next hmade
      simp
    · exact (same rfl).next hmade
  split
  · exact (arguments g).behind htrailing
  · exact (same rfl).next htrailing

/-! ### Suffixes -/

theorem memberOf (receiver : Expr) :
    Lays (Parser.memberOf receiver) [.expr receiver] fun e => [.expr e] :=
  skip fun _ => skip fun _ => expectName_next fun _ _ => pair rfl rfl fun _ _ => rfl

theorem indexOf (receiver : Expr) :
    Lays (Parser.indexOf g receiver) [.expr receiver] fun e => [.expr e] := by
  refine skip fun _ => ?_
  refine (loop (List.map .expr) (List.map .expr) (fun indices => ?_) []).behind fun indices => ?_
  · refine skip fun _ => hg.expr.behind fun index => skip fun _ => skip fun more => ?_
    split <;> exact same (by simp [ofRound])
  · exact skip fun _ => close rfl fun _ _ _ => (Piece.exprs_map_expr (receiver :: indices)).symm

theorem suffix (e : Expr) :
    Lays (Parser.suffix g e) [.expr e] fun o => [.expr (o.getD e)] := by
  refine skip fun c => ?_
  extract_lets callable
  split
  · exact (memberOf e).map fun _ => List.Sublist.refl _
  split
  · refine skip fun typeArgs => ?_
    cases typeArgs with
    | none => exact same rfl
    | some typeArgs => exact (call g e typeArgs).map fun _ => List.Sublist.refl _
  split
  · exact (call g e []).map fun _ => List.Sublist.refl _
  split
  · exact (indexOf g e).map fun _ => List.Sublist.refl _
  split
  · exact skip fun _ => close_next (q := .expr e) rfl (fun _ _ _ => rfl) fun e => same rfl
  · exact same rfl

/-! ### Branches -/

theorem branch : Lays (Parser.branch g) [] fun e => [.expr e] := by
  refine skip fun _ => skip fun braced => ?_
  split
  · rw [Parser.block, bind_assoc]
    refine expect_next fun start => ?_
    rw [bind_assoc]
    refine hg.stmts.behind fun stmts => ?_
    rw [bind_assoc]
    exact close (q := .token start.span) rfl fun _ _ _ => (Piece.exprs_map_expr _).symm
  · exact hg.expr

theorem ifElse {d : Cursor} (hk : d.kind.isEof = false) :
    LaysAt d (Parser.ifElse g) [] fun e => [.expr e] := by
  refine .advance_next hk (skip fun _ => skip fun _ => hg.expr.behind fun condition => ?_)
  refine skip fun _ => skip fun _ => (branch g).behind fun thenBranch => skip fun more => ?_
  extract_lets made
  have hmade (elseBranch : Option Expr) : Lays (made elseBranch)
      (.token d.here.span :: .expr condition :: .expr thenBranch :: elseBranch.toList.map .expr)
      fun e => [.expr e] :=
    close rfl fun _ _ _ => (Piece.exprs_map_expr (condition :: thenBranch :: elseBranch.toList)).symm
  split
  · exact skip fun _ => skip fun _ => (branch g).optional.behind hmade
  · exact (same rfl).next hmade

theorem whenSubject : Lays (Parser.whenSubject g) [] fun e => [.expr e] := by
  refine skip fun _ => skip fun named => ?_
  extract_lets subject
  have hsubject : Lays (subject ()) [] fun e => [.expr e] :=
    hg.expr.next fun e => skip fun _ => skip fun _ => same rfl
  split
  · refine skip fun _ => skip fun typed => ?_
    split
    · exact skip fun _ => skip fun _ => skip fun _ => hsubject
    · exact skip fun _ => skip fun _ => hsubject
  · exact hsubject

theorem whenCondition : Lays (Parser.whenCondition g) [] fun o => o.toList.map .expr := by
  refine skip fun c => ?_
  extract_lets condition
  have hcondition : Lays (condition ()) [] fun o => o.toList.map .expr := by
    refine skip fun isType => ?_
    split
    · exact skip fun _ => same rfl
    · exact skip fun _ => hg.expr.optional
  split
  · exact skip fun _ => hcondition
  · exact hcondition

theorem whenBranch : Lays (Parser.whenBranch g) [] fun b => b.exprs.map .expr := by
  refine skip fun isElse => ?_
  extract_lets arm
  have harm (conditions : List Expr) : Lays (arm conditions) (conditions.map .expr)
      fun b => b.exprs.map .expr :=
    skip fun _ => skip fun _ => (branch g).behind fun b => same (by simp [WhenBranch.exprs])
  split
  · exact (same rfl).next harm
  · refine (loop (List.map .expr) (List.map .expr) (fun conditions => ?_) []).next harm
    refine skip fun _ => (whenCondition g).behind fun c => skip fun _ => skip fun more => ?_
    split <;> exact same (by simp [ofRound])

theorem whenOf {d : Cursor} (hk : d.kind.isEof = false) :
    LaysAt d (Parser.whenOf g) [] fun e => [.expr e] := by
  refine .advance_next hk (skip fun subjected => ?_)
  extract_lets branches
  have hbranches (subject : Option Expr) : Lays (branches subject)
      (.token d.here.span :: subject.toList.map .expr) fun e => [.expr e] := by
    refine skip fun _ => skip fun _ => ?_
    let read (bs : List WhenBranch) : List Piece := (bs.flatMap WhenBranch.exprs).map .expr
    refine (loop read read (fun bs => ?_) []).behind fun bs => ?_
    · refine skip fun _ => skip fun closed => ?_
      split
      · exact same rfl
      · exact (whenBranch g).behind fun b => same (by simp [ofRound, read])
    · refine close (q := .token d.here.span) (l := subject.toList.map .expr ++ read bs) rfl ?_
      intro _ _ _
      simp only [read, ← List.map_append]
      exact (Piece.exprs_map_expr (subject.toList ++ bs.flatMap WhenBranch.exprs)).symm
  split
  · exact (whenSubject g).optional.behind hbranches
  · exact (same rfl).next hbranches

/-! ### Operands -/

/-- What an embedded expression is read from are the tokens of its template. -/
theorem embedded {part : List Token} {s t : ParseState} {e : Expr} (hpart : Token.Orderly part)
    (hd : Parser.embedded g part s = .done e t) :
    t.cursor = s.cursor ∧ e.Nests part ∧ e.span.Aligned part := by
  obtain ⟨text, stop, hapart⟩ := hpart part .self
  have hlays : Lays (do
      skipNewlines
      let e ← g.expr
      skipNewlines
      if (← kind).isEof then return e else Parser.fail) [] fun e => [.expr e] := by
    refine skip fun _ => hg.expr.next fun e => skip fun _ => skip fun k => ?_
    split
    · exact same rfl
    · exact fail
  have hstart : (Cursor.ofTokens part).Follows part 0 [] :=
    ⟨0, Cursor.stands_ofTokens hapart.ends_list.ne_nil, .nil (Nat.le_refl 0)⟩
  obtain ⟨u, hp, rfl⟩ := within_eq_done.1 hd
  obtain ⟨i, -, hlaid⟩ := hlays.made (s := { s with cursor := Cursor.ofTokens part }) hpart hstart hp
  obtain ⟨_, _, -, -, htakes⟩ := hlaid.takes_of_mem (List.mem_singleton_self _)
  exact ⟨rfl, hlaid.nests_of_mem (List.mem_singleton_self _), htakes.aligned⟩

theorem parenthesized : Lays (Parser.parenthesized g) [] fun e => [.expr e] :=
  skip fun _ => skip fun _ => hg.expr.next fun _ => skip fun _ => skip fun _ => same rfl

/-- The expressions in the templates of a string lie in their templates, in their order. -/
theorem mapM_embedded : ∀ {parts : List (List Token)} {s t : ParseState} {es : List Expr},
    (∀ part ∈ parts, Token.Orderly part) → parts.mapM (Parser.embedded g) s = .done es t →
      t.cursor = s.cursor ∧
        List.Forall₂ (fun part e => e.Nests part ∧ e.span.Aligned part) parts es
  | [], _, _, _, _, hd => by
    cases hd
    exact ⟨rfl, .nil⟩
  | part :: parts, s, t, es, hparts, hd => by
    rw [List.mapM_cons] at hd
    obtain ⟨e, u, he, hd⟩ := bind_eq_done.1 hd
    obtain ⟨es', v, hes, hd⟩ := bind_eq_done.1 hd
    cases hd
    obtain ⟨hu, hpart⟩ := embedded g (hparts part List.mem_cons_self) he
    obtain ⟨hv, hmore⟩ := mapM_embedded (fun part hp => hparts part (List.mem_cons_of_mem _ hp)) hes
    exact ⟨hv.trans hu, .cons hpart hmore⟩

theorem template {d : Cursor} {parts : List (List Token)} (hd : d.kind = .template parts) :
    LaysAt d (Parser.advance >>= fun _ => parts.mapM (Parser.embedded g) >>= fun es =>
      Parser.newExpr d.here.span (.template es)) [] fun e => [.expr e] where
  made := by
    rintro ts lo s e t hts hs rfl hp
    obtain ⟨_, u, hadvance, hp⟩ := bind_eq_done.1 hp
    cases hadvance
    obtain ⟨es, v, hes, hp⟩ := bind_eq_done.1 hp
    cases hp
    obtain ⟨i, hi, -⟩ := id hs
    have hmem := List.mem_of_getElem? hi.here
    have hkind : s.cursor.here.kind.parts = parts := congrArg TokenKind.parts hd
    obtain ⟨hv, hparts⟩ := mapM_embedded g
      (fun part hpart => hts.within (.part .self hmem (hkind ▸ hpart))) hes
    obtain ⟨hinside, hordered⟩ := hts.embedded hmem (hkind ▸ hparts)
    obtain ⟨j, hj, hlaid⟩ := hs.advance hts (by rw [hd]; rfl)
    have htoken : Laid ts lo [.token s.cursor.here.span] j :=
      hlaid.sublist (List.sublist_append_right _ _)
    refine ⟨j, ?_, htoken.leaf rfl hinside hordered⟩
    show v.cursor.Stands ts j
    rw [hv]
    exact hj

theorem primary : Lays (Parser.primary g) [] fun e => [.expr e] := by
  refine cursor_next fun d => ?_
  extract_lets token
  have hleaf {kind : ExprKind} (hk : d.kind.isEof = false)
      (hc : ∀ id span, (Expr.mk id span kind).children = []) :
      LaysAt d (Parser.advance >>= fun _ => Parser.newExpr token.span kind) [] fun e => [.expr e] :=
    .advance_next hk (leaf hc)
  generalize hk : token.kind = k
  have hd : d.kind = k := hk
  split
  · next value hvalue =>
    exact hleaf (by rw [hd]; cases k <;> first | rfl | cases hvalue) fun _ _ => rfl
  · next name _ hname =>
    exact hleaf (by rw [hd]; cases k <;> first | rfl | cases hname) fun _ _ => rfl
  · split
    · exact hleaf (by rw [hd]; rfl) fun _ _ => rfl
    · exact (parenthesized g).at
    · exact template g hd
    · exact ifElse g (by rw [hd]; rfl)
    · exact whenOf g (by rw [hd]; rfl)
    · exact (lambda g).at
    · exact fail.at

theorem suffixed : Lays (Parser.suffixed g) [] fun e => [.expr e] := by
  refine (primary g).next fun first => loop (fun e => [.expr e]) _ (fun e => ?_) first
  refine (suffix g e).next fun o => ?_
  cases o <;> exact same rfl

theorem expression : Lays (Parser.expression g) [] fun e => [.expr e] :=
  ((suffixed g).signed.castChain g).binary _

end Parser.Lays

end FrameCheck
