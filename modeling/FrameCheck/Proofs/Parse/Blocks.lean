import FrameCheck.Proofs.Parse.ConcurringStatements
import FrameCheck.Proofs.Parse.Printing
import Mathlib.Data.List.Forall2

/-!
# The lines of a block

Statements in a block are read independently of each other. What a statement that stands alone is read
as (`Parser.ReadsAlone`), a line of a block is read as, too, whatever stands in the lines before and
behind it. The two runs concur up to the line break, and nothing depends on what was read before
(`Parser.Anew`). A line that begins with an annotation is no statement, and is skipped as a whole.

* `Parser.ReadsAlone.statement_done` : a statement in its line.
* `Parser.Lines` : the lines of a block, with what is read from them.
* `Parser.Lines.loop_done` : the statements of a block are those of its lines.
-/

namespace FrameCheck

open Erasable

/-! ## What was read before -/

/-- The state, with another token before. -/
def ParseState.behind (s : ParseState) (last : Span) : ParseState :=
  { s with cursor := { s.cursor with last := last } }

namespace Parser

variable {α β : Type}

/-- Where the parser returns, it does so whatever token stands before. -/
def Anew (p : Parser α) : Prop :=
  ∀ ⦃s : ParseState⦄ ⦃a t⦄ (last : Span), s.cursor.ahead ≠ [] → p s = .done a t →
    p (s.behind last) = .done a t

namespace Anew

variable {p : Parser α} {f : α → Parser β}

theorem advance : Anew Parser.advance := by
  rintro ⟨⟨here, ahead, before⟩, e, d, skipped⟩ a t last hne hd
  cases ahead with
  | nil => exact absurd rfl hne
  | cons => exact hd

theorem expect (m : Mark) : Anew (Parser.expect m) := by
  intro s a t last hne hd
  obtain ⟨hk, rfl, rfl⟩ := expect_eq_done.1 hd
  exact (if_pos hk).trans (advance last hne rfl)

theorem fail : Anew (Parser.fail : Parser α) := fun _ _ _ _ _ hd => nomatch hd

theorem next (hp : Anew p) : Anew (p >>= f) := by
  intro s b u last hne hd
  obtain ⟨a, t, ha, hd⟩ := bind_eq_done.1 hd
  exact bind_eq_done.2 ⟨a, t, hp last hne ha, hd⟩

theorem kind_next {f : TokenKind → Parser β} (hf : ∀ k, Anew (f k)) : Anew (Parser.kind >>= f) :=
  fun s _ _ last hne hd => hf s.cursor.kind last hne hd

theorem cursor_next {f : Cursor → Parser β} (hf : ∀ c, Anew (f c))
    (hlast : ∀ c last, f { c with last := last } = f c) : Anew (Parser.cursor >>= f) := by
  intro s b u last hne hd
  exact (congrFun (hlast s.cursor last) _).trans (hf s.cursor last hne hd)

variable (g : Grammar)

theorem primary : Anew (primary g) := by
  refine cursor_next (fun c => ?_) fun _ _ => rfl
  extract_lets token
  split
  · exact advance.next
  · exact advance.next
  · split
    · exact advance.next
    · exact advance.next
    · exact advance.next
    · exact advance.next
    · exact advance.next
    · exact (expect _).next
    · exact fail

theorem binary {operand : Parser Expr} (h : Anew operand) : ∀ os, Anew (binary operand os)
  | [] => h
  | _ :: tighter => (binary h tighter).next

theorem signed {operand : Parser Expr} (h : Anew operand) : Anew (signed operand) := by
  intro s b u last hne hd
  rw [signed_eq_loop] at hd ⊢
  cases hop : UnaryOp.ofToken? s.cursor.kind with
  | none =>
    rw [bind_of_done (loop_signed_none hop)] at hd
    exact (bind_of_done (loop_signed_none (s := s.behind last) hop)).trans (h.next last hne hd)
  | some op =>
    obtain ⟨⟨here, ahead, before⟩, e, d, skipped⟩ := s
    cases ahead with
    | nil => exact absurd rfl hne
    | cons token ahead =>
      have hround {last : Span} : Rounds.signed [] ⟨⟨here, token :: ahead, last⟩, e, d, skipped⟩
          = .done (.next [(op, here.span)]) ⟨⟨token, ahead, here.span⟩, e, d, skipped⟩ := by
        unfold Rounds.signed
        rw [bind_of_done (rfl : Parser.kind _ = .done here.kind _),
          show UnaryOp.ofToken? here.kind = some op from hop]
        rfl
      have hloop {last : Span} :
          Parser.loop Rounds.signed [] ⟨⟨here, token :: ahead, last⟩, e, d, skipped⟩
            = rounds Rounds.signed (ahead.length + 1) [(op, here.span)]
              ⟨⟨token, ahead, here.span⟩, e, d, skipped⟩ := bind_of_done hround
      obtain ⟨ops, t, hops, hd⟩ := bind_eq_done.1 hd
      exact bind_eq_done.2 ⟨ops, t, hloop.trans (hloop.symm.trans hops), hd⟩

theorem expression : Anew (expression g) :=
  binary (signed (primary g).next).next _

theorem statement : Anew (statement g) := by
  refine kind_next fun k => ?_
  split
  · exact advance.next.next
  · exact advance.next.next
  · exact advance.next.next
  · exact advance.next
  · exact (expression g).next

end Anew

/-! ## Lines -/

/-- Tokens that are read as a statement alone, up to the end behind them; these spans are skipped in
them. -/
def ReadsAlone (g : Grammar) (ts : List Token) (stmt : Stmt) (spans : List Span) : Prop :=
  ∃ e t, e.kind = .eof ∧ statement g (SourceUnit.start (ts ++ [e])) = .done stmt t ∧
    t.cursor.rest = [e] ∧ t.skipped = spans

theorem Refuses.statement {k : TokenKind} (hk : k.isStray = true) (g : Grammar) :
    Refuses k (statement g) := by
  intro s hs
  have hassignment : assignment g s = .failed s := (Refuses.expression hk g).next s hs
  unfold Parser.statement
  rw [bind_of_done (rfl : Parser.kind s = .done s.cursor.kind s), hs]
  cases k with
  | keyword => exact nomatch hk
  | _ => exact hassignment

namespace ReadsAlone

variable {g : Grammar} {ts : List Token} {stmt : Stmt} {spans : List Span}

/-- A statement begins with a token of its own. -/
theorem exists_head (h : ReadsAlone g ts stmt spans) :
    ∃ t us, ts = t :: us ∧ t.kind.isStray = false := by
  obtain ⟨e, t, he, hd, -⟩ := h
  have hhead {x : Token} {xs : List Token} (h : ts ++ [e] = x :: xs) : x.kind.isStray = false := by
    refine Bool.eq_false_iff.2 fun hstray => ?_
    have hrest : (SourceUnit.start (ts ++ [e])).cursor.rest = x :: xs := by
      rw [SourceUnit.start, Cursor.rest_ofTokens (by rw [h]; exact List.cons_ne_nil x xs), h]
    rw [Refuses.statement hstray g _ (Cursor.kind_of_rest hrest)] at hd
    cases hd
  cases ts with
  | nil =>
    have := hhead (List.nil_append [e])
    rw [he] at this
    cases this
  | cons t us => exact ⟨t, us, rfl, hhead (List.cons_append ..)⟩

variable [g.Forward]

/-- What is read up to the last token is read alone. -/
theorem of_done {e : Token} (he : e.kind = .eof) {t : ParseState}
    (hd : statement g (SourceUnit.start (ts ++ [e])) = .done stmt t) (hend : t.cursor.ahead = []) :
    ReadsAlone g ts stmt t.skipped := by
  refine ⟨e, t, he, hd, ?_, rfl⟩
  have hforward : Forward (statement g) := inferInstance
  have hsuffix := (hforward.reaches_of_done hd).rest_suffix
  rw [SourceUnit.start, Cursor.rest_ofTokens (List.append_ne_nil_of_right_ne_nil ts
    (List.cons_ne_nil e []))] at hsuffix
  have hrest : t.cursor.rest = [t.cursor.here] := by rw [Cursor.rest, hend]
  rw [hrest] at hsuffix ⊢
  obtain ⟨before, hbefore⟩ := hsuffix
  rw [(List.append_inj' hbefore rfl).2]

variable [g.Local]

/-- In its line a statement is read as it is alone, whatever stands before it and behind it. -/
theorem statement_done (h : ReadsAlone g ts stmt spans) (hts : Token.Closed ts) {n m : Token}
    {ms : List Token} (hn : n.kind = .newline) (hm : m.kind.isNewline = false)
    (hnext : m.kind.continues = false) {s : ParseState} (hs : s.cursor.rest = ts ++ n :: m :: ms) :
    ∃ stmt' t, statement g s = .done stmt' t ∧ Erasable.Alike stmt stmt' ∧
      t.cursor.rest = n :: m :: ms ∧ t.skipped = spans ++ s.skipped := by
  obtain ⟨x, us, rfl, -⟩ := h.exists_head
  obtain ⟨e, t₀, he, hd, hrest, rfl⟩ := h
  have hstart : (SourceUnit.start (x :: us ++ [e])).cursor.rest = x :: us ++ [e] :=
    Cursor.rest_ofTokens (List.cons_ne_nil _ _)
  have hahead : (SourceUnit.start (x :: us ++ [e])).cursor.ahead ≠ [] :=
    List.append_ne_nil_of_right_ne_nil us (List.cons_ne_nil e [])
  have hends : Token.Ends (x :: us ++ [e]) := ⟨e, List.getLast?_concat, by rw [he]; rfl⟩
  have hplaces : (Frontier.line e n m ms).Places
      ((SourceUnit.start (x :: us ++ [e])).behind s.cursor.last).cursor s.cursor :=
    .ends ⟨he, hn, hm, hnext⟩ hts hstart hs rfl (by rwa [← hstart] at hends)
  have haligned : (Frontier.line e n m ms).Aligned s.skipped
      ((SourceUnit.start (x :: us ++ [e])).behind s.cursor.last) s := ⟨hplaces, rfl⟩
  have hboth := Concurs.statement g haligned
  unfold Concurs at hboth
  rw [Anew.statement g s.cursor.last hahead hd] at hboth
  cases hd' : statement g s with
  | failed t =>
    rw [hd'] at hboth
    exact hboth.elim
  | done stmt' t =>
    rw [hd'] at hboth
    exact ⟨stmt', t, rfl, hboth.1, hboth.2.places.rest_snd nofun hrest, hboth.2.skipped⟩

end ReadsAlone

/-! ## Rounds over the lines of a block -/

section

variable {g : Grammar} (seen : List Stmt) {s : ParseState} {before ts : List Token} {t : Token}

/-- What a round does at a token that neither separates statements nor ends them. -/
theorem Rounds.statements_eq (hbefore : ∀ u ∈ before, u.kind.isSeparator = true)
    (hs : s.cursor.rest = before ++ t :: ts) (ht : t.kind.endsStatement = false) :
    ∃ c : Cursor, c.rest = t :: ts ∧ Rounds.statements g seen s = (do
      let parsed ← attempt do
        let stmt ← statement g
        statementEnd
        return stmt
      match parsed with
      | some stmt => return .next (seen ++ [stmt])
      | none =>
        let declared ← unparsedVal g c
        skipUnparsed c
        return .next (seen ++ (declared.map Stmt.val).toList) : Parser _) { s with cursor := c } := by
  obtain ⟨hseparator, hends⟩ := Bool.or_eq_false_iff.1 ht
  obtain ⟨hseparator, hbrace⟩ := Bool.or_eq_false_iff.1 hseparator
  have hrest := Cursor.rest_skipWhile hseparator before hbefore hs
  refine ⟨_, hrest, ?_⟩
  have hkind := Cursor.kind_of_rest hrest
  generalize hc : s.cursor.skipWhile TokenKind.isSeparator = c at hkind
  have hskip : Parser.skipSeparators s = .done () { s with cursor := c } := by
    rw [← hc]
    rfl
  have heat : Parser.eat .rightBrace { s with cursor := c } = .done false { s with cursor := c } :=
    if_neg (by rw [hkind, hbrace]; exact Bool.false_ne_true)
  unfold Rounds.statements
  rw [bind_of_done hskip, bind_of_done heat, if_neg Bool.false_ne_true,
    bind_of_done (rfl : Parser.kind _ = .done c.kind _)]
  dsimp only
  rw [if_neg (by rw [hkind, hends]; exact Bool.false_ne_true)]
  rfl

/-- The last round, at the brace that closes the block. -/
theorem Rounds.statements_close (ht : t.kind = .mark .rightBrace)
    (hbefore : ∀ u ∈ before, u.kind.isSeparator = true) (hs : s.cursor.rest = before ++ t :: ts)
    (hts : ts ≠ []) : ∃ u, Rounds.statements g seen s = .done (.stop seen) u ∧
      u.cursor.rest = ts ∧ u.cursor.last = t.span ∧ u.skipped = s.skipped := by
  have hrest := Cursor.rest_skipWhile (by rw [ht]; rfl) before hbefore hs
  have hkind := Cursor.kind_of_rest hrest
  generalize hc : s.cursor.skipWhile TokenKind.isSeparator = c at hkind hrest
  have hskip : Parser.skipSeparators s = .done () { s with cursor := c } := by
    rw [← hc]
    rfl
  have heat : Parser.eat .rightBrace { s with cursor := c }
      = .done true { s with cursor := c.advance } := if_pos (by rw [hkind, ht]; rfl)
  refine ⟨{ s with cursor := c.advance }, ?_, Cursor.rest_advance hrest hts,
    Cursor.last_advance hrest hts, rfl⟩
  unfold Rounds.statements
  rw [bind_of_done hskip, bind_of_done heat, if_pos rfl]
  rfl

variable {n m : Token} {ms : List Token}

/-- A round over a line that is a statement. -/
theorem Rounds.statements_statement [g.Forward] [g.Local] {stmt : Stmt} {spans : List Span}
    (h : ReadsAlone g ts stmt spans) (hts : Token.Closed ts) (hn : n.kind = .newline)
    (hm : m.kind.isNewline = false) (hnext : m.kind.continues = false)
    (hbefore : ∀ u ∈ before, u.kind.isSeparator = true)
    (hs : s.cursor.rest = before ++ (ts ++ n :: m :: ms)) :
    ∃ stmt' t, Rounds.statements g seen s = .done (.next (seen ++ [stmt'])) t ∧
      Erasable.Alike stmt stmt' ∧ t.cursor.rest = m :: ms ∧ t.skipped = spans ++ s.skipped := by
  obtain ⟨x, us, rfl, hstray⟩ := h.exists_head
  have hends : x.kind.endsStatement = false := by
    simp only [TokenKind.isStray, TokenKind.isClosing, Bool.or_eq_false_iff] at hstray
    simp [TokenKind.endsStatement, hstray]
  obtain ⟨c, hc, hround⟩ := Rounds.statements_eq (g := g) seen hbefore hs hends
  obtain ⟨stmt', t, hd, halike, hrest, hskipped⟩ :=
    h.statement_done hts hn hm hnext (s := { s with cursor := c }) hc
  have hend : statementEnd t = .done () { t with cursor := t.cursor.advance } := by
    have hk : t.cursor.kind.isSeparator = true := by rw [Cursor.kind_of_rest hrest, hn]; rfl
    exact (bind_of_done (rfl : Parser.kind t = .done t.cursor.kind t)).trans
      (congrFun (if_pos hk) t)
  have hattempt : attempt (statement g >>= fun stmt => statementEnd >>= fun _ => pure stmt)
      { s with cursor := c } = .done (some stmt') { t with cursor := t.cursor.advance } :=
    attempt_of_done ((bind_of_done hd).trans (bind_of_done hend))
  refine ⟨stmt', { t with cursor := t.cursor.advance }, ?_, halike,
    Cursor.rest_advance hrest (List.cons_ne_nil m ms), hskipped⟩
  rw [hround, bind_of_done hattempt]
  rfl

/-- A round over a line that begins with an annotation: the line is skipped. -/
theorem Rounds.statements_annotated {a : Token} {us : List Token} (ha : a.kind = .mark .at)
    (hus : Token.Balanced (fun k => !k.isSeparator) (a :: us)) (hn : n.kind = .newline)
    (hbefore : ∀ u ∈ before, u.kind.isSeparator = true)
    (hs : s.cursor.rest = before ++ (a :: us ++ n :: ms)) :
    ∃ t, Rounds.statements g seen s = .done (.next seen) t ∧ t.cursor.rest = n :: ms ∧
      t.skipped = a.span.join ((a :: us).getLast (List.cons_ne_nil a us)).span :: s.skipped := by
  obtain ⟨c, hc, hround⟩ := Rounds.statements_eq (g := g) seen hbefore hs (by rw [ha]; rfl)
  have hkind : c.kind = .mark .at := (Cursor.kind_of_rest hc).trans ha
  have hattempt : attempt (statement g >>= fun stmt => statementEnd >>= fun _ => pure stmt)
      { s with cursor := c } = .done none { s with cursor := c } :=
    attempt_of_failed (bind_of_failed (Refuses.statement rfl g { s with cursor := c } hkind))
  have hskip : skipStatement 0 c = c.past (a :: us) :=
    skipStatement_outside hus (by rw [hn]; rfl) hc
  obtain ⟨hstop, hspan⟩ := skipStop_of_past (List.cons_ne_nil a us) hc (List.cons_ne_nil n ms) hskip
  refine ⟨{ s with cursor := skipStop c, skipped := skipSpan c :: s.skipped }, ?_, ?_, ?_⟩
  · rw [hround, bind_of_done hattempt]
    dsimp only
    rw [unparsedVal_eq_none g (by rw [hkind]; rfl), pure_bind, bind_of_done (skipUnparsed_eq c _),
      Option.map_none, Option.toList_none, List.append_nil]
    rfl
  · show (skipStop c).rest = _
    rw [hstop]
    exact Cursor.rest_past hc (List.cons_ne_nil n ms)
  · show skipSpan c :: s.skipped = _
    rw [hspan, Cursor.last_past_cons hc (List.cons_ne_nil n ms), (List.cons.inj hc).1]

end

/-- A line that is read as a statement alone. The brackets in it are closed, and so are the type
parameters of functions. -/
structure StatementLine (g : Grammar) where
  tokens : List Token
  stmt : Stmt
  /-- What is skipped in the line, the latest first. -/
  spans : List Span
  /-- The line break. -/
  newline : Token
  alone : ReadsAlone g tokens stmt spans
  closed : Token.Closed tokens
  isNewline : newline.kind = .newline

namespace StatementLine

variable {g : Grammar}

/-- The tokens with the line break behind them. -/
def text (l : StatementLine g) : List Token := l.tokens ++ [l.newline]

/-- The line does not go on with a statement of the line before. -/
def Begins (l : StatementLine g) : Prop := ∀ t ∈ l.tokens.head?, t.kind.continues = false

theorem head?_text (l : StatementLine g) : l.text.head? = l.tokens.head? := by
  obtain ⟨x, us, hx, -⟩ := l.alone.exists_head
  rw [text, hx]
  rfl

end StatementLine

/-- The lines of a block: what is read from them, and what is skipped, the latest first. -/
inductive Lines (g : Grammar) : List Token → List Stmt → List Span → Prop
  | nil : Lines g [] [] []
  | statement (l : StatementLine g) {ts stmts spans}
    (hnext : ∀ t ∈ ts.head?, t.kind.continues = false) (h : Lines g ts stmts spans) :
    Lines g (l.text ++ ts) (l.stmt :: stmts) (spans ++ l.spans)
  | annotated {a us n ts stmts spans} (ha : a.kind = .mark .at)
    (hus : Token.Balanced (fun k => !k.isSeparator) (a :: us)) (hn : n.kind = .newline)
    (h : Lines g ts stmts spans) :
    Lines g (a :: us ++ n :: ts) stmts
      (spans ++ [a.span.join ((a :: us).getLast (List.cons_ne_nil a us)).span])

namespace Lines

variable {g : Grammar} {ts : List Token} {stmts : List Stmt} {spans : List Span}

/-- No line begins with a line break. -/
theorem head_isNewline (h : Lines g ts stmts spans) {t : Token} (ht : t ∈ ts.head?) :
    t.kind.isNewline = false := by
  cases h with
  | nil => exact nomatch ht
  | statement l =>
    obtain ⟨x, us, hx, hstray⟩ := l.alone.exists_head
    rw [StatementLine.text, hx] at ht
    obtain rfl : x = t := Option.some.inj ht
    simp only [TokenKind.isStray, TokenKind.isSeparator, Bool.or_eq_false_iff] at hstray
    exact hstray.1.2.1
  | annotated ha =>
    obtain rfl := Option.some.inj ht
    rw [ha]
    rfl

/-- The lines and the brace behind them begin with a token that goes on with no statement. -/
theorem exists_head (h : Lines g ts stmts spans)
    (hnext : ∀ t ∈ ts.head?, t.kind.continues = false) {r : Token}
    (hr : r.kind = .mark .rightBrace) (more : List Token) :
    ∃ m ms, ts ++ r :: more = m :: ms ∧ m.kind.isNewline = false ∧ m.kind.continues = false := by
  cases ts with
  | nil => exact ⟨r, more, rfl, by rw [hr]; rfl, by rw [hr]; rfl⟩
  | cons t ts => exact ⟨t, ts ++ r :: more, rfl, h.head_isNewline rfl, hnext t rfl⟩

variable [g.Forward] [g.Local]

/-- The statements of a block are those of its lines. -/
theorem loop_done (h : Lines g ts stmts spans) {r : Token} (hr : r.kind = .mark .rightBrace)
    {more : List Token} (hmore : Token.Ends more) (before : List Token)
    (hbefore : ∀ u ∈ before, u.kind.isSeparator = true) (seen : List Stmt) {s : ParseState}
    (hs : s.cursor.rest = before ++ (ts ++ r :: more)) :
    ∃ stmts' t, loop (Rounds.statements g) seen s = .done (seen ++ stmts') t ∧
      Erasable.Alike stmts stmts' ∧ t.cursor.rest = more ∧ t.cursor.last = r.span ∧
        t.skipped = spans ++ s.skipped := by
  have hends {xs ys zs : List Token} (h : zs = xs ++ (ys ++ r :: more)) : Token.Ends zs :=
    h ▸ ((hmore.append [r]).append ys).append xs
  induction h generalizing before seen s with
  | nil =>
    obtain ⟨t, hd, hrest, hlast, hskipped⟩ :=
      Rounds.statements_close (g := g) seen hr hbefore hs hmore.ne_nil
    refine ⟨[], t, ?_, rfl, hrest, hlast, hskipped⟩
    rw [List.append_nil]
    exact bind_eq_done.2 ⟨_, t, hd, rfl⟩
  | @statement l ts stmts spans hnext h ih =>
    obtain ⟨m, ms, hm, hnewline, hcontinues⟩ := h.exists_head hnext hr more
    have hline : s.cursor.rest = before ++ (l.tokens ++ l.newline :: m :: ms) := by
      rw [hs, ← hm]
      simp [StatementLine.text]
    obtain ⟨stmt', t, hd, halike, hrest, hskipped⟩ := Rounds.statements_statement seen
      l.alone l.closed l.isNewline hnewline hcontinues hbefore hline
    obtain ⟨stmts', u, hloop, halikes, hu⟩ := ih [] nofun (seen ++ [stmt'])
      (hrest.trans hm.symm)
    refine ⟨stmt' :: stmts', u, ?_, congrArg₂ List.cons halike halikes, hu.1, hu.2.1, ?_⟩
    · rw [(Progresses.statements g).loop_next inferInstance (hends hs) hd, hloop, List.append_assoc]
      rfl
    · rw [hu.2.2, hskipped, List.append_assoc]
  | @annotated a us n ts stmts spans ha hus hn h ih =>
    have hline : s.cursor.rest = before ++ (a :: us ++ n :: (ts ++ r :: more)) := by
      rw [hs]
      simp
    obtain ⟨t, hd, hrest, hskipped⟩ :=
      Rounds.statements_annotated (g := g) seen ha hus hn hbefore hline
    obtain ⟨stmts', u, hloop, halikes, hu⟩ := ih [n]
      (fun u hu => by rw [List.mem_singleton.1 hu, hn]; rfl) seen hrest
    refine ⟨stmts', u, ?_, halikes, hu.1, hu.2.1, ?_⟩
    · rw [(Progresses.statements g).loop_next inferInstance (hends hs) hd, hloop]
    · rw [hu.2.2, hskipped, List.append_assoc]
      rfl

omit [g.Forward] [g.Local] in
/-- Statements in lines of their own before other lines. -/
theorem append (h : Lines g ts stmts spans) : ∀ lines : List (StatementLine g),
    (∀ l ∈ lines.tail, l.Begins) → (∀ t ∈ ts.head?, t.kind.continues = false) →
      Lines g (lines.flatMap StatementLine.text ++ ts) (lines.map StatementLine.stmt ++ stmts)
        (spans ++ lines.reverse.flatMap StatementLine.spans)
  | [], _, _ => by simpa using h
  | l :: lines, hlines, hts => by
    have hrest := append h lines (fun l hl => hlines l (List.mem_of_mem_tail hl)) hts
    have hnext : ∀ t ∈ (lines.flatMap StatementLine.text ++ ts).head?,
        t.kind.continues = false := by
      cases lines with
      | nil => exact hts
      | cons l' lines =>
        intro t ht
        refine hlines l' List.mem_cons_self t ?_
        rwa [List.flatMap_cons, List.append_assoc, List.head?_append_of_ne_nil _ (by
          rw [StatementLine.text]; simp), l'.head?_text] at ht
    simpa [StatementLine.text] using Lines.statement l hnext hrest

end Lines

/-- The statements of a block are those of its lines, whatever stands before the block and
behind it. -/
theorem Lines.block_done {n : Nat} {ts : List Token} {stmts : List Stmt} {spans : List Span}
    (h : Lines (Grammar.ofDepth n) ts stmts spans) {l r : Token} (hl : l.kind = .mark .leftBrace)
    (hr : r.kind = .mark .rightBrace) {more : List Token} (hmore : Token.Ends more) {s : ParseState}
    (hs : s.cursor.rest = l :: (ts ++ r :: more)) :
    ∃ b t, block (Grammar.ofDepth (n + 1)) s = .done b t ∧
      b.stmts.map Stmt.unnumbered = stmts.map Stmt.unnumbered ∧ b.span = l.span.join r.span ∧
        t.cursor.rest = more ∧ t.skipped = spans ++ s.skipped := by
  have hopen : expect .leftBrace s = .done s.cursor.here { s with cursor := s.cursor.advance } :=
    if_pos (by rw [Cursor.kind_of_rest hs, hl]; rfl)
  obtain ⟨stmts', t, hd, halike, hrest, hlast, hskipped⟩ := h.loop_done hr hmore [] nofun []
    (s := { s with cursor := s.cursor.advance })
    (Cursor.rest_advance hs (List.append_ne_nil_of_right_ne_nil ts (List.cons_ne_nil r more)))
  have hstmts : (Grammar.ofDepth (n + 1)).stmts { s with cursor := s.cursor.advance }
      = .done stmts' t := hd
  refine ⟨⟨stmts', s.cursor.here.span.join t.cursor.last⟩, t, ?_, halike, ?_, hrest, hskipped⟩
  · unfold Parser.block
    rw [bind_of_done hopen, bind_of_done hstmts]
    rfl
  · rw [hlast, (List.cons.inj hs).1]

/-- Statements in a block are read independently of each other. Lines that are read as statements
alone are read as the same statements in a block, and a line that begins with an annotation may stand
between any of them: it is skipped as a whole, and the statements stay as they are. -/
theorem block_of_statementLines (n : Nat) (lines : List (StatementLine (Grammar.ofDepth n)))
    (hlines : ∀ l ∈ lines.tail, l.Begins) {l r : Token} (hl : l.kind = .mark .leftBrace)
    (hr : r.kind = .mark .rightBrace) {more : List Token} (hmore : Token.Ends more) :
    (∀ s : ParseState, s.cursor.rest = l :: (lines.flatMap StatementLine.text ++ r :: more) →
      ∃ b t, block (Grammar.ofDepth (n + 1)) s = .done b t ∧ t.cursor.rest = more ∧
        b.stmts.map Stmt.unnumbered = lines.map (fun line => line.stmt.unnumbered) ∧
        t.skipped = lines.reverse.flatMap StatementLine.spans ++ s.skipped) ∧
    ∀ (before after : List (StatementLine (Grammar.ofDepth n))) (a : Token) (us : List Token)
      (newline : Token), lines = before ++ after → a.kind = .mark .at →
      Token.Balanced (fun k => !k.isSeparator) (a :: us) → newline.kind = .newline →
      ∀ s : ParseState, s.cursor.rest = l :: (before.flatMap StatementLine.text
          ++ (a :: us ++ newline :: (after.flatMap StatementLine.text ++ r :: more))) →
        ∃ b t, block (Grammar.ofDepth (n + 1)) s = .done b t ∧ t.cursor.rest = more ∧
          b.stmts.map Stmt.unnumbered = lines.map (fun line => line.stmt.unnumbered) ∧
          t.skipped = after.reverse.flatMap StatementLine.spans
            ++ a.span.join ((a :: us).getLast (List.cons_ne_nil a us)).span
              :: (before.reverse.flatMap StatementLine.spans ++ s.skipped) := by
  refine ⟨fun s hs => ?_, fun before after a us newline hsplit ha hus hnewline s hs => ?_⟩
  · have hall := Lines.nil.append lines hlines nofun
    rw [List.append_nil, List.append_nil, List.nil_append] at hall
    obtain ⟨b, t, hd, hstmts, -, hrest, hskipped⟩ := hall.block_done hl hr hmore hs
    exact ⟨b, t, hd, hrest, by rw [hstmts, List.map_map]; rfl, hskipped⟩
  · subst hsplit
    have hbefore : ∀ l ∈ before.tail, l.Begins := fun l hl => hlines l (by
      rw [List.tail_append_of_ne_nil (List.ne_nil_of_mem (List.mem_of_mem_tail hl))]
      exact List.mem_append_left _ hl)
    have hafter : ∀ l ∈ after.tail, l.Begins := by
      intro l hl
      cases before with
      | nil => exact hlines l hl
      | cons => exact hlines l (List.mem_append_right _ (List.mem_of_mem_tail hl))
    have hbehind := Lines.annotated ha hus hnewline (Lines.nil.append after hafter nofun)
    have hall := hbehind.append before hbefore fun t ht => by
      obtain rfl := Option.some.inj ht
      rw [ha]
      rfl
    obtain ⟨b, t, hd, hstmts, -, hrest, hskipped⟩ := hall.block_done hl hr hmore (s := s) (by
      rw [hs]
      simp)
    refine ⟨b, t, hd, hrest, ?_, ?_⟩
    · rw [hstmts, List.append_nil, List.map_append, List.map_append, List.map_map, List.map_map]
      rfl
    · rw [hskipped]
      simp

/-- The lines in braces, before the end of the text. -/
def blockTokens (lines : List (List Token)) : List Token :=
  Mark.leftBrace.token :: (lines.flatMap (· ++ [TokenKind.newline.token])
    ++ [Mark.rightBrace.token, TokenKind.eof.token])

theorem exists_readsAlone (n : Nat) (ts : List Token)
    (h : let outcome :=
        statement (Grammar.ofDepth n) (SourceUnit.start (ts ++ [TokenKind.eof.token]))
      outcome.value?.isSome = true ∧ outcome.state.cursor.ahead.isEmpty = true) :
    ∃ stmt spans, ReadsAlone (Grammar.ofDepth n) ts stmt spans := by
  cases hd : statement (Grammar.ofDepth n) (SourceUnit.start (ts ++ [TokenKind.eof.token])) with
  | failed t =>
    rw [hd] at h
    exact nomatch h.1
  | done stmt t =>
    rw [hd] at h
    exact ⟨stmt, t.skipped, .of_done rfl hd (List.isEmpty_iff.1 h.2)⟩

/-- `val x = 1` -/
def declarationTokens : List Token :=
  [(TokenKind.keyword .valKw).token, .named "x", Mark.equal.token, (TokenKind.integer 1).token]

/-- `f { x }` -/
def callTokens : List Token :=
  [.named "f", Mark.leftBrace.token, .named "x", Mark.rightBrace.token]

/-- `@A(;)` -/
def annotationTokens : List Token :=
  [Mark.at.token, .named "A", Mark.leftParen.token, Mark.semicolon.token, Mark.rightParen.token]

theorem block_of_statementLines_annotated :
    ∃ lines : List (StatementLine (Grammar.ofDepth 12)),
      lines.map StatementLine.tokens = [declarationTokens, callTokens] ∧
      (∃ b t, block (Grammar.ofDepth 13)
          (SourceUnit.start (blockTokens [declarationTokens, callTokens])) = .done b t ∧
        b.stmts.map Stmt.unnumbered = lines.map fun line => line.stmt.unnumbered) ∧
      ∃ b t, block (Grammar.ofDepth 13)
          (SourceUnit.start (blockTokens [declarationTokens, annotationTokens, callTokens]))
            = .done b t ∧
        b.stmts.map Stmt.unnumbered = lines.map fun line => line.stmt.unnumbered := by
  obtain ⟨declaration, skipped, hdeclaration⟩ :=
    exists_readsAlone 12 declarationTokens (by decide +kernel)
  obtain ⟨call, skipped', hcall⟩ :=
    exists_readsAlone 12 callTokens (by decide +kernel)
  let first : StatementLine (Grammar.ofDepth 12) :=
    ⟨_, declaration, skipped, TokenKind.newline.token, hdeclaration,
      .plain rfl nofun (.plain rfl nofun (.plain rfl nofun (.plain rfl nofun .nil))), rfl⟩
  have hinner : Token.Closed [.named "x"] := .plain rfl nofun .nil
  let second : StatementLine (Grammar.ofDepth 12) :=
    ⟨_, call, skipped', TokenKind.newline.token, hcall,
      .plain rfl nofun (.group rfl rfl rfl hinner .nil), rfl⟩
  have hsemicolon : Token.Balanced (fun _ => true) [Mark.semicolon.token] := .plain rfl rfl .nil
  have hbalanced : Token.Balanced (fun k => !k.isSeparator) annotationTokens :=
    .plain rfl rfl (.plain rfl rfl (.group rfl rfl rfl hsemicolon .nil))
  have hends : Token.Ends [TokenKind.eof.token] := ⟨_, rfl, rfl⟩
  obtain ⟨hplain, hannotated⟩ := block_of_statementLines 12 [first, second]
    (fun l hl => by rw [List.mem_singleton.1 hl]; exact fun t ht => by cases ht; rfl)
    (l := Mark.leftBrace.token) (r := Mark.rightBrace.token) rfl rfl hends
  obtain ⟨b, t, hd, -, hstmts, -⟩ := hplain
    (SourceUnit.start (blockTokens [declarationTokens, callTokens])) rfl
  obtain ⟨b', t', hd', -, hstmts', -⟩ := hannotated [first] [second] _ _ TokenKind.newline.token rfl
    rfl hbalanced rfl
    (SourceUnit.start (blockTokens [declarationTokens, annotationTokens, callTokens])) rfl
  exact ⟨[first, second], rfl, ⟨b, t, hd, hstmts⟩, b', t', hd', hstmts'⟩

/-- `f { fun < }` -/
def runawayTokens : List Token :=
  [.named "f", Mark.leftBrace.token, (TokenKind.keyword .funKw).token, Mark.less.token,
    Mark.rightBrace.token]

/-- `a > g() { }` -/
def comparisonTokens : List Token :=
  [.named "a", Mark.greater.token, .named "g", Mark.leftParen.token, Mark.rightParen.token,
    Mark.leftBrace.token, Mark.rightBrace.token]

/-- `f { b { c { ] ] }` -/
def unclosedTokens : List Token :=
  [.named "f", Mark.leftBrace.token, .named "b", Mark.leftBrace.token, .named "c",
    Mark.leftBrace.token, Mark.rightBracket.token, Mark.rightBracket.token, Mark.rightBrace.token]

/-- A depth at which the lines in braces can be read. -/
def blockDepth (lines : List (List Token)) : Nat := Token.listWeight (blockTokens lines)

/-- Lines that are read as statements alone are read as these statements in a block. -/
def ReadsLines (lines : List (List Token)) : Prop :=
  let g := Grammar.ofDepth (blockDepth lines)
  ∀ stmts : List Stmt,
    List.Forall₂ (fun ts stmt => ∃ spans, ReadsAlone g ts stmt spans) lines stmts →
    (∀ ts ∈ lines.tail, ∀ t ∈ ts.head?, t.kind.continues = false) →
    ∃ b t, block g (SourceUnit.start (blockTokens lines)) = .done b t ∧
      b.stmts.map Stmt.unnumbered = stmts.map Stmt.unnumbered

theorem ReadsLines.length_eq {lines : List (List Token)} (h : ReadsLines lines) {stmts : List Stmt}
    (hstmts : List.Forall₂ (fun ts stmt => ∃ spans,
      ReadsAlone (Grammar.ofDepth (blockDepth lines)) ts stmt spans) lines stmts)
    (hnext : ∀ ts ∈ lines.tail, ∀ t ∈ ts.head?, t.kind.continues = false) :
    (block (Grammar.ofDepth (blockDepth lines)) (SourceUnit.start (blockTokens lines))).value?.map
      (fun b => b.stmts.length) = some lines.length := by
  obtain ⟨b, t, hd, halike⟩ := h stmts hstmts hnext
  have hlength : b.stmts.length = stmts.length := by simpa using congrArg List.length halike
  rw [hd, hstmts.length_eq, ← hlength]
  rfl

/-- Statements that are read alone are not always read in a block. Type parameters that no angle
bracket closes run over the brace of their own block and over the lines behind it, up to the
comparison there; and where brackets are closed by others, a block inside of a statement takes the
brace that closes the block around it. -/
theorem not_block_of_readsAlone :
    ¬ReadsLines [runawayTokens, comparisonTokens] ∧ ¬ReadsLines [unclosedTokens] := by
  constructor
  · intro h
    let depth := blockDepth [runawayTokens, comparisonTokens]
    obtain ⟨runaway, hrunaway⟩ := exists_readsAlone depth runawayTokens (by decide +kernel)
    obtain ⟨comparison, hcomparison⟩ :=
      exists_readsAlone depth comparisonTokens (by decide +kernel)
    have hlength := h.length_eq (.cons hrunaway (.cons hcomparison .nil)) (by decide +kernel)
    revert hlength
    decide +kernel
  · intro h
    obtain ⟨unclosed, hunclosed⟩ :=
      exists_readsAlone (blockDepth [unclosedTokens]) unclosedTokens (by decide +kernel)
    have hlength := h.length_eq (.cons hunclosed .nil) (by decide +kernel)
    revert hlength
    decide +kernel

end Parser

end FrameCheck
