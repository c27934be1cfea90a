import FrameCheck.Proofs.Parse.Totality
import FrameCheck.Proofs.Tree.Nodes

/-!
# The spans of expressions

What a parser reads from a list of tokens are pieces, tokens and expressions, and each takes the
tokens from one index to another, one piece behind the other (`Laid`). An expression that is made of
pieces goes from the first of them to the last token that was read, or to the last of them, so it
takes the tokens of all its pieces (`Laid.node`). Parentheses and line breaks take tokens without
being pieces. The expressions in a template are read from the tokens of the template, which lie
inside of that of the string.

* `Expr.Spanned` : what holds of the span of an expression, `Expr.Nests` : of a tree.
* `Laid.append`, `Laid.node` : how pieces are put together.
* `Cursor.Follows` : a cursor behind pieces.
-/

namespace FrameCheck

/-! ## Lists of tokens -/

namespace Token

/-- The tokens lie apart in a text, and so do those of the templates in them, at any depth. -/
def Orderly (ts : List Token) : Prop := ∀ us, Within ts us → ∃ text stop, Apart text stop us

theorem orderly_of_scan {text : String} {ts : List Token} (h : scan text = .ok ts) : Orderly ts :=
  fun _ hus => ⟨_, apart_of_scan h hus⟩

namespace Orderly

variable {ts us : List Token} {t u : Token} {i j : Nat}

theorem within (h : Orderly ts) (hus : Within ts us) : Orderly us :=
  fun vs hvs => h vs (hus.trans hvs)

theorem lt_of_not_eof (h : Orderly ts) (ht : t ∈ ts) (hk : t.kind.isEof = false) :
    t.span.start < t.span.stop := by
  obtain ⟨text, stop, hapart⟩ := h ts .self
  obtain ⟨init, rfl, hinit⟩ := hapart.ends
  rcases List.mem_append.1 ht with ht | ht
  · exact (hinit t ht).2
  · obtain rfl := List.mem_singleton.1 ht
    exact absurd hk (by simp [TokenKind.isEof])

theorem start_le_stop (h : Orderly ts) (ht : t ∈ ts) : t.span.start ≤ t.span.stop := by
  obtain ⟨text, stop, hapart⟩ := h ts .self
  obtain ⟨init, rfl, hinit⟩ := hapart.ends
  rcases List.mem_append.1 ht with ht | ht
  · exact Nat.le_of_lt (hinit t ht).2
  · obtain rfl := List.mem_singleton.1 ht
    exact Nat.le_refl _

theorem stop_le_start (h : Orderly ts) (hi : ts[i]? = some t) (hj : ts[j]? = some u)
    (hij : i < j) : t.span.stop ≤ u.span.start := by
  obtain ⟨text, stop, hapart⟩ := h ts .self
  obtain ⟨hilt, rfl⟩ := List.getElem?_eq_some_iff.1 hi
  obtain ⟨hjlt, rfl⟩ := List.getElem?_eq_some_iff.1 hj
  exact List.pairwise_iff_getElem.1 hapart.ordered i j hilt hjlt hij

theorem start_le (h : Orderly ts) (hi : ts[i]? = some t) (hj : ts[j]? = some u)
    (hij : i ≤ j) : t.span.start ≤ u.span.start := by
  rcases Nat.eq_or_lt_of_le hij with rfl | hij
  · rw [Option.some.inj (hi.symm.trans hj)]
  · exact (h.start_le_stop (List.mem_of_getElem? hi)).trans (h.stop_le_start hi hj hij)

theorem stop_le (h : Orderly ts) (hi : ts[i]? = some t) (hj : ts[j]? = some u)
    (hij : i ≤ j) : t.span.stop ≤ u.span.stop := by
  rcases Nat.eq_or_lt_of_le hij with rfl | hij
  · rw [Option.some.inj (hi.symm.trans hj)]
  · exact (h.stop_le_start hi hj hij).trans (h.start_le_stop (List.mem_of_getElem? hj))

end Orderly

end Token

namespace Span

/-- The span is not empty, starts where a token of the list does and stops where one does. -/
structure Aligned (a : Span) (ts : List Token) : Prop where
  lt : a.start < a.stop
  start : ∃ t ∈ ts, t.span.start = a.start
  stop : ∃ t ∈ ts, t.span.stop = a.stop

/-- The span takes the tokens from one index to another. -/
structure Takes (a : Span) (ts : List Token) (i j : Nat) : Prop where
  le : i ≤ j
  lt : a.start < a.stop
  start : ∃ t, ts[i]? = some t ∧ t.span.start = a.start
  stop : ∃ t, ts[j]? = some t ∧ t.span.stop = a.stop

variable {a b : Span} {ts : List Token} {i j k l : Nat}

theorem Takes.aligned (h : a.Takes ts i j) : a.Aligned ts := by
  obtain ⟨t, ht, hstart⟩ := h.start
  obtain ⟨u, hu, hstop⟩ := h.stop
  exact ⟨h.lt, ⟨t, List.mem_of_getElem? ht, hstart⟩, u, List.mem_of_getElem? hu, hstop⟩

theorem Takes.start_le (h : a.Takes ts i j) (h' : b.Takes ts k l) (hts : Token.Orderly ts)
    (hik : i ≤ k) : a.start ≤ b.start := by
  obtain ⟨t, ht, hstart⟩ := h.start
  obtain ⟨u, hu, hstart'⟩ := h'.start
  rw [← hstart, ← hstart']
  exact hts.start_le ht hu hik

theorem Takes.stop_le (h : a.Takes ts i j) (h' : b.Takes ts k l) (hts : Token.Orderly ts)
    (hjl : j ≤ l) : a.stop ≤ b.stop := by
  obtain ⟨t, ht, hstop⟩ := h.stop
  obtain ⟨u, hu, hstop'⟩ := h'.stop
  rw [← hstop, ← hstop']
  exact hts.stop_le ht hu hjl

theorem Takes.stop_le_start (h : a.Takes ts i j) (h' : b.Takes ts k l) (hts : Token.Orderly ts)
    (hjk : j < k) : a.stop ≤ b.start := by
  obtain ⟨t, ht, hstop⟩ := h.stop
  obtain ⟨u, hu, hstart⟩ := h'.start
  rw [← hstop, ← hstart]
  exact hts.stop_le_start ht hu hjk

/-- What covers two spans takes the tokens from the first to the last. -/
theorem Takes.join (h : a.Takes ts i j) (h' : b.Takes ts k l) (hts : Token.Orderly ts)
    (hik : i ≤ k) (hjl : j ≤ l) : (a.join b).Takes ts i l := by
  have hstop := h.stop_le h' hts hjl
  rw [Span.join, Nat.min_eq_left (h.start_le h' hts hik), Nat.max_eq_right hstop]
  exact ⟨h.le.trans hjl, Nat.lt_of_lt_of_le h.lt hstop, h.start, h'.stop⟩

theorem Takes.join_token (h : a.Takes ts i j) {t : Token} (ht : ts[l]? = some t)
    (hts : Token.Orderly ts) (hjl : j ≤ l) : (a.join t.span).Takes ts i l := by
  obtain ⟨u, hu, hstart⟩ := h.start
  obtain ⟨v, hv, hstop⟩ := h.stop
  have hle : a.stop ≤ t.span.stop := hstop ▸ hts.stop_le hv ht hjl
  rw [Span.join, Nat.min_eq_left (hstart ▸ hts.start_le hu ht (h.le.trans hjl)),
    Nat.max_eq_right hle]
  exact ⟨h.le.trans hjl, Nat.lt_of_lt_of_le h.lt hle, h.start, t, ht, rfl⟩

end Span

/-! ## Trees -/

namespace Expr

/-- The span takes tokens of the list, or of one template in it. The spans of the children lie in
it, one behind the other. -/
structure Spanned (ts : List Token) (e : Expr) : Prop where
  aligned : ∃ us, Token.Within ts us ∧ e.span.Aligned us
  inside : ∀ c ∈ e.children, e.span.start ≤ c.span.start ∧ c.span.stop ≤ e.span.stop
  ordered : e.children.Pairwise fun a b => a.span.stop ≤ b.span.start

/-- All spans of a tree nest. -/
def Nests (ts : List Token) (e : Expr) : Prop := ∀ x ∈ e.nodes, x.Spanned ts

variable {ts us : List Token} {e : Expr}

theorem Nests.of_children (h : e.Spanned ts) (hc : ∀ c ∈ e.children, c.Nests ts) : e.Nests ts := by
  intro x hx
  rcases mem_nodes.1 hx with hx | rfl
  · obtain ⟨c, hmem, hx⟩ := mem_parts.1 hx
    exact hc c hmem x hx
  · exact h

theorem Nests.of_within (h : e.Nests us) (hus : Token.Within ts us) : e.Nests ts := by
  intro x hx
  obtain ⟨⟨vs, hvs, haligned⟩, hinside, hordered⟩ := h x hx
  exact ⟨⟨vs, hus.trans hvs, haligned⟩, hinside, hordered⟩

end Expr

/-- Expressions that lie in the templates of a token lie in the token, in their order. -/
theorem Token.Orderly.embedded {ts : List Token} {t : Token} {es : List Expr} (hts : Orderly ts)
    (ht : t ∈ ts)
    (h : List.Forall₂ (fun part e => e.Nests part ∧ e.span.Aligned part) t.kind.parts es) :
    (∀ e ∈ es, e.Nests ts ∧ t.span.start ≤ e.span.start ∧ e.span.stop ≤ t.span.stop) ∧
      es.Pairwise fun a b => a.span.stop ≤ b.span.start := by
  obtain ⟨text, stop, hapart⟩ := hts ts .self
  have hparts : (∀ e ∈ es, ∃ part ∈ t.kind.parts, e.Nests part ∧ e.span.Aligned part) ∧
      es.Pairwise fun a b => a.span.stop ≤ b.span.start := by
    have hordered := hapart.parts t ht
    generalize t.kind.parts = parts at h hordered
    induction h with
    | nil => exact ⟨fun e he => absurd he List.not_mem_nil, .nil⟩
    | @cons part e parts es hpart hmore ih =>
      obtain ⟨hlater, hordered⟩ := List.pairwise_cons.1 hordered
      obtain ⟨hes, hpairwise⟩ := ih hordered
      refine ⟨List.forall_mem_cons.2 ⟨⟨part, List.mem_cons_self, hpart⟩, fun c hc => ?_⟩,
        .cons (fun c hc => ?_) hpairwise⟩
      · obtain ⟨later, hmem, hc⟩ := hes c hc
        exact ⟨later, List.mem_cons_of_mem _ hmem, hc⟩
      · obtain ⟨later, hmem, -, hc⟩ := hes c hc
        obtain ⟨u, hu, hstop⟩ := hpart.2.stop
        obtain ⟨v, hv, hstart⟩ := hc.start
        rw [← hstop, ← hstart]
        exact hlater later hmem u hu v hv
  refine ⟨fun e he => ?_, hparts.2⟩
  obtain ⟨part, hpart, hnests, -, ⟨u, hu, hstart⟩, v, hv, hstop⟩ := hparts.1 e he
  refine ⟨hnests.of_within (.part .self ht hpart), ?_, ?_⟩
  · rw [← hstart]
    exact Nat.le_of_lt (hapart.inside t ht part hpart u hu).1
  · rw [← hstop]
    exact Nat.le_of_lt (hapart.inside t ht part hpart v hv).2

/-! ## Pieces -/

/-- What is read: a token that an expression may start or stop with, or an expression. -/
inductive Piece where
  | token (span : Span)
  | expr (e : Expr)

namespace Piece

def span : Piece → Span
  | token a => a
  | expr e => e.span

def expr? : Piece → Option Expr
  | token _ => none
  | expr e => some e

/-- The expressions among pieces. -/
def exprs (ps : List Piece) : List Expr := ps.filterMap expr?

@[simp] theorem exprs_map_expr (es : List Expr) : exprs (es.map expr) = es := by
  rw [exprs, List.filterMap_map]
  exact List.filterMap_some

theorem mem_exprs {ps : List Piece} {e : Expr} : e ∈ exprs ps ↔ expr e ∈ ps := by
  rw [exprs, List.mem_filterMap]
  constructor
  · rintro ⟨p, hp, he⟩
    cases p with
    | token => cases he
    | expr e' =>
      cases he
      exact hp
  · exact fun h => ⟨expr e, h, rfl⟩

end Piece

/-- The pieces take tokens of the list from index `lo` on and before index `hi`, each those behind
the last one's. -/
inductive Laid (ts : List Token) : Nat → List Piece → Nat → Prop
  | nil {lo hi : Nat} (h : lo ≤ hi) : Laid ts lo [] hi
  | cons {lo i j hi : Nat} {p : Piece} {ps : List Piece} (hlo : lo ≤ i)
    (htakes : p.span.Takes ts i j) (hnests : ∀ e, p = .expr e → e.Nests ts)
    (hmore : Laid ts (j + 1) ps hi) : Laid ts lo (p :: ps) hi

namespace Laid

variable {ts : List Token} {lo mid hi : Nat} {p q : Piece} {ps qs : List Piece} {e : Expr}

theorem le (h : Laid ts lo ps hi) : lo ≤ hi := by
  induction h with
  | nil h => exact h
  | cons hlo htakes _ _ ih =>
    have := htakes.le
    omega

theorem mono (h : Laid ts lo ps mid) (hmid : mid ≤ hi) : Laid ts lo ps hi := by
  induction h with
  | nil h => exact .nil (h.trans hmid)
  | cons hlo htakes hnests _ ih => exact .cons hlo htakes hnests (ih hmid)

theorem after (h : Laid ts mid ps hi) (hlo : lo ≤ mid) : Laid ts lo ps hi := by
  cases h with
  | nil h => exact .nil (hlo.trans h)
  | cons hmid htakes hnests hmore => exact .cons (hlo.trans hmid) htakes hnests hmore

theorem append (h : Laid ts lo ps mid) (h' : Laid ts mid qs hi) : Laid ts lo (ps ++ qs) hi := by
  induction h with
  | nil h => exact h'.after h
  | cons hlo htakes hnests _ ih => exact .cons hlo htakes hnests (ih h')

theorem split : ∀ {ps : List Piece} {lo : Nat}, Laid ts lo (ps ++ qs) hi →
    ∃ mid, Laid ts lo ps mid ∧ Laid ts mid qs hi
  | [], lo, h => ⟨lo, .nil (Nat.le_refl _), h⟩
  | p :: ps, lo, .cons hlo htakes hnests hmore => by
    obtain ⟨mid, hps, hqs⟩ := split hmore
    exact ⟨mid, .cons hlo htakes hnests hps, hqs⟩

/-- Some of the pieces may be left out. -/
theorem sublist (hs : qs.Sublist ps) (h : Laid ts lo ps hi) : Laid ts lo qs hi := by
  induction hs generalizing lo with
  | slnil => exact h
  | cons p _ ih =>
    cases h with
    | cons hlo htakes _ hmore => exact (ih hmore).after (hlo.trans (Nat.le_succ_of_le htakes.le))
  | cons_cons p _ ih =>
    cases h with
    | cons hlo htakes hnests hmore => exact .cons hlo htakes hnests (ih hmore)

theorem takes_of_mem (h : Laid ts lo ps hi) (hp : p ∈ ps) :
    ∃ i j, lo ≤ i ∧ j < hi ∧ p.span.Takes ts i j := by
  induction h with
  | nil => exact absurd hp List.not_mem_nil
  | @cons lo i j hi q ps hlo htakes _ hmore ih =>
    rcases List.mem_cons.1 hp with rfl | hp
    · exact ⟨i, j, hlo, hmore.le, htakes⟩
    · obtain ⟨k, l, hk, hl, hp⟩ := ih hp
      exact ⟨k, l, by have := htakes.le; omega, hl, hp⟩

theorem nests_of_mem (h : Laid ts lo ps hi) (he : .expr e ∈ ps) : e.Nests ts := by
  induction h with
  | nil => exact absurd he List.not_mem_nil
  | cons _ _ hnests _ ih =>
    rcases List.mem_cons.1 he with heq | he
    · exact hnests e heq.symm
    · exact ih he

theorem ordered (h : Laid ts lo ps hi) (hts : Token.Orderly ts) :
    ps.Pairwise fun p q => p.span.stop ≤ q.span.start := by
  induction h with
  | nil => exact .nil
  | cons _ htakes _ hmore ih =>
    refine .cons (fun q hq => ?_) ih
    obtain ⟨k, l, hk, -, hq⟩ := hmore.takes_of_mem hq
    exact htakes.stop_le_start hq hts hk

theorem single {i j : Nat} (hlo : lo ≤ i) (htakes : e.span.Takes ts i j) (hhi : j < hi)
    (hnests : e.Nests ts) : Laid ts lo [.expr e] hi := by
  refine .cons hlo htakes (fun e' he' => ?_) (.nil hhi)
  cases he'
  exact hnests

/-- An expression takes all the tokens of the pieces that it is made of, if it starts with the first
and does not stop before the last. -/
theorem node (hts : Token.Orderly ts) {i j : Nat} (h : Laid ts i ps (j + 1)) (hlo : lo ≤ i)
    (hhi : j < hi) (htakes : e.span.Takes ts i j) (hc : e.children = Piece.exprs ps) :
    Laid ts lo [.expr e] hi := by
  refine single hlo htakes hhi (.of_children ⟨⟨ts, .self, htakes.aligned⟩, fun c hmem => ?_, ?_⟩
    fun c hmem => ?_)
  · rw [hc, Piece.mem_exprs] at hmem
    obtain ⟨k, l, hk, hl, hc⟩ := h.takes_of_mem hmem
    exact ⟨htakes.start_le hc hts hk, hc.stop_le htakes hts (Nat.le_of_lt_succ hl)⟩
  · rw [hc]
    refine List.pairwise_filterMap.2 ((h.ordered hts).imp fun {p q} hpq a ha b hb => ?_)
    cases p <;> cases ha
    cases q <;> cases hb
    exact hpq
  · rw [hc, Piece.mem_exprs] at hmem
    exact h.nests_of_mem hmem

/-- An expression from its first piece to the token before the place `hi`. -/
theorem close (hts : Token.Orderly ts) (h : Laid ts lo (p :: ps) hi) {last : Token}
    (hlast : ts[hi - 1]? = some last) (hspan : e.span = p.span.join last.span)
    (hc : e.children = Piece.exprs (p :: ps)) : Laid ts lo [.expr e] hi := by
  cases h with
  | @cons _ i j _ _ _ hlo htakes hnests hmore =>
    obtain ⟨k, rfl⟩ : ∃ k, hi = k + 1 := ⟨hi - 1, by have := hmore.le; omega⟩
    refine node hts (.cons (Nat.le_refl i) htakes hnests hmore) hlo (Nat.lt_succ_self k) ?_ hc
    rw [hspan]
    exact htakes.join_token hlast hts (Nat.le_of_succ_le_succ hmore.le)

/-- An expression from one piece to another. -/
theorem pair (hts : Token.Orderly ts) (h : Laid ts lo [p, q] hi)
    (hspan : e.span = p.span.join q.span) (hc : e.children = Piece.exprs [p, q]) :
    Laid ts lo [.expr e] hi := by
  cases h with
  | @cons _ i j _ _ _ hlo hp hnests hmore =>
    cases hmore with
    | @cons _ k l _ _ _ hjk hq hnests' hend =>
      have hend' : Laid ts (l + 1) [] (l + 1) := .nil (Nat.le_refl _)
      refine node hts (.cons (Nat.le_refl i) hp hnests (.cons hjk hq hnests' hend')) hlo hend.le ?_ hc
      rw [hspan]
      have hile := hp.le
      have hkle := hq.le
      exact hp.join hq hts (by omega) (by omega)

/-- An expression of one token. What is inside of it comes from the templates in the token. -/
theorem leaf {a : Span} (h : Laid ts lo [.token a] hi) (hspan : e.span = a)
    (hinside : ∀ c ∈ e.children, c.Nests ts ∧ a.start ≤ c.span.start ∧ c.span.stop ≤ a.stop)
    (hordered : e.children.Pairwise fun b c => b.span.stop ≤ c.span.start) :
    Laid ts lo [.expr e] hi := by
  subst hspan
  cases h with
  | cons hlo htakes _ hmore =>
    have htakes : e.span.Takes ts _ _ := htakes
    refine single hlo htakes hmore.le (.of_children ?_ fun c hc => (hinside c hc).1)
    exact ⟨⟨ts, .self, htakes.aligned⟩, fun c hc => (hinside c hc).2, hordered⟩

end Laid

/-- The cursor stands in the list, behind pieces that start from the index `lo` on. -/
def Cursor.Follows (ts : List Token) (lo : Nat) (ps : List Piece) (c : Cursor) : Prop :=
  ∃ i, c.Stands ts i ∧ Laid ts lo ps i

namespace Cursor

variable {ts : List Token} {lo : Nat} {ps qs : List Piece} {c d : Cursor}

theorem Follows.reaches (h : c.Follows ts lo ps) (hd : c.Reaches d) : d.Follows ts lo ps := by
  obtain ⟨i, hc, hps⟩ := h
  obtain ⟨j, hij, hd⟩ := hc.reaches hd
  exact ⟨j, hd, hps.mono hij⟩

theorem Follows.sublist (h : c.Follows ts lo ps) (hs : qs.Sublist ps) : c.Follows ts lo qs := by
  obtain ⟨i, hc, hps⟩ := h
  exact ⟨i, hc, hps.sublist hs⟩

/-- A token that does not end the text is a piece. -/
theorem Follows.advance (h : c.Follows ts lo ps) (hts : Token.Orderly ts)
    (hk : c.kind.isEof = false) : c.advance.Follows ts lo (ps ++ [.token c.here.span]) := by
  obtain ⟨i, hc, hps⟩ := h
  rcases hc.advance with hnext | ⟨hahead, -⟩
  · have hlt := hts.lt_of_not_eof (List.mem_of_getElem? hc.here) hk
    have htakes : c.here.span.Takes ts i i :=
      ⟨Nat.le_refl i, hlt, ⟨_, hc.here, rfl⟩, _, hc.here, rfl⟩
    refine ⟨i + 1, hnext, hps.append (.cons (Nat.le_refl i) htakes nofun (.nil (Nat.le_refl _)))⟩
  · obtain ⟨text, stop, hapart⟩ := hts ts .self
    have hends : Token.Ends c.rest := hapart.ends_list.of_suffix
      (hc.rest_eq ▸ List.drop_suffix i ts) c.rest_ne_nil
    have hlt := Cursor.length_advance hends hk
    rw [Cursor.advance, hahead] at hlt
    exact absurd hlt (Nat.lt_irrefl _)

end Cursor

end FrameCheck
