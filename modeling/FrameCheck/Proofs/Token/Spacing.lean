import FrameCheck.Proofs.Token.Commented

/-!
# Spacing at the bounds of tokens

Blanks and block comments that are put where a token of the text starts or stops change no token:
those that stop at the place or before it stay where they are, and those that start there or
behind it move on by the length of what is put there, with the tokens of their templates.

At a bound of a token the text stands in no string and in no block comment. It may stand at the
end of a line comment, which then goes on over all that is put there; so there is no line break in
it. Behind a token a lexeme could go on, so a blank comes first.

* `IsSpacing` : what is put there.
* `Token.SplitsAt` : the tokens before a place and those behind it.
* `Token.scan_insertSpacing` : the tokens of a text with spacing at a bound of one of them.
-/

namespace FrameCheck

/-! ## Spacing -/

/-- Blanks and block comments. What opens in a comment closes in it. -/
inductive IsTrivia : List Char → Prop
  | nil : IsTrivia []
  | blank {c : Char} {more : List Char} (hc : c = ' ' ∨ c = '\t' ∨ c = '\r')
    (hmore : IsTrivia more) : IsTrivia (c :: more)
  | block {comment more : List Char} (hcomment : IsComment comment) (hmore : IsTrivia more) :
    IsTrivia ('/' :: '*' :: (comment ++ more))

/-- Blanks and block comments in one line, with a blank first. -/
structure IsSpacing (w : List Char) : Prop where
  blank : ∃ c more, w = c :: more ∧ (c = ' ' ∨ c = '\t' ∨ c = '\r')
  trivia : IsTrivia w
  line : '\n' ∉ w

/-- Blanks and comments are gaps before the code behind them. -/
theorem ReadsCode.behind_trivia {w : List Char} (h : IsTrivia w) {nested : Bool}
    {depth pos p : Nat} {cs rest : List Char} {ts : List Token}
    (hcode : ReadsCode nested depth (pos + byteLength w) cs ts p rest) :
    ReadsCode nested depth pos (w ++ cs) ts p rest := by
  induction h generalizing pos with
  | nil => exact hcode
  | @blank c more hc _ ih =>
    rw [byteLength_cons, ← Nat.add_assoc] at hcode
    have hone : pos + c.utf8Size = pos + 1 := by rcases hc with rfl | rfl | rfl <;> rfl
    rw [hone] at hcode
    have hquote : c ≠ '"' := by rcases hc with rfl | rfl | rfl <;> decide
    have hbrace : c ≠ '\x7d' := by rcases hc with rfl | rfl | rfl <;> decide
    exact .gap (fun h => hbrace h.1) hquote (if_pos hc) ⟨_, rfl, rfl, rfl, rfl⟩ (ih hcode)
  | @block comment more hcomment _ ih =>
    rw [← List.cons_append, ← List.cons_append, byteLength_append, ← Nat.add_assoc] at hcode
    rw [List.cons_append, List.cons_append, List.append_assoc]
    exact .behind_comment hcomment (ih hcode)

/-- A line comment is a gap before the code behind it, which starts with a line break. -/
theorem ReadsCode.behind_line {run cs : List Char} (hrun : '\n' ∉ run)
    (hend : cs.head?.any (· != '\n') = false) {nested : Bool} {depth pos p : Nat}
    {rest : List Char} {ts : List Token}
    (hcode : ReadsCode nested depth (pos + byteLength ('/' :: '/' :: run)) cs ts p rest) :
    ReadsCode nested depth pos ('/' :: '/' :: run ++ cs) ts p rest := by
  obtain ⟨r, hgap, hread⟩ := scanTrivia_lineComment rfl hrun hend pos
  exact .gap (by simp) (by decide) hgap hread hcode

namespace IsSpacing

variable {w : List Char} (h : IsSpacing w)

include h

/-- No lexeme goes on with spacing. -/
theorem upTo (a behind : List Char) : UpTo a (w ++ behind) := by
  obtain ⟨c, more, rfl, hc⟩ := h.blank
  refine .halted fun d hd => ?_
  obtain rfl : c = d := Option.some.inj hd
  rcases hc with rfl | rfl | rfl <;> decide

/-- Where no gap started before, none starts with spacing in the second place. -/
theorem scanTrivia_eq_none {c : Char} {pos : Nat} {used y behind : List Char}
    (hgap : scanTrivia c pos (used ++ (y ++ behind)) = none) :
    scanTrivia c pos (used ++ (y ++ (w ++ behind))) = none := by
  by_cases hnil : used ++ y = []
  · obtain ⟨rfl, rfl⟩ := List.append_eq_nil_iff.1 hnil
    obtain ⟨d, more, rfl, hd⟩ := h.blank
    refine scanTrivia_eq_none_of_head_ne hgap ?_ ?_ pos <;>
    · intro heq
      obtain rfl := Option.some.inj heq
      exact absurd hd (by decide)
  · refine scanTrivia_eq_none_of_head hgap ?_ pos
    rw [← List.append_assoc, ← List.append_assoc used y behind]
    exact head?_append_of_ne_nil [] hnil _ _

end IsSpacing

/-! ## Bounds of tokens -/

namespace Token

/-- One of the tokens, and not the end, starts or stops at the offset. -/
def Edge (edge : Nat) (ts : List Token) : Prop :=
  ∃ t ∈ ts, t.kind.isEof = false ∧ (t.span.start = edge ∨ t.span.stop = edge)

/-- The tokens are those before the offset and those behind it, with the end. -/
structure SplitsAt (edge : Nat) (ts before after : List Token) : Prop where
  tokens : ts = before ++ after
  before_le : ∀ t ∈ before, t.kind.isEof = false ∧ t.span.stop ≤ edge
  le_after : ∀ t ∈ after, edge ≤ t.span.start

theorem SplitsAt.cons {edge : Nat} {ts before after : List Token}
    (h : SplitsAt edge ts before after) {t : Token} (hkind : t.kind.isEof = false)
    (hstop : t.span.stop ≤ edge) : SplitsAt edge (t :: ts) (t :: before) after where
  tokens := congrArg (t :: ·) h.tokens
  before_le := List.forall_mem_cons.2 ⟨⟨hkind, hstop⟩, h.before_le⟩
  le_after := h.le_after

end Token

section

variable {nested : Bool} {depth pos q p edge : Nat} {cs rest : List Char} {ts : List Token}

/-- The tokens that are read lie behind the place from which on they are read. -/
theorem ReadsCode.le_start (h : ReadsCode nested depth pos cs ts p rest) :
    ∀ t ∈ ts, pos ≤ t.span.start ∧ t.span.start ≤ t.span.stop := fun t ht =>
  ⟨(h.tiles.between t ht).1, (h.tiles.between t ht).2.1⟩

theorem ReadsCode.le_edge (h : ReadsCode nested depth pos cs ts p rest)
    (hedge : Token.Edge edge ts) : pos ≤ edge := by
  obtain ⟨t, ht, -, hedge⟩ := hedge
  obtain ⟨hstart, hstop⟩ := h.le_start t ht
  omega

/-- An offset behind the start of the first token is where that stops, or it is a bound of a later
one. -/
theorem ReadsCode.edge_of_cons (h : ReadsCode nested depth q cs ts p rest) {kind : TokenKind}
    (hlt : pos < edge) (hedge : Token.Edge edge (⟨kind, ⟨pos, q⟩⟩ :: ts)) :
    q ≤ edge ∧ (edge = q ∨ Token.Edge edge ts) := by
  obtain ⟨t, ht, hkind, hbound⟩ := hedge
  rcases List.mem_cons.1 ht with rfl | ht
  · obtain rfl : q = edge := hbound.resolve_left fun heq => absurd heq (Nat.ne_of_lt hlt)
    exact ⟨Nat.le_refl _, Or.inl rfl⟩
  · exact ⟨h.le_edge ⟨t, ht, hkind, hbound⟩, Or.inr ⟨t, ht, hkind, hbound⟩⟩

end

/-! ## Code with spacing at a bound -/

section

variable {w behind : List Char}

/-- Code with spacing put at a bound of one of its tokens. By induction on what stands before the
place. -/
theorem ReadsCode.insertSpacing (hw : IsSpacing w) {nested : Bool} {depth pos p edge : Nat}
    {rest : List Char} {ts : List Token} (x : List Char)
    (h : ReadsCode nested depth pos (x ++ behind) ts p rest) (hx : edge = pos + byteLength x)
    (hedge : x = [] ∨ Token.Edge edge ts) :
    ∃ before after, Token.SplitsAt edge ts before after ∧
      ReadsCode nested depth pos (x ++ (w ++ behind))
        (before ++ Token.relocateAll (.shift (byteLength w)) after) (p + byteLength w) rest := by
  induction hk : x.length using Nat.strong_induction_on generalizing x depth pos ts with
  | _ k ih =>
  subst hk
  by_cases hnil : x = []
  · subst hnil
    obtain rfl : edge = pos := hx
    exact ⟨[], ts, ⟨rfl, nofun, fun t ht => (h.le_start t ht).1⟩,
      .behind_trivia hw.trivia (h.later _)⟩
  replace hedge := hedge.resolve_left hnil
  have hlt : pos < edge := hx ▸ Nat.lt_add_of_pos_right (byteLength_pos hnil)
  generalize hcs : x ++ behind = cs at h
  cases h with
  | done => exact absurd (List.append_eq_nil_iff.1 hcs).1 hnil
  | close =>
    obtain ⟨t, ht, hkind, -⟩ := hedge
    obtain rfl := List.mem_singleton.1 ht
    exact nomatch hkind
  | @string _ _ _ q _ cs mid _ body ts hbody hmore =>
    obtain ⟨hle, hedge⟩ := hmore.edge_of_cons hlt hedge
    obtain ⟨used, rfl, hq, hagain⟩ := hbody.reopened
    obtain ⟨y, rfl, rfl, hy⟩ := exists_append_of_stop
      (show '"' :: used ++ mid = x ++ behind from hcs.symm) hx (hq ▸ hle)
    rw [← hq] at hy
    obtain ⟨before, after, hsplit, hmore'⟩ := ih y.length (length_lt_cons_append ..) y hmore hy
      (hedge.imp_left fun heq => eq_nil_of_stop hy heq) rfl
    refine ⟨_ :: before, after, hsplit.cons body.isEof_kind hle, ?_⟩
    rw [List.append_assoc]
    exact .string (hagain _ ((hw.upTo behind behind).append y)) hmore'
  | @token _ _ _ q _ c cs mid _ kind ts hclose hc hgap htoken hmore =>
    obtain ⟨hle, hedge⟩ := hmore.edge_of_cons hlt hedge
    have hkind := TokenKind.isEof_of_isPlain (isPlain_of_scanToken htoken)
    obtain ⟨used, rfl, hq, hagain⟩ := scanToken_again htoken
    obtain ⟨y, rfl, rfl, hy⟩ := exists_append_of_stop
      (show c :: used ++ mid = x ++ behind from hcs.symm) hx (hq ▸ hle)
    have htoken' := hagain pos _ ((hw.upTo behind behind).append y)
    rw [← hq] at htoken' hy
    obtain ⟨before, after, hsplit, hmore'⟩ := ih y.length (length_lt_cons_append ..) y hmore hy
      (hedge.imp_left fun heq => eq_nil_of_stop hy heq) rfl
    refine ⟨_ :: before, after, hsplit.cons hkind hle, ?_⟩
    rw [List.append_assoc]
    exact .token hclose hc (hw.scanTrivia_eq_none hgap) htoken' hmore'
  | @gap _ _ _ q _ c cs mid _ _ r hclose hc hgap hread hmore =>
    have hle := hmore.le_edge hedge
    obtain ⟨used, rfl, rfl, hagain⟩ := scanTrivia_again_or_line hgap hread
    obtain ⟨y, rfl, rfl, hy⟩ := exists_append_of_stop
      (show c :: used ++ mid = x ++ behind from hcs.symm) hx hle
    rw [List.append_assoc]
    rcases hagain with hagain | ⟨run, rfl, rfl, hrun, hend⟩
    · obtain ⟨before, after, hsplit, hmore'⟩ := ih y.length (length_lt_cons_append ..) y hmore hy
        (Or.inr hedge) rfl
      obtain ⟨r', hgap', hread'⟩ := hagain pos (y ++ (w ++ behind))
      exact ⟨before, after, hsplit, .gap hclose hc hgap' hread' hmore'⟩
    by_cases hynil : y = []
    · -- the line comment goes on over the spacing
      subst hynil
      obtain rfl : edge = pos + byteLength ('/' :: '/' :: run) := hy
      have hover : '\n' ∉ run ++ w := fun hmem => (List.mem_append.1 hmem).elim hrun hw.line
      have hmore' := hmore.later (byteLength w)
      rw [List.nil_append, Nat.add_assoc, ← byteLength_append] at hmore'
      refine ⟨[], ts, ⟨rfl, nofun, fun t ht => (hmore.le_start t ht).1⟩, ?_⟩
      simpa using ReadsCode.behind_line hover hend hmore'
    · obtain ⟨before, after, hsplit, hmore'⟩ := ih y.length (length_lt_cons_append ..) y hmore hy
        (Or.inr hedge) rfl
      have hend' : (y ++ (w ++ behind)).head?.any (· != '\n') = false := by
        rw [← hend]
        exact congrArg _ (head?_append_of_ne_nil [] hynil _ _)
      exact ⟨before, after, hsplit, .behind_line hrun hend' hmore'⟩

end

/-! ## Kinds -/

section

variable (r : Relocation)

mutual

/-- Tokens elsewhere have the same kinds. -/
theorem TokenKind.same_relocate : ∀ k : TokenKind, k.same (k.relocate r) = true
  | .template parts => by
    rw [TokenKind.relocate, TokenKind.same]
    exact Token.sameParts_relocate parts
  | .name _ | .integer _ | .long _ | .double _ | .single _ | .text _ | .character _
  | .keyword _ | .mark _ | .newline | .eof => by simp [TokenKind.relocate, TokenKind.same]

theorem Token.same_relocate (atEnd : Bool) : ∀ t : Token, t.same (t.relocate r atEnd) = true
  | ⟨kind, span⟩ => by
    rw [Token.relocate, Token.same]
    exact kind.same_relocate

theorem Token.sameKinds_relocateAll : ∀ ts : List Token,
    Token.sameKinds ts (Token.relocateAll r ts) = true
  | [] => by rw [Token.relocateAll, Token.sameKinds]
  | t :: ts => by
    rw [Token.relocateAll, Token.sameKinds, t.same_relocate, Token.sameKinds_relocateAll ts,
      Bool.and_true]

theorem Token.sameParts_relocate : ∀ parts : List (List Token),
    Token.sameParts parts (Token.relocateParts r parts) = true
  | [] => by rw [Token.relocateParts, Token.sameParts]
  | ts :: parts => by
    rw [Token.relocateParts, Token.sameParts, Token.sameKinds_relocateAll ts,
      Token.sameParts_relocate parts, Bool.and_true]

end

end

namespace Token

theorem same_self (t : Token) : t.same t = true := by
  rcases t with ⟨kind, span⟩
  have hkind := kind.same_relocate (.shift 0)
  rw [TokenKind.relocate_eq_self fun x _ => x.relocate_shift_zero] at hkind
  rw [Token.same, hkind]

/-- Tokens of which the last are elsewhere have the same kinds. -/
theorem sameKinds_append_relocateAll (r : Relocation) (before after : List Token) :
    sameKinds (before ++ after) (before ++ relocateAll r after) = true := by
  induction before with
  | nil => exact sameKinds_relocateAll r after
  | cons t before ih =>
    rw [List.cons_append, List.cons_append, sameKinds, same_self, ih, Bool.and_true]

/-! ## Texts -/

/-- Where a token starts or stops, spacing may be put into a text: the tokens have the same kinds,
those that stop there or before it stay, and those that start there or behind it, with the end and
with the tokens of their templates, move on by the length of the spacing. -/
theorem scan_insertSpacing {text : String} {ts : List Token} (h : scan text = .ok ts) {t : Token}
    (ht : t ∈ ts) (hkind : t.kind ≠ .eof) {edge : Nat}
    (hedge : t.span.start = edge ∨ t.span.stop = edge) {w : List Char} (hw : IsSpacing w) :
    ∃ x behind before after, text.toList = x ++ behind ∧ byteLength x = edge ∧
      SplitsAt edge ts before after ∧
      sameKinds ts (before ++ relocateAll (.shift (byteLength w)) after) = true ∧
      scan (String.ofList (x ++ (w ++ behind)))
        = .ok (before ++ relocateAll (.shift (byteLength w)) after) := by
  obtain ⟨stop, hapart⟩ := apart_of_scan h .self
  obtain ⟨x, behind, htext, hx⟩ : Text.IsBound text.toList edge := by
    obtain ⟨hstart, hstop⟩ := hapart.bounds t ht
    rcases hedge with rfl | rfl
    · exact hstart
    · exact hstop
  rw [← text.ofList_toList, htext] at h
  obtain ⟨p, rest, hcode⟩ := scan_eq_ok_iff.1 h
  have hisEof : t.kind.isEof = false :=
    Bool.eq_false_iff.2 fun heof => hkind (TokenKind.eq_eof heof)
  obtain ⟨before, after, hsplit, hcode'⟩ := hcode.insertSpacing hw x
    (by rw [Nat.zero_add, hx]) (Or.inr ⟨t, ht, hisEof, hedge⟩)
  refine ⟨x, behind, before, after, htext, hx, hsplit, ?_, scan_eq_ok_iff.2 ⟨_, _, hcode'⟩⟩
  rw [hsplit.tokens]
  exact sameKinds_append_relocateAll _ before after

/-- A name in a template, a line comment, and a name in a template of a later line. -/
def notedText : String := "val a = \"$\x7bb\x7d\" // note\nval c = \"$a\""

/-- A comment in a comment, between blanks. -/
def nestedSpacing : List Char := "\t/* x /* y */ */ ".toList

theorem isSpacing_nestedSpacing : IsSpacing nestedSpacing where
  blank := ⟨'\t', "/* x /* y */ */ ".toList, by decide, by decide⟩
  trivia := by
    have hclose : IsComment " */".toList := .char (by decide) (by decide) .close
    have hinner : IsComment " y */".toList :=
      .char (by decide) (by decide) (.char (by decide) (by decide) hclose)
    have houter : IsComment " x /* y */ */".toList :=
      .char (by decide) (by decide) (.char (by decide) (by decide)
        (.char (by decide) (by decide) (.nested hinner hclose)))
    exact .blank (by decide) (.block houter (.blank (by decide) .nil))
  line := by decide

/-- At the end of the line comment, where the line break starts. -/
theorem scan_insertSpacing_notedText : ∃ ts, scan notedText = .ok ts ∧
    (∃ t ∈ ts, t.kind ≠ .eof ∧ t.span.start = 22) ∧ IsSpacing nestedSpacing ∧
      ∃ x behind before after, notedText.toList = x ++ behind ∧ byteLength x = 22 ∧
        SplitsAt 22 ts before after ∧
        sameKinds ts (before ++ relocateAll (.shift (byteLength nestedSpacing)) after) = true ∧
        scan (String.ofList (x ++ (nestedSpacing ++ behind)))
          = .ok (before ++ relocateAll (.shift (byteLength nestedSpacing)) after) := by
  obtain ⟨ts, hts, hbreak⟩ : ∃ ts, scan notedText = .ok ts ∧
      (ts.any fun t => !t.kind.isEof && t.span.start == 22) = true := by
    refine exists_scan rfl ?_
    decide +kernel
  obtain ⟨t, ht, hedge⟩ := List.any_eq_true.1 hbreak
  rw [Bool.and_eq_true, Bool.not_eq_true', beq_iff_eq] at hedge
  have hkind : t.kind ≠ .eof := fun heof => by simp [heof, TokenKind.isEof] at hedge
  exact ⟨ts, hts, ⟨t, ht, hkind, hedge.2⟩, isSpacing_nestedSpacing,
    scan_insertSpacing hts ht hkind (Or.inl hedge.2) isSpacing_nestedSpacing⟩

end Token

end FrameCheck
