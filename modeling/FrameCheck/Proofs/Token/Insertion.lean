import FrameCheck.Proofs.Text.Lines
import FrameCheck.Proofs.Token.Places

/-!
# A comment at the end of a line

A line comment that is put at the end of a line, outside of all tokens, changes no token: those
before it stay where they are and those behind it move on by its length. The end of the line may
lie in a comment, which then goes on around what is put into it.

* `ReadsCode.insert` : code with a comment put at the end of a line.
-/

namespace FrameCheck

/-- A line comment of these characters, behind a blank. -/
def noteComment (note : List Char) : List Char := ' ' :: '/' :: '/' :: note

/-- The characters end no line, and open and close no comment. -/
def IsNote (note : List Char) : Prop := ∀ c ∈ note, c ≠ '\n' ∧ c ≠ '/' ∧ c ≠ '*'

/-! ## Relocations -/

/-- Offsets from `p` on are greater by `n` ; what stops at `p` stays. -/
def Relocation.insertion (p n : Nat) : Relocation where
  start x := if x < p then x else x + n
  stop x := if x ≤ p then x else x + n
  last s := if s.start < p then s else ⟨s.start + n, s.stop + n⟩
  start_mono x y h := by
    dsimp only
    split <;> split <;> omega
  stop_mono x y h := by
    dsimp only
    split <;> split <;> omega

section

variable {lo hi p n : Nat} {places : List TokenPlace} (h : LaidOut lo hi places)

include h

/-- What lies before the offset stays. -/
theorem LaidOut.relocate_before (hhi : hi < p) :
    ∀ x ∈ places, x.relocate (.insertion p n) = x := by
  intro x hx
  cases x with
  | start m =>
    have hm := (h.starts.bounds m (List.mem_filterMap.2 ⟨_, hx, rfl⟩)).2
    exact congrArg TokenPlace.start (if_pos (by omega))
  | stop m =>
    have hm := (h.stops.bounds m (List.mem_filterMap.2 ⟨_, hx, rfl⟩)).2
    exact congrArg TokenPlace.stop (if_pos (by omega))
  | last s =>
    obtain ⟨-, hs, -⟩ := h.lasts s (List.mem_filterMap.2 ⟨_, hx, rfl⟩)
    exact congrArg TokenPlace.last (if_pos (by omega))

/-- What lies behind the offset moves on. -/
theorem LaidOut.relocate_behind (hlo : p ≤ lo) :
    ∀ x ∈ places, x.relocate (.insertion p n) = x.relocate (.shift n) := by
  intro x hx
  cases x with
  | start m =>
    have hm := (h.starts.bounds m (List.mem_filterMap.2 ⟨_, hx, rfl⟩)).1
    exact congrArg TokenPlace.start (if_neg (by omega))
  | stop m =>
    have hm := (h.stops.bounds m (List.mem_filterMap.2 ⟨_, hx, rfl⟩)).1
    exact congrArg TokenPlace.stop (if_neg (by omega))
  | last s =>
    obtain ⟨hs, -, -⟩ := h.lasts s (List.mem_filterMap.2 ⟨_, hx, rfl⟩)
    exact congrArg TokenPlace.last (if_neg (by omega))

end

theorem TokenKind.relocate_eq_self {r : Relocation} {k : TokenKind}
    (h : ∀ x ∈ k.places, x.relocate r = x) : k.relocate r = k := by
  refine TokenKind.ext_places (k.bare_relocate r) ?_
  rw [TokenKind.places_relocate]
  exact (List.map_congr_left h).trans (List.map_id _)

/-! ## Comments with a comment in them -/

/-- A character that neither opens nor closes a comment with the one behind it is passed. -/
theorem reads_scanComment_cons {c : Char} {cs : List Char}
    (hopen : ¬(c = '/' ∧ cs.head? = some '*')) (hclose : ¬(c = '*' ∧ cs.head? = some '/'))
    {start depth pos p : Nat} {rest : List Char} :
    Reads (scanComment start depth pos (c :: cs)) () p rest ↔
      Reads (scanComment start depth (pos + c.utf8Size) cs) () p rest := by
  rw [scanComment]
  · exact reads_widen (Nat.le_of_lt (by simp))
  · exact fun more hc hcs => hopen ⟨hc, by rw [hcs]; rfl⟩
  · exact fun more hc hcs => hclose ⟨hc, by rw [hcs]; rfl⟩

variable {note behind : List Char}

/-- In a comment a note is passed. -/
theorem scanComment_note (hn : IsNote note) {start depth pos p : Nat} {rest : List Char}
    (h : Reads (scanComment start depth (pos + byteLength note) behind) () p rest) :
    Reads (scanComment start depth pos (note ++ behind)) () p rest := by
  induction note generalizing pos with
  | nil => exact h
  | cons c note ih =>
    obtain ⟨-, hopen, hclose⟩ := hn c (by simp)
    refine (reads_scanComment_cons (fun hc => hopen hc.1) fun hc => hclose hc.1).2 ?_
    refine ih (fun d hd => hn d (List.mem_cons_of_mem c hd)) ?_
    rwa [byteLength_cons, ← Nat.add_assoc] at h

theorem Text.EndsLine.head?_ne (hb : Text.EndsLine behind) {c : Char} (hc : c ≠ '\n') :
    behind.head? ≠ some c := fun h => hc (hb c h)

/-- A comment that goes on behind the end of a line goes on around a comment there. -/
theorem scanComment_insert (hn : IsNote note) (hb : Text.EndsLine behind) {start p : Nat}
    {rest : List Char} : ∀ {x : List Char} {depth pos : Nat},
      Reads (scanComment start depth pos (x ++ behind)) () p rest → pos + byteLength x < p →
        Reads (scanComment start depth pos (x ++ (noteComment note ++ behind))) ()
          (p + byteLength (noteComment note)) rest
  | [], depth, pos, h, _ => by
    obtain ⟨used, -, rfl, rfl, hagain⟩ := scanComment_again h
    have hnext : (note ++ (used ++ rest)).head? ≠ some '*' := by
      cases note with
      | nil => exact hb.head?_ne (by decide)
      | cons c note => exact fun hc => (hn c (by simp)).2.2 (Option.some.inj hc)
    have hslash : '/'.utf8Size = 1 := rfl
    have hblank : ' '.utf8Size = 1 := rfl
    refine (reads_scanComment_cons (by simp) (by simp)).2 ?_
    refine (reads_scanComment_cons (by simp) (by simp)).2 ?_
    refine (reads_scanComment_cons (fun hc => hnext hc.2) (by simp)).2 (scanComment_note hn ?_)
    have hread := hagain start (pos + ' '.utf8Size + '/'.utf8Size + '/'.utf8Size + byteLength note)
      rest
    rwa [show pos + ' '.utf8Size + '/'.utf8Size + '/'.utf8Size + byteLength note + byteLength used
      = pos + byteLength used + byteLength (noteComment note) by
        simp only [noteComment, byteLength_cons]; omega] at hread
  | c :: x, depth, pos, h, hp => by
    by_cases hopen : c = '/' ∧ x.head? = some '*'
    · obtain ⟨rfl, hx⟩ := hopen
      obtain ⟨x, rfl⟩ := List.head?_eq_some_iff.1 hx
      simp only [List.cons_append] at h ⊢
      rw [scanComment, reads_widen] at h ⊢
      refine scanComment_insert hn hb h ?_
      have hlength : byteLength ('/' :: '*' :: x) = 1 + (1 + byteLength x) := rfl
      omega
    by_cases hclose : c = '*' ∧ x.head? = some '/'
    · obtain ⟨rfl, hx⟩ := hclose
      obtain ⟨x, rfl⟩ := List.head?_eq_some_iff.1 hx
      have hlength : byteLength ('*' :: '/' :: x) = 1 + (1 + byteLength x) := rfl
      simp only [List.cons_append] at h ⊢
      cases depth with
      | zero =>
        -- the comment would be closed before the end of the line
        have hclosed := (h.of_ok rfl).pos
        simp only at hclosed
        omega
      | succ depth =>
        rw [scanComment, reads_widen] at h ⊢
        refine scanComment_insert hn hb h ?_
        omega
    · have hhead (y : List Char) {d : Char} (hy : y.head? ≠ some d) (hx : x.head? ≠ some d) :
          (x ++ y).head? ≠ some d := by
        cases x with
        | nil => exact hy
        | cons e x => exact hx
      have hplain (y : List Char) (hstar : y.head? ≠ some '*') (hslash : y.head? ≠ some '/') :
          ¬(c = '/' ∧ (x ++ y).head? = some '*') ∧ ¬(c = '*' ∧ (x ++ y).head? = some '/') :=
        ⟨fun hc => hhead y hstar (fun hx => hopen ⟨hc.1, hx⟩) hc.2,
          fun hc => hhead y hslash (fun hx => hclose ⟨hc.1, hx⟩) hc.2⟩
      obtain ⟨hopen', hclose'⟩ := hplain behind (hb.head?_ne (by decide)) (hb.head?_ne (by decide))
      obtain ⟨hopen'', hclose''⟩ := hplain (noteComment note ++ behind) (by simp [noteComment])
        (by simp [noteComment])
      rw [List.cons_append, reads_scanComment_cons hopen' hclose'] at h
      rw [List.cons_append, reads_scanComment_cons hopen'' hclose'']
      refine scanComment_insert hn hb h ?_
      rw [byteLength_cons] at hp
      omega
termination_by x => x.length

/-! ## Trivia with a comment in them -/

/-- Trivia that is no blank is a comment. -/
theorem scanTrivia_comment {c : Char} (hblank : ¬(c = ' ' ∨ c = '\t' ∨ c = '\r')) {pos : Nat}
    {cs : List Char} {r : Except ScanError (Scanned Unit cs)}
    (h : scanTrivia c pos cs = some r) :
    c = '/' ∧ ∃ d more, cs = d :: more ∧ (d = '/' ∨ d = '*') := by
  unfold scanTrivia at h
  rw [if_neg hblank] at h
  split at h
  · next hc =>
    refine ⟨hc, ?_⟩
    split at h
    · exact ⟨_, _, rfl, Or.inl rfl⟩
    · exact ⟨_, _, rfl, Or.inr rfl⟩
    · exact nomatch h
  · exact nomatch h

/-- Trivia was read to `q`, with `mid` left: either before the end of the line, at `stop`, so
that it is read again when a comment is put there, or around the end of the line, so that it
goes on around the comment. -/
def ReadsAround (note behind mid : List Char) (stop q : Nat) {cs : List Char}
    (r : Except ScanError (Scanned Unit cs)) : Prop :=
  (∃ y, mid = y ++ behind ∧ q + byteLength y = stop ∧
    Reads r () q (y ++ (noteComment note ++ behind))) ∨
  (stop ≤ q ∧ Reads r () (q + byteLength (noteComment note)) mid)

theorem newline_notMem_noteComment (hn : IsNote note) : '\n' ∉ noteComment note := by
  intro hmem
  rcases List.mem_cons.1 hmem with h | hmem
  · exact nomatch h
  rcases List.mem_cons.1 hmem with h | hmem
  · exact nomatch h
  rcases List.mem_cons.1 hmem with h | hmem
  · exact nomatch h
  · exact (hn '\n' hmem).1 rfl

theorem Text.EndsLine.any_head (hb : Text.EndsLine behind) : behind.head?.any (· != '\n') = false := by
  cases behind with
  | nil => rfl
  | cons c behind => simp [hb c rfl]

section

variable {pos q : Nat} {x mid : List Char}

/-- A line comment ends before the end of the line, or there; then it goes on to the end of what
is put there. -/
theorem lineComment_insert (hn : IsNote note) (hb : Text.EndsLine behind)
    {r : Except ScanError (Scanned Unit ('/' :: x ++ behind))}
    (h : scanTrivia '/' pos ('/' :: x ++ behind) = some r) (hr : Reads r () q mid) :
    ∃ r', scanTrivia '/' pos ('/' :: x ++ (noteComment note ++ behind)) = some r' ∧
      ReadsAround note behind mid (pos + byteLength ('/' :: '/' :: x)) q r' := by
  by_cases hmem : '\n' ∈ x
  · obtain ⟨run, y, rfl, hrun⟩ := List.eq_append_cons_of_mem hmem
    have hread (ahead : List Char) : ∃ r, scanTrivia '/' pos ('/' :: (run ++ '\n' :: y) ++ ahead)
        = some r ∧ Reads r () (pos + byteLength ('/' :: '/' :: run)) ('\n' :: (y ++ ahead)) :=
      scanTrivia_lineComment (by simp) hrun rfl pos
    obtain ⟨s, hs, hread'⟩ := hread behind
    obtain rfl : s = r := Option.some.inj (hs.symm.trans h)
    obtain ⟨-, rfl, rfl⟩ := hread'.unique hr
    obtain ⟨r', hr', hread'⟩ := hread (noteComment note ++ behind)
    refine ⟨r', hr', Or.inl ⟨'\n' :: y, rfl, ?_, hread'⟩⟩
    simp only [byteLength_cons, byteLength_append]
    omega
  · have hrun : '\n' ∉ x ++ noteComment note := fun h =>
      (List.mem_append.1 h).elim hmem (newline_notMem_noteComment hn)
    obtain ⟨s, hs, hread⟩ := scanTrivia_lineComment (List.cons_append ..) hmem hb.any_head pos
    obtain rfl : s = r := Option.some.inj (hs.symm.trans h)
    obtain ⟨-, rfl, rfl⟩ := hread.unique hr
    have hcs : '/' :: x ++ (noteComment note ++ behind)
        = '/' :: (x ++ noteComment note ++ behind) := by simp
    obtain ⟨r', hr', hread'⟩ := scanTrivia_lineComment hcs hrun hb.any_head pos
    refine ⟨r', hr', Or.inr ⟨Nat.le_refl _, ?_⟩⟩
    simpa only [byteLength_cons, byteLength_append, Nat.add_assoc] using hread'

/-- A block comment ends before the end of the line, or it goes on around what is put there. -/
theorem blockComment_insert (hn : IsNote note) (hb : Text.EndsLine behind)
    {r : Except ScanError (Scanned Unit ('*' :: x ++ behind))}
    (h : scanTrivia '/' pos ('*' :: x ++ behind) = some r) (hr : Reads r () q mid) :
    ∃ r', scanTrivia '/' pos ('*' :: x ++ (noteComment note ++ behind)) = some r' ∧
      ReadsAround note behind mid (pos + byteLength ('/' :: '*' :: x)) q r' := by
  have hlength (x : List Char) : pos + byteLength ('/' :: '*' :: x) = pos + 2 + byteLength x := by
    simp only [byteLength_cons, show '/'.utf8Size = 1 from rfl, show '*'.utf8Size = 1 from rfl]
    omega
  obtain rfl := Option.some.inj h
  have hread := (reads_widen (Nat.le_of_lt (by simp))).1 hr
  refine ⟨_, scanTrivia_block pos _, ?_⟩
  rw [hlength]
  by_cases hq : q ≤ pos + 2 + byteLength x
  · obtain ⟨used, -, hcs, rfl, hagain⟩ := scanComment_again hread
    obtain ⟨y, rfl, rfl⟩ := eq_append_of_byteLength_le hcs.symm (by omega)
    refine Or.inl ⟨y, rfl, by rw [byteLength_append]; omega, ?_⟩
    refine (reads_widen (Nat.le_of_lt (by simp))).2 ?_
    have hread' := hagain pos (pos + 2) (y ++ (noteComment note ++ behind))
    rwa [← List.append_assoc] at hread'
  · refine Or.inr ⟨by omega, (reads_widen (Nat.le_of_lt (by simp))).2 ?_⟩
    exact scanComment_insert hn hb hread (by omega)

/-- A blank or a comment before the end of a line is read too when a comment is put there. -/
theorem scanTrivia_insert (hn : IsNote note) (hb : Text.EndsLine behind) {c : Char}
    {r : Except ScanError (Scanned Unit (x ++ behind))}
    (h : scanTrivia c pos (x ++ behind) = some r) (hr : Reads r () q mid) :
    ∃ r', scanTrivia c pos (x ++ (noteComment note ++ behind)) = some r' ∧
      ReadsAround note behind mid (pos + byteLength (c :: x)) q r' := by
  by_cases hblank : c = ' ' ∨ c = '\t' ∨ c = '\r'
  · have hread (cs : List Char) : ∃ r', scanTrivia c pos cs = some r' ∧
        Reads r' () (pos + byteLength [c]) cs := by
      refine ⟨_, if_pos hblank, _, rfl, rfl, ?_, rfl⟩
      rcases hblank with rfl | rfl | rfl <;> rfl
    obtain ⟨r', hr', hread'⟩ := hread (x ++ (noteComment note ++ behind))
    obtain ⟨s, hs, hread⟩ := hread (x ++ behind)
    obtain rfl : s = r := Option.some.inj (hs.symm.trans h)
    obtain ⟨-, rfl, rfl⟩ := hread.unique hr
    refine ⟨r', hr', Or.inl ⟨x, rfl, ?_, hread'⟩⟩
    simp only [byteLength_cons, byteLength_nil]
    omega
  · obtain ⟨rfl, d, more, hcs, hd⟩ := scanTrivia_comment hblank h
    -- what stands behind is the end of a line, so the comment opens before it
    rcases x with _ | ⟨e, x⟩
    · have hne := hb d (by rw [show behind = d :: more from hcs]; rfl)
      rcases hd with rfl | rfl <;> exact absurd hne (by decide)
    · obtain ⟨rfl, -⟩ := List.cons.inj hcs
      rcases hd with rfl | rfl
      · exact lineComment_insert hn hb h hr
      · exact blockComment_insert hn hb h hr

end

/-! ## Code with a comment in it -/

/-- At the end of a line the text is parted, with a comment there or without. -/
theorem Text.EndsLine.alike (hb : Text.EndsLine behind) (y : List Char) :
    Alike (y ++ behind) (y ++ (noteComment note ++ behind)) := by
  refine (Alike.parted (fun c hc => Or.inr (hb c hc)) fun c hc => Or.inl ?_).append y
  exact (Option.some.inj hc).symm

theorem TokenPlace.relocate_shift_zero (x : TokenPlace) : x.relocate (.shift 0) = x := by
  cases x <;> rfl

/-- A token before the offset stays. -/
theorem Relocation.insertion_span {p n start stop : Nat} (hstart : start < p) (hstop : stop ≤ p) :
    (Relocation.insertion p n).span ⟨start, stop⟩ = ⟨start, stop⟩ := by
  show Span.mk (if _ then _ else _) (if _ then _ else _) = _
  rw [if_pos hstart, if_pos hstop]

/-- Code at the end of a line, behind a comment. -/
theorem ReadsCode.behind_note (hn : IsNote note) (hb : Text.EndsLine behind) {depth pos p : Nat}
    {ts : List Token} {rest : List Char} (h : ReadsCode false depth pos behind ts p rest) :
    ReadsCode false depth pos (noteComment note ++ behind)
      (Token.relocateAll (.insertion pos (byteLength (noteComment note))) ts)
      (p + byteLength (noteComment note)) rest := by
  have hplaces := h.laidOut
  rw [Token.relocateAll_congr (hplaces.relocate_behind (Nat.le_refl pos))]
  obtain ⟨used, -, rfl, rfl, hagain⟩ := h.again
  have hmore := hagain (byteLength (noteComment note)) rest (.refl rest) fun _ => rfl
  have hnote : '\n' ∉ note := fun hmem => (hn '\n' hmem).1 rfl
  obtain ⟨r, hgap, hread⟩ := scanTrivia_lineComment rfl hnote hb.any_head (pos + 1)
  rw [show pos + 1 + byteLength ('/' :: '/' :: note) = pos + byteLength (noteComment note) by
    simp only [noteComment, byteLength_cons, show ' '.utf8Size = 1 from rfl]; omega] at hread
  refine .gap (by simp) (by decide) (if_pos (Or.inl rfl)) ⟨_, rfl, rfl, rfl, rfl⟩ ?_
  exact .gap (by simp) (by decide) hgap hread hmore

/-- What is left is no longer than what was there. -/
theorem Reads.length_le {α : Type} {cs rest : List Char} {r : Except ScanError (Scanned α cs)}
    {a : α} {pos : Nat} (h : Reads r a pos rest) : rest.length ≤ cs.length := by
  obtain ⟨s, -, -, -, rfl⟩ := h
  exact s.rest_le

theorem length_lt_cons_append {α : Type} (c : α) (used y : List α) :
    y.length < (c :: (used ++ y)).length := by
  rw [List.length_cons, List.length_append]
  omega

/-- Code with a comment put at the end of a line, outside of all tokens. By induction on what
stands before the place. -/
theorem ReadsCode.insert (hn : IsNote note) (hb : Text.EndsLine behind) {stop depth pos : Nat}
    {ts : List Token} {p : Nat} {rest : List Char} (x : List Char)
    (h : ReadsCode false depth pos (x ++ behind) ts p rest) (hstop : stop = pos + byteLength x)
    (hts : ∀ t ∈ ts, t.span.start < stop → t.span.stop ≤ stop) :
    ReadsCode false depth pos (x ++ (noteComment note ++ behind))
      (Token.relocateAll (.insertion stop (byteLength (noteComment note))) ts)
      (p + byteLength (noteComment note)) rest := by
  induction hk : x.length using Nat.strong_induction_on generalizing x depth pos ts with
  | _ k ih =>
  subst hk
  rcases x with _ | ⟨c, x⟩
  · obtain rfl : stop = pos := hstop
    exact h.behind_note hn hb
  have hpos := Char.utf8Size_pos c
  rw [byteLength_cons] at hstop
  have hstart : pos < stop := by omega
  generalize hcs : (c :: x) ++ behind = cs at h
  cases h with
  | done => cases hcs
  | @string _ _ _ q _ cs mid _ body ts hbody hmore =>
    obtain ⟨rfl, rfl⟩ := List.cons.inj hcs
    have hquote : '"'.utf8Size = 1 := rfl
    have hq : q ≤ stop := hts ⟨body.kind, ⟨pos, q⟩⟩ (List.mem_cons_self ..) hstart
    obtain ⟨m, hm, hplaces⟩ := hbody.laidOut
    obtain ⟨inside, -, hinside, hend, hbody'⟩ := hbody.again
    obtain ⟨used, hused, hlength, hopening⟩ := scanOpening_again hinside
    obtain ⟨y, rfl, rfl⟩ := eq_append_of_byteLength_le hused.symm (by omega)
    have ha : Alike (y ++ behind) (y ++ (noteComment note ++ behind)) := hb.alike y
    obtain ⟨hvalue, hpos, hrest⟩ := hopening 0 _ ha.upTo
    have hbody' := hbody' 0 _ ha.upTo
    rw [← hvalue, ← hpos, ← hrest] at hbody'
    have hkind : (body.relocate (.shift 0)).kind
        = body.kind.relocate (.insertion stop (byteLength (noteComment note))) := by
      rw [StringBody.kind_relocate, TokenKind.relocate_eq_self fun x _ => x.relocate_shift_zero,
        TokenKind.relocate_eq_self]
      rw [StringBody.places_kind]
      exact hplaces.relocate_before (by omega)
    rw [Token.relocateAll_cons _ hmore.tokens_ne_nil, Relocation.insertion_span hstart hq,
      ← hkind, List.cons_append, List.append_assoc]
    rw [byteLength_append] at hstop
    refine .string hbody' (ih y.length (length_lt_cons_append ..) y hmore (by omega) (fun t ht => ?_) rfl)
    exact hts t (List.mem_cons_of_mem _ ht)
  | @gap _ _ _ q _ _ cs mid _ _ r hclose hc hgap hread hmore =>
    have hplaces := hmore.laidOut
    obtain ⟨rfl, rfl⟩ := List.cons.inj hcs
    have hlength : mid.length ≤ (x ++ behind).length := hread.length_le
    obtain ⟨r', hgap', hread' | hread'⟩ := scanTrivia_insert hn hb hgap hread
    · obtain ⟨y, rfl, hq, hread'⟩ := hread'
      rw [byteLength_cons] at hq
      refine .gap hclose hc hgap' hread' (ih y.length ?_ y hmore (by omega) hts rfl)
      simp only [List.length_append, List.length_cons] at hlength ⊢
      omega
    · obtain ⟨hq, hread'⟩ := hread'
      rw [byteLength_cons] at hq
      obtain ⟨used, -, rfl, rfl, hagain⟩ := hmore.again
      rw [Token.relocateAll_congr (hplaces.relocate_behind (by omega))]
      exact .gap hclose hc hgap' hread' (hagain _ rest (.refl rest) fun _ => rfl)
  | @token _ _ _ q _ _ cs mid _ kind ts hclose hc hgap htoken hmore =>
    obtain ⟨rfl, rfl⟩ := List.cons.inj hcs
    have hq : q ≤ stop := hts ⟨kind, ⟨pos, q⟩⟩ (List.mem_cons_self ..) hstart
    obtain ⟨used, hused, hlength, hagain⟩ := (scanToken_lexeme c).again htoken
    rw [List.singleton_append, byteLength_cons] at hlength
    obtain ⟨y, rfl, rfl⟩ := eq_append_of_byteLength_le hused.symm (by omega)
    have ha : Alike (y ++ behind) (y ++ (noteComment note ++ behind)) := hb.alike y
    have htoken' := hagain pos _ ha
    rw [List.singleton_append, byteLength_cons, ← hlength] at htoken'
    rw [Token.relocateAll_cons _ hmore.tokens_ne_nil,
      TokenKind.relocate_of_isPlain _ (isPlain_of_scanToken htoken),
      Relocation.insertion_span hstart hq, List.cons_append, List.append_assoc]
    rw [byteLength_append] at hstop
    refine .token hclose hc (scanTrivia_eq_none hgap (hused ▸ ha.append used) _) htoken'
      (ih y.length (length_lt_cons_append ..) y hmore (by omega) (fun t ht => ?_) rfl)
    exact hts t (List.mem_cons_of_mem _ ht)

end FrameCheck
