import FrameCheck.Proofs.Token.Canonical
import FrameCheck.Proofs.Token.Insertion
import FrameCheck.Proofs.Token.Tiling

/-!
# A comment behind a token

A block comment that is put behind a token, in the code of a text or of a template, changes no
token: those up to it stay where they are and those behind it move on by its length. It must not
stand behind a slash, with which it would open a line comment, nor behind a name that stands in a
string without braces, where it would be part of the string.

* `Token.Closes` : a token stops at an offset, and a comment may stand behind it.
* `Token.scan_insertComment` : the tokens with a comment put there.
-/

namespace FrameCheck

/-! ## Comments -/

/-- A character that makes no mark with the one behind it makes none in a longer text either. -/
theorem not_mark_append {a b c : Char} {more : List Char} (h : ¬[a, b] <+: c :: more)
    (hmore : more ≠ []) (behind : List Char) : ¬(c = a ∧ (more ++ behind).head? = some b) := by
  rintro ⟨rfl, hb⟩
  obtain ⟨d, more, rfl⟩ := List.exists_cons_of_ne_nil hmore
  exact h ⟨more, by rw [← Option.some.inj hb]; rfl⟩

namespace IsComment

variable {comment : List Char}

/-- In a comment a comment is passed. -/
theorem scanComment_nested (h : IsComment comment) {start depth pos p : Nat}
    {behind rest : List Char}
    (hread : Reads (scanComment start depth (pos + byteLength comment) behind) () p rest) :
    Reads (scanComment start (depth + 1) pos (comment ++ behind)) () p rest := by
  induction h generalizing depth pos behind with
  | close => exact (reads_widen _).2 hread
  | @nested inner more _ _ ihinner ihmore =>
    have hlength : pos + byteLength ('/' :: '*' :: (inner ++ more))
        = pos + 2 + byteLength inner + byteLength more := by
      simp only [byteLength_cons, byteLength_append, show '/'.utf8Size = 1 from rfl,
        show '*'.utf8Size = 1 from rfl]
      omega
    rw [hlength] at hread
    rw [List.cons_append, List.cons_append, List.append_assoc, scanComment]
    exact (reads_widen _).2 (ihinner (ihmore hread))
  | char hopen hclose hmore ih =>
    rw [byteLength_cons, ← Nat.add_assoc] at hread
    exact (reads_scanComment_cons (not_mark_append hopen hmore.ne_nil behind)
      (not_mark_append hclose hmore.ne_nil behind)).2 (ih hread)

/-- A comment is read to its end. -/
theorem scanComment (h : IsComment comment) (start pos : Nat) (behind : List Char) :
    Reads (scanComment start 0 pos (comment ++ behind)) () (pos + byteLength comment) behind := by
  induction h generalizing pos with
  | close => exact ⟨_, rfl, rfl, rfl, rfl⟩
  | @nested inner more hinner _ _ ihmore =>
    have hlength : pos + byteLength ('/' :: '*' :: (inner ++ more))
        = pos + 2 + byteLength inner + byteLength more := by
      simp only [byteLength_cons, byteLength_append, show '/'.utf8Size = 1 from rfl,
        show '*'.utf8Size = 1 from rfl]
      omega
    rw [hlength, List.cons_append, List.cons_append, List.append_assoc, FrameCheck.scanComment]
    exact (reads_widen _).2 (hinner.scanComment_nested (ihmore _))
  | char hopen hclose hmore ih =>
    rw [byteLength_cons, ← Nat.add_assoc]
    exact (reads_scanComment_cons (not_mark_append hopen hmore.ne_nil behind)
      (not_mark_append hclose hmore.ne_nil behind)).2 (ih _)

end IsComment

/-- A block comment is a gap before the code behind it. -/
theorem ReadsCode.behind_comment {comment : List Char} (h : IsComment comment) {nested : Bool}
    {depth pos p : Nat} {cs rest : List Char} {ts : List Token}
    (hcode : ReadsCode nested depth (pos + byteLength ('/' :: '*' :: comment)) cs ts p rest) :
    ReadsCode nested depth pos ('/' :: '*' :: (comment ++ cs)) ts p rest := by
  have hlength : pos + byteLength ('/' :: '*' :: comment) = pos + 2 + byteLength comment := by
    simp only [byteLength_cons, show '/'.utf8Size = 1 from rfl, show '*'.utf8Size = 1 from rfl]
    omega
  rw [hlength] at hcode
  exact .gap (by simp) (by decide) (scanTrivia_block pos _)
    ((reads_widen (Nat.le_of_lt (by simp))).2 (h.scanComment pos (pos + 2) cs)) hcode

/-- Between the marks of a comment the characters open and close none, also with the closing mark
behind them. -/
structure IsInside (inside : List Char) : Prop where
  unopened : ¬['/', '*'] <:+: inside ++ ['*', '/']
  unclosed : ¬['*', '/'] <:+: inside

/-- The block comment with these characters in it. -/
def blockComment (inside : List Char) : List Char := '/' :: '*' :: (inside ++ ['*', '/'])

theorem IsInside.of_cons {c : Char} {inside : List Char} (h : IsInside (c :: inside)) :
    IsInside inside where
  unopened hopen := h.unopened (hopen.trans (List.suffix_cons c _).isInfix)
  unclosed hclose := h.unclosed (hclose.trans (List.suffix_cons c _).isInfix)

theorem IsInside.isComment {inside : List Char} (h : IsInside inside) :
    IsComment (inside ++ ['*', '/']) := by
  induction inside with
  | nil => exact .close
  | cons c inside ih =>
    refine .char (fun hmark => h.unopened hmark.isInfix) (fun hmark => ?_) (ih h.of_cons)
    -- the mark does not reach into the closing one, which starts with a star
    cases inside with
    | nil => exact absurd hmark (by simp)
    | cons d inside =>
      obtain ⟨hc, hd, -⟩ : '*' = c ∧ '/' = d ∧ True := by simpa using hmark
      exact h.unclosed (hc ▸ hd ▸ (List.prefix_append ['*', '/'] inside).isInfix)

/-! ## Places for a comment -/

/-- The character of the text before the offset is this one. -/
def Text.EndsAt (text : List Char) (offset : Nat) (c : Char) : Prop :=
  ∃ front behind, text = front ++ c :: behind ∧ byteLength front + c.utf8Size = offset

/-- What stands behind the offset does not count. -/
theorem Text.endsAt_append {front behind : List Char} {c : Char} :
    EndsAt (front ++ behind) (byteLength front) c ↔ front.getLast? = some c := by
  constructor
  · rintro ⟨before, after, hsplit, hlength⟩
    have hle : byteLength (before ++ [c]) ≤ byteLength front := by
      rw [byteLength_append, byteLength_cons, byteLength_nil]
      omega
    obtain ⟨z, hz, -⟩ := eq_append_of_byteLength_le
      (show before ++ [c] ++ after = front ++ behind by rw [hsplit]; simp) hle
    have hnil : z = [] := by
      by_contra hne
      have hpos := byteLength_pos hne
      rw [hz, byteLength_append, byteLength_append, byteLength_cons, byteLength_nil] at hlength
      omega
    rw [hz, hnil, List.append_nil, List.getLast?_concat]
  · intro hlast
    obtain ⟨before, rfl⟩ := List.getLast?_eq_some_iff.1 hlast
    exact ⟨before, behind, by simp, by rw [byteLength_append]; rfl⟩

namespace Token

/-- A token stops at the offset, among these or in a template of them, and is not a name that stands
in a string without braces, directly behind a dollar. -/
inductive Closes (text : List Char) (stop : Nat) : List Token → Prop
  | token {ts : List Token} {t : Token} (ht : t ∈ ts) (hstop : t.span.stop = stop)
    (hkind : t.kind.isEof = false) (hname : ¬Text.EndsAt text t.span.start '$') :
    Closes text stop ts
  | part {ts part : List Token} {t : Token} (ht : t ∈ ts) (hpart : part ∈ t.kind.parts)
    (h : Closes text stop part) : Closes text stop ts

namespace Closes

variable {text : List Char} {stop : Nat} {t : Token} {ts : List Token}

/-- It is the first token that stops there, or one in it, or one behind it. -/
theorem of_cons (h : Closes text stop (t :: ts)) :
    (t.span.stop = stop ∧ t.kind.isEof = false ∧ ¬Text.EndsAt text t.span.start '$') ∨
    (∃ part ∈ t.kind.parts, Closes text stop part) ∨ Closes text stop ts := by
  cases h with
  | token ht hstop hkind hname =>
    rcases List.mem_cons.1 ht with rfl | ht
    · exact Or.inl ⟨hstop, hkind, hname⟩
    · exact Or.inr (Or.inr (.token ht hstop hkind hname))
  | part ht hpart h =>
    rcases List.mem_cons.1 ht with rfl | ht
    · exact Or.inr (Or.inl ⟨_, hpart, h⟩)
    · exact Or.inr (Or.inr (.part ht hpart h))

theorem not_eof {span : Span} : ¬Closes text stop [⟨.eof, span⟩] := by
  intro h
  rcases h.of_cons with ⟨-, hkind, -⟩ | ⟨part, hpart, -⟩ | h
  · exact nomatch hkind
  · exact nomatch hpart
  · cases h with
    | token ht => exact nomatch ht
    | part ht => exact nomatch ht

theorem stop_mem_partsPlaces {part : List Token} {parts : List (List Token)}
    (hpart : part ∈ parts) (h : TokenPlace.stop stop ∈ allPlaces part) :
    TokenPlace.stop stop ∈ partsPlaces parts := by
  induction parts with
  | nil => exact nomatch hpart
  | cons first parts ih =>
    rw [partsPlaces, List.mem_append]
    rcases List.mem_cons.1 hpart with rfl | hpart
    · exact Or.inl h
    · exact Or.inr (ih hpart)

theorem stop_mem_places {part : List Token} (hpart : part ∈ t.kind.parts)
    (h : TokenPlace.stop stop ∈ allPlaces part) (atEnd : Bool) :
    TokenPlace.stop stop ∈ t.places atEnd := by
  rcases t with ⟨kind, span⟩
  cases kind
  case template parts =>
    rw [places, if_neg (by simp [TokenKind.isEof])]
    refine List.mem_cons_of_mem _ (List.mem_append_left _ ?_)
    rw [TokenKind.places]
    exact stop_mem_partsPlaces hpart h
  all_goals cases hpart

theorem mem_allPlaces {place : TokenPlace} (ht : t ∈ ts) (h : ∀ atEnd, place ∈ t.places atEnd) :
    place ∈ allPlaces ts := by
  induction ts with
  | nil => exact nomatch ht
  | cons u ts ih =>
    rw [allPlaces, List.mem_append]
    rcases List.mem_cons.1 ht with rfl | ht
    · exact Or.inl (h _)
    · exact Or.inr (ih ht)

/-- The offset is a place at which a token stops. -/
theorem mem_places (h : Closes text stop ts) : TokenPlace.stop stop ∈ allPlaces ts := by
  induction h with
  | @token ts t ht hstop hkind hname =>
    refine mem_allPlaces ht fun atEnd => ?_
    rcases t with ⟨kind, span⟩
    obtain rfl : span.stop = stop := hstop
    rw [places, show kind.isEof = false from hkind, Bool.and_false, if_neg Bool.false_ne_true]
    simp
  | part ht hpart _ ih => exact mem_allPlaces ht (stop_mem_places hpart ih)

/-- It lies behind the offset from which on the tokens are laid out, and not behind the last. -/
theorem bounds (h : Closes text stop ts) {lo hi : Nat} (hplaces : LaidOut lo hi (allPlaces ts)) :
    lo < stop ∧ stop ≤ hi := by
  have hmem : stop ∈ (allPlaces ts).filterMap TokenPlace.stop? :=
    List.mem_filterMap.2 ⟨_, h.mem_places, rfl⟩
  obtain ⟨h1, h2⟩ := hplaces.stops.bounds stop hmem
  omega

theorem bounds_parts {parts : List (List Token)} (h : ∃ part ∈ parts, Closes text stop part)
    {lo hi : Nat} (hplaces : LaidOut lo hi (partsPlaces parts)) : lo < stop ∧ stop ≤ hi := by
  obtain ⟨part, hpart, h⟩ := h
  have hmem : stop ∈ (partsPlaces parts).filterMap TokenPlace.stop? :=
    List.mem_filterMap.2 ⟨_, stop_mem_partsPlaces hpart h.mem_places, rfl⟩
  obtain ⟨h1, h2⟩ := hplaces.stops.bounds stop hmem
  omega

end Closes

end Token

/-! ## Code with a comment behind a token -/

/-- A comment comes where the second text halts. -/
theorem upTo_blockComment (inside a behind : List Char) :
    UpTo a (blockComment inside ++ behind) :=
  .halted fun _ hc => Option.some.inj hc ▸ by decide

section

variable {inside : List Char} {stop : Nat}

/-- Tokens up to the offset stay. -/
theorem Token.relocateAll_before {ts : List Token} {lo hi n : Nat}
    (h : LaidOut lo hi (allPlaces ts)) (hhi : hi < stop) :
    relocateAll (.insertion stop n) ts = ts :=
  Token.relocateAll_eq_self (h.relocate_before hhi)

/-- Tokens behind the offset move on. -/
theorem Token.relocateAll_behind {ts : List Token} {lo hi n : Nat}
    (h : LaidOut lo hi (allPlaces ts)) (hlo : stop ≤ lo) :
    relocateAll (.insertion stop n) ts = relocateAll (.shift n) ts :=
  relocateAll_congr (h.relocate_behind hlo)

theorem Token.relocateAll_shift_zero (ts : List Token) : relocateAll (.shift 0) ts = ts :=
  Token.relocateAll_eq_self fun x _ => x.relocate_shift_zero

theorem StringBody.relocate_congr {r r' : Relocation} {b : StringBody}
    (h : ∀ x ∈ Token.partsPlaces b.parts, x.relocate r = x.relocate r') :
    b.relocate r = b.relocate r' := by
  refine congrArg (StringBody.mk b.chars) (Token.ext_partsPlaces ?_ ?_)
  · rw [Token.bareParts_relocate, Token.bareParts_relocate]
  · rw [Token.partsPlaces_relocate, Token.partsPlaces_relocate]
    exact List.map_congr_left h

theorem StringBody.relocate_eq_self {r : Relocation} {b : StringBody}
    (h : ∀ x ∈ Token.partsPlaces b.parts, x.relocate r = x) : b.relocate r = b := by
  refine congrArg (StringBody.mk b.chars) (Token.ext_partsPlaces (Token.bareParts_relocate r _) ?_)
  rw [Token.partsPlaces_relocate]
  exact (List.map_congr_left h).trans (List.map_id _)

theorem StringBody.relocate_shift_zero (b : StringBody) : b.relocate (.shift 0) = b :=
  StringBody.relocate_eq_self fun x _ => x.relocate_shift_zero

/-- Code is read on at a later offset. -/
theorem ReadsCode.later {nested : Bool} {depth pos p : Nat} {cs rest : List Char} {ts : List Token}
    (h : ReadsCode nested depth pos cs ts p rest) (n : Nat) :
    ReadsCode nested depth (pos + n) cs (Token.relocateAll (.shift n) ts) (p + n) rest := by
  obtain ⟨used, -, rfl, -, hagain⟩ := h.again
  exact hagain n rest (.refl rest) fun _ => rfl

theorem ReadsBody.later {raw : Bool} {pos p : Nat} {cs rest : List Char} {b : StringBody}
    (h : ReadsBody raw pos cs b p rest) (n : Nat) :
    ReadsBody raw (pos + n) cs (b.relocate (.shift n)) (p + n) rest := by
  obtain ⟨used, -, rfl, -, hagain⟩ := h.again
  exact hagain n rest (.refl rest)

/-- A string is opened and read again where the text behind is the same up to a place. -/
theorem ReadsBody.reopened {pos q : Nat} {cs mid : List Char} {body : StringBody}
    (h : ReadsBody (scanOpening (pos + 1) cs).value (scanOpening (pos + 1) cs).pos
      (scanOpening (pos + 1) cs).rest body q mid) :
    ∃ used, cs = used ++ mid ∧ q = pos + byteLength ('"' :: used) ∧ ∀ ahead, UpTo mid ahead →
      ReadsBody (scanOpening (pos + 1) (used ++ ahead)).value
        (scanOpening (pos + 1) (used ++ ahead)).pos (scanOpening (pos + 1) (used ++ ahead)).rest
        body q ahead := by
  obtain ⟨inside, -, hinside, hend, hagain⟩ := h.again
  obtain ⟨used, hused, hlength, hopening⟩ := scanOpening_again hinside
  refine ⟨used, hused, ?_, fun ahead ha => ?_⟩
  · rw [byteLength_cons, show '"'.utf8Size = 1 from rfl]
    omega
  · obtain ⟨hvalue, hpos, hrest⟩ := hopening 0 ahead ha
    have hread := hagain 0 ahead ha
    rw [← hvalue, ← hpos, ← hrest, StringBody.relocate_shift_zero] at hread
    exact hread

/-- A string around the offset grows. -/
theorem Relocation.insertion_span_around {start q n : Nat} (hstart : start < stop) (hq : stop < q) :
    (Relocation.insertion stop n).span ⟨start, q⟩ = ⟨start, q + n⟩ := by
  show Span.mk (if _ then _ else _) (if _ then _ else _) = _
  rw [if_pos hstart, if_neg (show ¬q ≤ stop by omega)]

/-- What was read up to an offset that is not behind `stop` is the front of what stands before
`stop`. -/
theorem exists_append_of_stop {pos : Nat} {used mid x behind : List Char}
    (h : used ++ mid = x ++ behind) (hstop : stop = pos + byteLength x)
    (hle : pos + byteLength used ≤ stop) :
    ∃ y, x = used ++ y ∧ mid = y ++ behind ∧ stop = pos + byteLength used + byteLength y := by
  obtain ⟨y, rfl, rfl⟩ := eq_append_of_byteLength_le h (by omega)
  exact ⟨y, rfl, rfl, by rw [hstop, byteLength_append, Nat.add_assoc]⟩

theorem ne_nil_of_lt {pos : Nat} {y : List Char} (hstop : stop = pos + byteLength y)
    (hlt : pos < stop) : y ≠ [] := by
  rintro rfl
  rw [byteLength_nil] at hstop
  omega

theorem eq_nil_of_stop {pos : Nat} {y : List Char} (hstop : stop = pos + byteLength y)
    (heq : stop = pos) : y = [] := by
  by_contra hne
  have hlength := byteLength_pos hne
  omega

/-- What stands before a text that is not empty does not change its first character. -/
theorem head?_append_of_ne_nil (used : List Char) {y : List Char} (hy : y ≠ []) (a b : List Char) :
    (used ++ (y ++ a)).head? = (used ++ (y ++ b)).head? := by
  obtain ⟨d, y, rfl⟩ := List.exists_cons_of_ne_nil hy
  cases used <;> rfl

/-- A place in a string, behind its opening: the string opens in the same way wherever the text
behind the place is the same up to a place. -/
theorem exists_append_of_opening {pos : Nat} {cs x behind : List Char}
    (h : '"' :: cs = x ++ behind) (hstop : stop = pos + byteLength x)
    (hle : (scanOpening (pos + 1) cs).pos ≤ stop) :
    ∃ opening y, x = '"' :: (opening ++ y) ∧ cs = opening ++ (scanOpening (pos + 1) cs).rest ∧
      byteLength ('"' :: opening) + pos = (scanOpening (pos + 1) cs).pos ∧
      (scanOpening (pos + 1) cs).rest = y ++ behind ∧
      stop = (scanOpening (pos + 1) cs).pos + byteLength y ∧ ∀ ahead, UpTo behind ahead →
        (scanOpening (pos + 1) (opening ++ y ++ ahead)).Is (scanOpening (pos + 1) cs).value
          (scanOpening (pos + 1) cs).pos (y ++ ahead) := by
  obtain ⟨opening, hopens, hpos⟩ := exists_append_scanOpening (pos + 1) cs
  have hquote : byteLength ('"' :: opening) = 1 + byteLength opening := rfl
  have hlead : '"' :: opening ++ (scanOpening (pos + 1) cs).rest = x ++ behind := by
    rw [List.cons_append, ← hopens, h]
  obtain ⟨y, rfl, hrest, hy⟩ := exists_append_of_stop hlead hstop (by omega)
  obtain ⟨used, hused, -, hagain⟩ := scanOpening_again hrest
  have hsame : used ++ behind = opening ++ y ++ behind := by
    rw [← hused, hopens, hrest, List.append_assoc]
  obtain rfl := List.append_cancel_right hsame
  exact ⟨opening, y, rfl, hopens, by omega, hrest, by omega, fun ahead ha => hagain 0 ahead ha⟩

/-! ### What follows a token, and what stands in a string -/

variable (text : List Char) (stop) (inside)

/-- Code of the text, from `pos` on, reads as well with the comment put at `stop`, where a token of
it stops. -/
def TakesComment (nested : Bool) (depth pos : Nat) (cs : List Char) (ts : List Token) (p : Nat)
    (rest : List Char) : Prop :=
  ∀ front x behind, text = front ++ cs → byteLength front = pos → cs = x ++ behind →
    stop = pos + byteLength x → Token.Closes text stop ts →
      ReadsCode nested depth pos (x ++ (blockComment inside ++ behind))
        (Token.relocateAll (.insertion stop (byteLength (blockComment inside))) ts)
        (p + byteLength (blockComment inside)) rest

/-- So does a string of the text, where a token of a template in it stops. -/
def BodyTakesComment (raw : Bool) (pos : Nat) (cs : List Char) (b : StringBody) (p : Nat)
    (rest : List Char) : Prop :=
  ∀ front x behind, text = front ++ cs → byteLength front = pos → cs = x ++ behind →
    stop = pos + byteLength x → (∃ part ∈ b.parts, Token.Closes text stop part) →
      ReadsBody raw pos (x ++ (blockComment inside ++ behind))
        (b.relocate (.insertion stop (byteLength (blockComment inside))))
        (p + byteLength (blockComment inside)) rest

variable {text stop inside} {nested raw : Bool} {depth pos q p : Nat} {c : Char}
  {cs mid rest : List Char} {ts : List Token} {b : StringBody}

namespace TakesComment

/-- The comment stands behind the string, in it, or behind a token further on. -/
theorem string (hin : IsInside inside)
    (hbody : ReadsBody (scanOpening (pos + 1) cs).value (scanOpening (pos + 1) cs).pos
      (scanOpening (pos + 1) cs).rest b q mid)
    (hmore : ReadsCode nested depth q mid ts p rest)
    (ihbody : BodyTakesComment inside stop text (scanOpening (pos + 1) cs).value
      (scanOpening (pos + 1) cs).pos (scanOpening (pos + 1) cs).rest b q mid)
    (ih : TakesComment inside stop text nested depth q mid ts p rest) :
    TakesComment inside stop text nested depth pos ('"' :: cs) (⟨b.kind, ⟨pos, q⟩⟩ :: ts) p rest := by
  intro front x behind htext hfront hcs hstop h
  have hplaces := hmore.laidOut
  obtain ⟨m, hm, hinner⟩ := hbody.laidOut
  obtain ⟨used, hused, hq, hagain⟩ := hbody.reopened
  have hread : '"' :: used ++ mid = x ++ behind := by rw [List.cons_append, ← hused, hcs]
  have hlt : pos < q := by
    rw [hq]
    exact Nat.lt_add_of_pos_right (byteLength_pos (List.cons_ne_nil '"' used))
  rw [Token.relocateAll_cons _ hmore.tokens_ne_nil, ← StringBody.kind_relocate]
  have hbefore (hle : q ≤ stop) :
      b.relocate (.insertion stop (byteLength (blockComment inside))) = b :=
    StringBody.relocate_eq_self (hinner.relocate_before (by omega))
  rcases h.of_cons with ⟨hclosed, -, -⟩ | h | h
  · obtain rfl : q = stop := hclosed
    obtain ⟨y, rfl, rfl, hy⟩ := exists_append_of_stop hread hstop hq.symm.le
    obtain rfl := eq_nil_of_stop hy hq
    rw [hbefore (Nat.le_refl q), Relocation.insertion_span hlt (Nat.le_refl q),
      Token.relocateAll_behind hplaces (Nat.le_refl q), List.append_nil]
    refine .string (hagain _ (upTo_blockComment inside behind behind)) ?_
    exact .behind_comment hin.isComment (hmore.later _)
  · rw [StringBody.parts_kind] at h
    obtain ⟨hopened, hstopm⟩ := Token.Closes.bounds_parts h hinner
    obtain ⟨opening, y, rfl, hopens, hpos, hrest, hy, hopening⟩ :=
      exists_append_of_opening hcs hstop hopened.le
    obtain ⟨hvalue, hpos', hrest'⟩ := hopening _ (upTo_blockComment inside behind behind)
    have hread := ihbody (front ++ '"' :: opening) y behind
      (by rw [htext, List.append_assoc, List.cons_append, ← hopens])
      (by rw [byteLength_append]; omega) hrest hy h
    rw [← hvalue, ← hpos', ← hrest'] at hread
    rw [Relocation.insertion_span_around (by omega) (by omega),
      Token.relocateAll_behind hplaces (by omega), List.cons_append]
    exact .string hread (hmore.later _)
  · obtain ⟨hqstop, -⟩ := h.bounds hplaces
    obtain ⟨y, rfl, rfl, hy⟩ := exists_append_of_stop hread hstop (by omega)
    rw [← hq] at hy
    rw [hbefore (by omega), Relocation.insertion_span (by omega) (by omega), List.append_assoc]
    refine .string (hagain _ ((upTo_blockComment inside behind behind).append y)) ?_
    exact ih (front ++ '"' :: used) y behind (by rw [htext, hused]; simp)
      (by rw [byteLength_append, hfront, hq]) rfl hy h

/-- No token stops in a gap, so the comment stands further on. -/
theorem gap {r : Except ScanError (Scanned Unit cs)}
    (hclose : ¬(c = '\x7d' ∧ depth = 0 ∧ nested)) (hc : c ≠ '"') (hgap : scanTrivia c pos cs = some r)
    (hread : Reads r () q mid) (hmore : ReadsCode nested depth q mid ts p rest)
    (ih : TakesComment inside stop text nested depth q mid ts p rest) :
    TakesComment inside stop text nested depth pos (c :: cs) ts p rest := by
  intro front x behind htext hfront hcs hstop h
  obtain ⟨hlt, -⟩ := h.bounds hmore.laidOut
  obtain ⟨used, rfl, rfl, hagain⟩ := scanTrivia_again hgap hread
  obtain ⟨y, rfl, rfl, hy⟩ :=
    exists_append_of_stop (show c :: used ++ mid = x ++ behind from hcs) hstop (by omega)
  obtain ⟨r', hgap', hread'⟩ := hagain pos (y ++ (blockComment inside ++ behind))
    (head?_append_of_ne_nil [] (ne_nil_of_lt hy hlt) _ _)
  have hmore' := ih (front ++ c :: used) y behind (by rw [htext]; simp)
    (by rw [byteLength_append, hfront]) rfl hy h
  rw [List.append_assoc]
  exact .gap hclose hc hgap' hread' hmore'

/-- The comment stands behind the token, which is no slash then, or further on. -/
theorem token {kind : TokenKind} (hslash : ¬Text.EndsAt text stop '/') (hin : IsInside inside)
    (hclose : ¬(c = '\x7d' ∧ depth = 0 ∧ nested)) (hc : c ≠ '"') (hgap : scanTrivia c pos cs = none)
    (htoken : Reads (scanToken c pos cs) kind q mid)
    (hmore : ReadsCode nested (braceDepth depth kind) q mid ts p rest)
    (ih : TakesComment inside stop text nested (braceDepth depth kind) q mid ts p rest) :
    TakesComment inside stop text nested depth pos (c :: cs) (⟨kind, ⟨pos, q⟩⟩ :: ts) p rest := by
  intro front x behind htext hfront hcs hstop h
  have hplaces := hmore.laidOut
  have hkind := isPlain_of_scanToken htoken
  obtain ⟨used, rfl, hq, hagain⟩ := scanToken_again htoken
  replace hagain := hagain pos
  rw [← hq] at hagain
  have hlt : pos < q := by
    rw [hq]
    exact Nat.lt_add_of_pos_right (byteLength_pos (List.cons_ne_nil c used))
  rw [Token.relocateAll_cons _ hmore.tokens_ne_nil, TokenKind.relocate_of_isPlain _ hkind]
  rcases h.of_cons with ⟨hclosed, -, -⟩ | ⟨part, hpart, -⟩ | h
  · obtain rfl : q = stop := hclosed
    obtain ⟨y, rfl, rfl, hy⟩ :=
      exists_append_of_stop (show c :: used ++ mid = x ++ behind from hcs) hstop hq.symm.le
    obtain rfl := eq_nil_of_stop hy hq
    rw [Relocation.insertion_span hlt (Nat.le_refl q),
      Token.relocateAll_behind hplaces (Nat.le_refl q), List.append_nil]
    have hgap' : scanTrivia c pos (used ++ (blockComment inside ++ behind)) = none := by
      by_cases hused : used = []
      · refine scanTrivia_eq_none_of_ne hgap ?_ pos _
        rintro rfl
        refine hslash ⟨front, used ++ behind, htext, ?_⟩
        rw [hfront, hq, hused]
        rfl
      · exact scanTrivia_eq_none_of_head hgap (head?_append_of_ne_nil [] hused _ _) pos
    refine .token hclose hc hgap' (hagain _ (upTo_blockComment inside behind behind)) ?_
    exact .behind_comment hin.isComment (hmore.later _)
  · rw [TokenKind.parts_of_isPlain hkind] at hpart
    exact nomatch hpart
  · obtain ⟨hqstop, -⟩ := h.bounds hplaces
    obtain ⟨y, rfl, rfl, hy⟩ :=
      exists_append_of_stop (show c :: used ++ mid = x ++ behind from hcs) hstop (by omega)
    rw [← hq] at hy
    have hhead := head?_append_of_ne_nil used (ne_nil_of_lt hy hqstop)
      (blockComment inside ++ behind) behind
    have hmore' := ih (front ++ c :: used) y behind (by rw [htext]; simp)
      (by rw [byteLength_append, hfront, hq]) rfl hy h
    rw [Relocation.insertion_span (by omega) (by omega), List.append_assoc]
    exact .token hclose hc (scanTrivia_eq_none_of_head hgap hhead pos)
      (hagain _ ((upTo_blockComment inside behind behind).append y)) hmore'

end TakesComment

namespace BodyTakesComment

/-- The comment stands in this template, or in one further on. -/
theorem code (hclose : scanClosing raw pos ('$' :: '\x7b' :: cs) = none)
    (hcode : ReadsCode true 0 (pos + 2) cs ts q mid) (hmore : ReadsBody raw q mid b p rest)
    (ihcode : TakesComment inside stop text true 0 (pos + 2) cs ts q mid)
    (ih : BodyTakesComment inside stop text raw q mid b p rest) :
    BodyTakesComment inside stop text raw pos ('$' :: '\x7b' :: cs) (b.addPart ts) p rest := by
  intro front x behind htext hfront hcs hstop h
  obtain ⟨part, hpart, h⟩ := h
  have hplaces := hcode.laidOut
  obtain ⟨m, -, hinner⟩ := hmore.laidOut
  have hlead : pos + byteLength ['$', '\x7b'] = pos + 2 := rfl
  rw [StringBody.relocate_addPart]
  rcases List.mem_cons.1 hpart with rfl | hpart
  · obtain ⟨hlt, hle⟩ := h.bounds hplaces
    obtain ⟨y, rfl, rfl, hy⟩ := exists_append_of_stop
      (show ['$', '\x7b'] ++ cs = x ++ behind from hcs) hstop (by omega)
    have hread := ihcode (front ++ ['$', '\x7b']) y behind (by rw [htext]; simp)
      (by rw [byteLength_append, hfront]; rfl) rfl hy h
    have hmoved : b.relocate (.insertion stop (byteLength (blockComment inside)))
        = b.relocate (.shift (byteLength (blockComment inside))) :=
      StringBody.relocate_congr (hinner.relocate_behind hle)
    rw [hmoved]
    refine .code (scanClosing_eq_none hclose ?_ pos) hread (hmore.later _)
    exact (((upTo_blockComment inside behind behind).append y).cons _).cons _
  · obtain ⟨used, -, hused, hq, hcode'⟩ := hcode.again
    obtain ⟨hlt, -⟩ := Token.Closes.bounds_parts ⟨part, hpart, h⟩ hinner
    obtain ⟨y, rfl, rfl, hy⟩ := exists_append_of_stop
      (show ['$', '\x7b'] ++ used ++ mid = x ++ behind by rw [← hcs, hused]; rfl) hstop
      (by rw [byteLength_append]; omega)
    have hend : pos + byteLength (['$', '\x7b'] ++ used) = q := by
      rw [byteLength_append]
      omega
    rw [hend] at hy
    have ha := (upTo_blockComment inside behind behind).append y
    have hread := hcode' 0 (y ++ (blockComment inside ++ behind)) ha (absurd · Bool.noConfusion)
    rw [Token.relocateAll_shift_zero] at hread
    have hread' := ih (front ++ (['$', '\x7b'] ++ used)) y behind (by rw [htext, hused]; simp)
      (by rw [byteLength_append, hfront, hend]) rfl hy ⟨part, hpart, h⟩
    rw [Token.relocateAll_before hplaces hlt, List.append_assoc, List.append_assoc]
    refine .code (scanClosing_eq_none hclose ?_ pos) hread hread'
    exact ((hused ▸ ha.append used).cons _).cons _

theorem escape (hclose : scanClosing raw pos ('\\' :: c :: cs) = none) (hraw : ¬raw)
    (hmore : ReadsBody raw (pos + 1 + c.utf8Size) cs b p rest)
    (ih : BodyTakesComment inside stop text raw (pos + 1 + c.utf8Size) cs b p rest) :
    BodyTakesComment inside stop text raw pos ('\\' :: c :: cs) (b.addChar (unescape c)) p rest := by
  intro front x behind htext hfront hcs hstop h
  obtain ⟨m, -, hinner⟩ := hmore.laidOut
  obtain ⟨hlt, -⟩ := Token.Closes.bounds_parts h hinner
  have hend : pos + byteLength ['\\', c] = pos + 1 + c.utf8Size := (Nat.add_assoc pos 1 _).symm
  obtain ⟨y, rfl, rfl, hy⟩ := exists_append_of_stop
    (show ['\\', c] ++ cs = x ++ behind from hcs) hstop (by omega)
  rw [hend] at hy
  have hread := ih (front ++ ['\\', c]) y behind (by rw [htext]; simp)
    (by rw [byteLength_append, hfront, hend]) rfl hy h
  refine .escape (scanClosing_eq_none hclose ?_ pos) hraw hread
  exact (((upTo_blockComment inside behind behind).append y).cons _).cons _

/-- No comment stands behind a name without braces, since a dollar stands before it. -/
theorem name {name : List Char} (hclose : scanClosing raw pos ('$' :: cs) = none)
    (hc : cs.head?.any startsName) (hname : (scanRun continuesName (pos + 1) cs).Is name q mid)
    (hmore : ReadsBody raw q mid b p rest)
    (ih : BodyTakesComment inside stop text raw q mid b p rest) :
    BodyTakesComment inside stop text raw pos ('$' :: cs) (b.addPart (namePart name (pos + 1) q)) p
      rest := by
  intro front x behind htext hfront hcs hstop h
  obtain ⟨part, hpart, h⟩ := h
  obtain ⟨m, -, hinner⟩ := hmore.laidOut
  obtain ⟨rfl, hq, hname'⟩ := scanRun_name_again hc hname
  rcases List.mem_cons.1 hpart with rfl | hpart
  · rcases h.of_cons with ⟨-, -, hdollar⟩ | ⟨part, hpart, -⟩ | h
    · exact absurd ⟨front, name ++ mid, htext, by rw [hfront]; rfl⟩ hdollar
    · rw [TokenKind.parts_of_isPlain (isPlain_ofWord _)] at hpart
      exact nomatch hpart
    · exact absurd h Token.Closes.not_eof
  obtain ⟨hlt, -⟩ := Token.Closes.bounds_parts ⟨part, hpart, h⟩ hinner
  have hend : pos + byteLength ('$' :: name) = q := by
    rw [byteLength_cons, hq, show '$'.utf8Size = 1 from rfl, Nat.add_assoc]
  obtain ⟨y, rfl, rfl, hy⟩ := exists_append_of_stop
    (show '$' :: name ++ mid = x ++ behind from hcs) hstop (by omega)
  rw [hend] at hy
  have ha := (upTo_blockComment inside behind behind).append y
  obtain ⟨hc', hrun⟩ := hname' (pos + 1) _ ha
  rw [← hq] at hrun
  have hread := ih (front ++ '$' :: name) y behind (by rw [htext]; simp)
    (by rw [byteLength_append, hfront, hend]) rfl hy ⟨part, hpart, h⟩
  have hstays : Token.relocateAll (.insertion stop (byteLength (blockComment inside)))
      (namePart name (pos + 1) q) = namePart name (pos + 1) q := by
    have hlast : (Relocation.insertion stop (byteLength (blockComment inside))).last ⟨q, q⟩
        = ⟨q, q⟩ := if_pos hlt
    rw [relocateAll_namePart, Relocation.insertion_span (by omega) (by omega), hlast]
    rfl
  rw [StringBody.relocate_addPart, hstays, List.append_assoc]
  exact .name (scanClosing_eq_none hclose ((ha.append name).cons _) pos) hc' hrun hread

theorem char (hclose : scanClosing raw pos (c :: cs) = none) (hc : IsPlain raw c cs)
    (hmore : ReadsBody raw (pos + c.utf8Size) cs b p rest)
    (ih : BodyTakesComment inside stop text raw (pos + c.utf8Size) cs b p rest) :
    BodyTakesComment inside stop text raw pos (c :: cs) (b.addChar c) p rest := by
  intro front x behind htext hfront hcs hstop h
  obtain ⟨m, -, hinner⟩ := hmore.laidOut
  obtain ⟨hlt, -⟩ := Token.Closes.bounds_parts h hinner
  obtain ⟨y, rfl, rfl, hy⟩ := exists_append_of_stop
    (show [c] ++ cs = x ++ behind from hcs) hstop (Nat.le_of_lt hlt)
  have ha := (upTo_blockComment inside behind behind).append y
  have hread := ih (front ++ [c]) y behind (by rw [htext]; simp)
    (by rw [byteLength_append, hfront]; rfl) rfl hy h
  exact .char (scanClosing_eq_none hclose (ha.cons c) pos) (hc.upTo ha) hread

end BodyTakesComment

mutual

/-- Code with a comment put behind a token of it. By induction on how the code is read. -/
theorem ReadsCode.takesComment (hslash : ¬Text.EndsAt text stop '/') (hin : IsInside inside)
    {nested : Bool} {depth pos p : Nat} {cs rest : List Char} {ts : List Token} :
    ReadsCode nested depth pos cs ts p rest →
      TakesComment inside stop text nested depth pos cs ts p rest
  | .done | .close => fun _ _ _ _ _ _ _ h => absurd h Token.Closes.not_eof
  | .string hbody hmore =>
    .string hin hbody hmore (hbody.takesComment hslash hin) (hmore.takesComment hslash hin)
  | .gap hclose hc hgap hread hmore =>
    .gap hclose hc hgap hread hmore (hmore.takesComment hslash hin)
  | .token hclose hc hgap htoken hmore =>
    .token hslash hin hclose hc hgap htoken hmore (hmore.takesComment hslash hin)

/-- A string with a comment put behind a token of a template in it. -/
theorem ReadsBody.takesComment (hslash : ¬Text.EndsAt text stop '/') (hin : IsInside inside)
    {raw : Bool} {pos p : Nat} {cs rest : List Char} {b : StringBody} :
    ReadsBody raw pos cs b p rest → BodyTakesComment inside stop text raw pos cs b p rest
  | .close _ => fun _ _ _ _ _ _ _ h => absurd h (by simp)
  | .code hclose hcode hmore =>
    .code hclose hcode hmore (hcode.takesComment hslash hin) (hmore.takesComment hslash hin)
  | .escape hclose hraw hmore => .escape hclose hraw hmore (hmore.takesComment hslash hin)
  | .name hclose hc hname hmore => .name hclose hc hname hmore (hmore.takesComment hslash hin)
  | .char hclose hc hmore => .char hclose hc hmore (hmore.takesComment hslash hin)

end

end

namespace Token

/-- The tokens of a text with a comment put behind one of them are those of the text, moved. -/
theorem scan_insertComment {inside : List Char} (hin : IsInside inside) {x behind : List Char}
    {ts : List Token} (h : scan (String.ofList (x ++ behind)) = .ok ts)
    (hslash : x.getLast? ≠ some '/') (hclosed : Closes (x ++ behind) (byteLength x) ts) :
    scan (String.ofList (x ++ (blockComment inside ++ behind)))
      = .ok (relocateAll (.insertion (byteLength x) (byteLength (blockComment inside))) ts) := by
  obtain ⟨p, rest, hcode⟩ := scan_eq_ok_iff.1 h
  exact scan_eq_ok_iff.2 ⟨_, _, hcode.takesComment (fun h => hslash (Text.endsAt_append.1 h)) hin
    [] x behind rfl rfl rfl (Nat.zero_add _).symm hclosed⟩

end Token

/-! ## Places that stay -/

namespace Token

theorem exists_mem_relocateAll (r : Relocation) {ts : List Token} {t : Token} (ht : t ∈ ts) :
    ∃ atEnd, t.relocate r atEnd ∈ relocateAll r ts := by
  induction ts with
  | nil => exact nomatch ht
  | cons u ts ih =>
    rw [relocateAll]
    rcases List.mem_cons.1 ht with rfl | ht
    · exact ⟨_, List.mem_cons_self ..⟩
    · obtain ⟨atEnd, hmem⟩ := ih ht
      exact ⟨atEnd, List.mem_cons_of_mem _ hmem⟩

theorem relocateAll_mem_parts (r : Relocation) {part : List Token} {k : TokenKind}
    (hpart : part ∈ k.parts) : relocateAll r part ∈ (k.relocate r).parts := by
  cases k
  case template parts =>
    rw [TokenKind.relocate, TokenKind.parts, relocateParts_eq_map]
    exact List.mem_map_of_mem hpart
  all_goals cases hpart

/-- Where nothing changes up to the offset, a comment may stand there as before. -/
theorem Closes.relocate {front a b : List Char} {ts : List Token} {r : Relocation}
    (h : Closes (front ++ a) (byteLength front) ts)
    (hts : ∀ us, Within ts us → ∀ t ∈ us, t.kind.isEof = false → t.span.start < t.span.stop)
    (hstart : ∀ x < byteLength front, r.start x = x) (hstop : r.stop (byteLength front) = byteLength front) :
    Closes (front ++ b) (byteLength front) (relocateAll r ts) := by
  induction h with
  | @token ts t ht hs hkind hname =>
    obtain ⟨atEnd, hmem⟩ := exists_mem_relocateAll r ht
    have hlt := hts ts .self t ht hkind
    have hspan : (t.relocate r atEnd).span = r.span t.span :=
      span_relocate r (by rw [hkind, Bool.and_false])
    refine .token hmem ?_ ?_ ?_
    · rw [hspan, Relocation.span, hs, hstop]
    · rw [kind_relocate, TokenKind.isEof_relocate, hkind]
    · rintro ⟨g, k, hsplit, heq⟩
      rw [hspan, Relocation.span, hstart _ (by omega)] at heq
      have hlength : byteLength (g ++ ['$']) ≤ byteLength front := by
        rw [byteLength_append, byteLength_cons, byteLength_nil]
        dsimp only at heq
        omega
      obtain ⟨z, hz, -⟩ := eq_append_of_byteLength_le
        (show g ++ ['$'] ++ k = front ++ b by rw [hsplit]; simp) hlength
      exact hname ⟨g, z ++ a, by rw [hz]; simp, heq⟩
  | @part ts part t ht hpart _ ih =>
    obtain ⟨atEnd, hmem⟩ := exists_mem_relocateAll r ht
    refine .part hmem ?_ (ih fun us hus => hts us ?_)
    · rw [kind_relocate]
      exact relocateAll_mem_parts r hpart
    · exact (Within.part .self ht hpart).trans hus

end Token

end FrameCheck
