import FrameCheck.Proofs.Rising
import FrameCheck.Proofs.Text.Lines
import FrameCheck.Proofs.Token.Code

/-!
# The places of tokens

The places of a list of tokens are listed in the order of the text: where a token starts, the
places of its templates, and where it stops. In a text all tokens start at different offsets,
and all stop at different offsets. Tokens are known from their kinds and places.

* `Token.ext_places` : tokens of the same kinds at the same places are the same.
* `ReadsCode.laidOut` : the places of the tokens of a text rise.
-/

namespace FrameCheck

/-- A place at which a token starts or stops, or the span of the end of a text or a template. -/
inductive TokenPlace where
  | start (offset : Nat)
  | stop (offset : Nat)
  | last (span : Span)

namespace TokenPlace

def start? : TokenPlace → Option Nat
  | start n => some n
  | _ => none

def stop? : TokenPlace → Option Nat
  | stop n => some n
  | _ => none

def last? : TokenPlace → Option Span
  | last s => some s
  | _ => none

def relocate (r : Relocation) : TokenPlace → TokenPlace
  | start n => start (r.start n)
  | stop n => stop (r.stop n)
  | last s => last (r.last s)

end TokenPlace

mutual

/-- The places of the templates of a kind. -/
def TokenKind.places : TokenKind → List TokenPlace
  | .template parts => Token.partsPlaces parts
  | _ => []

/-- The places of a token and its templates; `atEnd` says that it is the last of its list. -/
def Token.places (atEnd : Bool) : Token → List TokenPlace
  | ⟨kind, span⟩ =>
    if atEnd && kind.isEof then [.last span]
    else .start span.start :: (kind.places ++ [.stop span.stop])

def Token.allPlaces : List Token → List TokenPlace
  | [] => []
  | t :: ts => t.places ts.isEmpty ++ Token.allPlaces ts

def Token.partsPlaces : List (List Token) → List TokenPlace
  | [] => []
  | ts :: parts => Token.allPlaces ts ++ Token.partsPlaces parts

end

/-! ## Relocated places -/

section

variable (r : Relocation)

mutual

theorem TokenKind.places_relocate : ∀ k : TokenKind,
    (k.relocate r).places = k.places.map (TokenPlace.relocate r)
  | .template parts => by
    rw [TokenKind.relocate, TokenKind.places, TokenKind.places, Token.partsPlaces_relocate parts]
  | .name _ | .integer _ | .long _ | .double _ | .single _ | .text _ | .character _
  | .keyword _ | .mark _ | .newline | .eof => by simp [TokenKind.relocate, TokenKind.places]

theorem Token.places_relocate (atEnd : Bool) : ∀ t : Token,
    (t.relocate r atEnd).places atEnd = (t.places atEnd).map (TokenPlace.relocate r)
  | ⟨kind, span⟩ => by
    rw [Token.relocate, Token.places, Token.places, TokenKind.isEof_relocate]
    by_cases hend : (atEnd && kind.isEof) = true
    · rw [if_pos hend, if_pos hend, if_pos hend]
      rfl
    · rw [if_neg hend, if_neg hend, if_neg hend, TokenKind.places_relocate kind]
      simp [TokenPlace.relocate, Relocation.span]

theorem Token.allPlaces_relocateAll : ∀ ts : List Token,
    Token.allPlaces (Token.relocateAll r ts) = (Token.allPlaces ts).map (TokenPlace.relocate r)
  | [] => by rw [Token.relocateAll, Token.allPlaces, List.map_nil]
  | t :: ts => by
    rw [Token.relocateAll, Token.allPlaces, Token.allPlaces, Token.isEmpty_relocateAll,
      Token.places_relocate ts.isEmpty t, Token.allPlaces_relocateAll ts, List.map_append]

theorem Token.partsPlaces_relocate : ∀ parts : List (List Token),
    Token.partsPlaces (Token.relocateParts r parts)
      = (Token.partsPlaces parts).map (TokenPlace.relocate r)
  | [] => by rw [Token.relocateParts, Token.partsPlaces, List.map_nil]
  | ts :: parts => by
    rw [Token.relocateParts, Token.partsPlaces, Token.partsPlaces, Token.allPlaces_relocateAll ts,
      Token.partsPlaces_relocate parts, List.map_append]

end

end

/-! ## Bare tokens -/

/-- All offsets zero, so that only kinds are left. -/
def Relocation.bare : Relocation where
  start _ := 0
  stop _ := 0
  last _ := ⟨0, 0⟩
  start_mono _ _ _ := Nat.le_refl 0
  stop_mono _ _ _ := Nat.le_refl 0

section

variable (r : Relocation)

mutual

theorem TokenKind.bare_relocate : ∀ k : TokenKind,
    (k.relocate r).relocate .bare = k.relocate .bare
  | .template parts => by
    rw [TokenKind.relocate, TokenKind.relocate, TokenKind.relocate,
      Token.bareParts_relocate parts]
  | .name _ | .integer _ | .long _ | .double _ | .single _ | .text _ | .character _
  | .keyword _ | .mark _ | .newline | .eof => by simp [TokenKind.relocate]

theorem Token.bare_relocate (atEnd : Bool) : ∀ t : Token,
    (t.relocate r atEnd).relocate .bare atEnd = t.relocate .bare atEnd
  | ⟨kind, span⟩ => by
    rw [Token.relocate, Token.relocate, Token.relocate, TokenKind.isEof_relocate,
      TokenKind.bare_relocate kind]
    rfl

theorem Token.bareAll_relocate : ∀ ts : List Token,
    Token.relocateAll .bare (Token.relocateAll r ts) = Token.relocateAll .bare ts
  | [] => by rw [Token.relocateAll]
  | t :: ts => by
    rw [Token.relocateAll, Token.relocateAll, Token.relocateAll, Token.isEmpty_relocateAll,
      Token.bare_relocate ts.isEmpty t, Token.bareAll_relocate ts]

theorem Token.bareParts_relocate : ∀ parts : List (List Token),
    Token.relocateParts .bare (Token.relocateParts r parts) = Token.relocateParts .bare parts
  | [] => by rw [Token.relocateParts]
  | ts :: parts => by
    rw [Token.relocateParts, Token.relocateParts, Token.relocateParts, Token.bareAll_relocate ts,
      Token.bareParts_relocate parts]

end

end

theorem TokenKind.eq_eof {k : TokenKind} (h : k.isEof = true) : k = .eof := by
  cases k <;> first | rfl | exact nomatch h

/-- The number of places is known from the kinds. -/
theorem Token.length_places_of_bare {atEnd : Bool} {t t' : Token}
    (h : t.relocate .bare atEnd = t'.relocate .bare atEnd) :
    (t.places atEnd).length = (t'.places atEnd).length := by
  have hplaces := congrArg (fun t => (Token.places atEnd t).length) h
  simpa only [Token.places_relocate, List.length_map] using hplaces

theorem Token.length_allPlaces_of_bare {ts ts' : List Token}
    (h : Token.relocateAll .bare ts = Token.relocateAll .bare ts') :
    (Token.allPlaces ts).length = (Token.allPlaces ts').length := by
  have hplaces := congrArg (fun ts => (Token.allPlaces ts).length) h
  simpa only [Token.allPlaces_relocateAll, List.length_map] using hplaces

mutual

theorem TokenKind.ext_places : ∀ {k k' : TokenKind}, k.relocate .bare = k'.relocate .bare →
    k.places = k'.places → k = k'
  | .template parts, k', h, hp => by
    rw [TokenKind.relocate] at h
    rcases k'.relocate_cases .bare with ⟨parts', rfl⟩ | ⟨hk, hne⟩
    · rw [TokenKind.relocate] at h
      exact congrArg _ (Token.ext_partsPlaces (TokenKind.template.inj h) hp)
    · exact absurd (hk.symm.trans h.symm) (hne _)
  | .name _, k', h, _ | .integer _, k', h, _ | .long _, k', h, _ | .double _, k', h, _
  | .single _, k', h, _ | .text _, k', h, _ | .character _, k', h, _ | .keyword _, k', h, _
  | .mark _, k', h, _ | .newline, k', h, _ | .eof, k', h, _ => by
    rcases k'.relocate_cases .bare with ⟨parts', rfl⟩ | ⟨hk, -⟩
    · simp only [TokenKind.relocate] at h
      exact nomatch h
    · simpa only [TokenKind.relocate] using h.trans hk

theorem Token.ext_places {atEnd : Bool} : ∀ {t t' : Token},
    t.relocate .bare atEnd = t'.relocate .bare atEnd → t.places atEnd = t'.places atEnd → t = t'
  | ⟨kind, span⟩, ⟨kind', span'⟩, h, hp => by
    have hkind : kind.relocate .bare = kind'.relocate .bare := by
      simpa only [Token.kind_relocate] using congrArg Token.kind h
    have heof : kind.isEof = kind'.isEof := by
      rw [← kind.isEof_relocate .bare, hkind, kind'.isEof_relocate]
    have hends (h : kind'.isEof = true) : kind = .eof ∧ kind' = .eof :=
      ⟨TokenKind.eq_eof (heof.trans h), TokenKind.eq_eof h⟩
    rw [Token.places, Token.places, heof] at hp
    by_cases hend : (atEnd && kind'.isEof) = true
    · rw [if_pos hend, if_pos hend] at hp
      obtain rfl := TokenPlace.last.inj (List.cons.inj hp).1
      obtain ⟨rfl, rfl⟩ := hends (Bool.and_eq_true_iff.1 hend).2
      rfl
    · rw [if_neg hend, if_neg hend] at hp
      obtain ⟨hstart, hp⟩ := List.cons.inj hp
      obtain ⟨hinner, hstop⟩ := List.append_inj' hp rfl
      rw [TokenKind.ext_places hkind hinner, show span = span' from
        congr (congrArg Span.mk (TokenPlace.start.inj hstart)) (TokenPlace.stop.inj (List.cons.inj hstop).1)]

theorem Token.ext_allPlaces : ∀ {ts ts' : List Token},
    Token.relocateAll .bare ts = Token.relocateAll .bare ts' →
      Token.allPlaces ts = Token.allPlaces ts' → ts = ts'
  | [], [], _, _ => rfl
  | [], _ :: _, h, _ | _ :: _, [], h, _ => by
    rw [Token.relocateAll, Token.relocateAll] at h
    exact nomatch h
  | t :: ts, t' :: ts', h, hp => by
    rw [Token.relocateAll, Token.relocateAll] at h
    obtain ⟨ht, hts⟩ := List.cons.inj h
    have hempty : ts.isEmpty = ts'.isEmpty := by
      rw [← Token.isEmpty_relocateAll .bare ts, hts, Token.isEmpty_relocateAll]
    rw [← hempty] at ht
    rw [Token.allPlaces, Token.allPlaces, ← hempty] at hp
    obtain ⟨hpt, hpts⟩ := List.append_inj hp (Token.length_places_of_bare ht)
    rw [Token.ext_places ht hpt, Token.ext_allPlaces hts hpts]

theorem Token.ext_partsPlaces : ∀ {parts parts' : List (List Token)},
    Token.relocateParts .bare parts = Token.relocateParts .bare parts' →
      Token.partsPlaces parts = Token.partsPlaces parts' → parts = parts'
  | [], [], _, _ => rfl
  | [], _ :: _, h, _ | _ :: _, [], h, _ => by
    rw [Token.relocateParts, Token.relocateParts] at h
    exact nomatch h
  | ts :: parts, ts' :: parts', h, hp => by
    rw [Token.relocateParts, Token.relocateParts] at h
    obtain ⟨hts, hparts⟩ := List.cons.inj h
    rw [Token.partsPlaces, Token.partsPlaces] at hp
    obtain ⟨hpts, hpparts⟩ := List.append_inj hp (Token.length_allPlaces_of_bare hts)
    rw [Token.ext_allPlaces hts hpts, Token.ext_partsPlaces hparts hpparts]

end

/-- Relocations that agree on the places of tokens give the same tokens. -/
theorem Token.relocateAll_congr {r r' : Relocation} {ts : List Token}
    (h : ∀ x ∈ Token.allPlaces ts, x.relocate r = x.relocate r') :
    Token.relocateAll r ts = Token.relocateAll r' ts := by
  refine Token.ext_allPlaces ?_ ?_
  · rw [Token.bareAll_relocate, Token.bareAll_relocate]
  · rw [Token.allPlaces_relocateAll, Token.allPlaces_relocateAll]
    exact List.map_congr_left h

/-! ## The places of a text -/

/-- Tokens between two offsets: they start one behind the other, stop one behind the other,
and the ends of templates lie between. -/
structure LaidOut (lo hi : Nat) (places : List TokenPlace) : Prop where
  starts : Rising lo hi (places.filterMap TokenPlace.start?)
  stops : Rising (lo + 1) (hi + 1) (places.filterMap TokenPlace.stop?)
  lasts : ∀ s ∈ places.filterMap TokenPlace.last?, lo ≤ s.start ∧ s.start ≤ hi ∧ s.stop = s.start

namespace LaidOut

variable {lo mid hi : Nat} {xs ys : List TokenPlace}

theorem nil (h : lo ≤ hi) : LaidOut lo hi [] where
  starts := h
  stops := Nat.succ_le_succ h
  lasts := nofun

theorem append (hx : LaidOut lo mid xs) (hy : LaidOut mid hi ys) : LaidOut lo hi (xs ++ ys) where
  starts := by
    rw [List.filterMap_append]
    exact hy.starts.append hx.starts
  stops := by
    rw [List.filterMap_append]
    exact hy.stops.append hx.stops
  lasts := by
    intro s hs
    rw [List.filterMap_append, List.mem_append] at hs
    have hlo := hx.starts.le
    have hhi := hy.starts.le
    rcases hs with hs | hs
    · obtain ⟨h1, h2, h3⟩ := hx.lasts s hs
      exact ⟨h1, by omega, h3⟩
    · obtain ⟨h1, h2, h3⟩ := hy.lasts s hs
      exact ⟨by omega, h2, h3⟩

theorem mono {lo' hi' : Nat} (h : LaidOut lo hi xs) (hlo : lo' ≤ lo) (hhi : hi ≤ hi') :
    LaidOut lo' hi' xs where
  starts := (h.starts.weaken hlo).mono hhi
  stops := (h.stops.weaken (Nat.succ_le_succ hlo)).mono (Nat.succ_le_succ hhi)
  lasts := by
    intro s hs
    obtain ⟨h1, h2, h3⟩ := h.lasts s hs
    exact ⟨by omega, by omega, h3⟩

/-- A token from `lo` to `hi` around what stands in it. -/
theorem token {lo' : Nat} (h : LaidOut lo' mid xs) (hlo : lo < lo') (hhi : mid < hi) :
    LaidOut lo hi (.start lo :: (xs ++ [.stop hi])) where
  starts := by
    have hinner : Rising (lo + 1) hi (xs.filterMap TokenPlace.start?) :=
      (h.starts.weaken hlo).mono (Nat.le_of_lt hhi)
    have heq : (TokenPlace.start lo :: (xs ++ [.stop hi])).filterMap TokenPlace.start?
        = lo :: xs.filterMap TokenPlace.start? := by
      simp [List.filterMap_cons, TokenPlace.start?]
    rw [heq]
    exact ⟨Nat.le_refl lo, hinner⟩
  stops := by
    have hlast : Rising (mid + 1) (hi + 1) [hi] := ⟨hhi, Nat.le_refl _⟩
    have hinner : Rising (lo + 1) (mid + 1) (xs.filterMap TokenPlace.stop?) :=
      h.stops.weaken (by omega)
    simpa [List.filterMap_cons, TokenPlace.stop?] using hlast.append hinner
  lasts := by
    intro s hs
    have hs : s ∈ xs.filterMap TokenPlace.last? := by simpa [List.filterMap_cons, TokenPlace.last?] using hs
    obtain ⟨h1, h2, h3⟩ := h.lasts s hs
    exact ⟨by omega, by omega, h3⟩

/-- A token without templates. -/
theorem plain (h : lo < hi) : LaidOut lo hi [.start lo, .stop hi] where
  starts := ⟨Nat.le_refl lo, h⟩
  stops := ⟨h, Nat.le_refl (hi + 1)⟩
  lasts := nofun

theorem last (lo : Nat) : LaidOut lo lo [.last ⟨lo, lo⟩] where
  starts := Nat.le_refl lo
  stops := Nat.le_refl (lo + 1)
  lasts := by
    intro s hs
    obtain rfl : s = ⟨lo, lo⟩ := by simpa [TokenPlace.last?] using hs
    exact ⟨Nat.le_refl lo, Nat.le_refl lo, rfl⟩

end LaidOut

theorem Token.allPlaces_cons {kind : TokenKind} {span : Span} {ts : List Token} (h : ts ≠ []) :
    Token.allPlaces (⟨kind, span⟩ :: ts)
      = .start span.start :: (kind.places ++ [.stop span.stop]) ++ Token.allPlaces ts := by
  obtain ⟨t, ts, rfl⟩ := List.exists_cons_of_ne_nil h
  rw [Token.allPlaces, Token.places]
  rfl

theorem TokenKind.places_of_isPlain {kind : TokenKind} (h : kind.isPlain = true) :
    kind.places = [] := by
  cases kind
  case template parts => exact nomatch h
  all_goals rw [places]; exact nofun

theorem StringBody.places_kind (b : StringBody) : b.kind.places = Token.partsPlaces b.parts := by
  rcases b with ⟨chars, _ | ⟨part, parts⟩⟩
  · simp [kind, TokenKind.places, Token.partsPlaces]
  · simp [kind, TokenKind.places]

theorem pos_lt_scanOpening (pos : Nat) (cs : List Char) : pos < (scanOpening (pos + 1) cs).pos := by
  unfold scanOpening
  split
  · show pos < pos + 1 + 2
    omega
  · exact Nat.lt_succ_self pos

mutual

/-- The places of what is read lie between the offsets at which it was read. -/
theorem ReadsCode.laidOut {nested : Bool} {depth pos : Nat} {cs : List Char} {ts : List Token}
    {p : Nat} {rest : List Char} : ReadsCode nested depth pos cs ts p rest →
      LaidOut pos p (Token.allPlaces ts)
  | .done => by
    simp only [Token.allPlaces, Token.places]
    exact .last _
  | .close => by
    simp only [Token.allPlaces, Token.places]
    exact (LaidOut.last _).mono (Nat.le_refl _) (Nat.le_succ _)
  | @ReadsCode.string nested depth pos q p cs mid rest body ts hbody hmore => by
    obtain ⟨m, hm, hinner⟩ := hbody.laidOut
    rw [Token.allPlaces_cons hmore.tokens_ne_nil, StringBody.places_kind]
    exact (LaidOut.token hinner (pos_lt_scanOpening pos cs) hm).append hmore.laidOut
  | @ReadsCode.gap nested depth pos q p c cs mid rest ts r hclose hc hgap hread hmore => by
    obtain ⟨used, -, hq, -⟩ := scanTrivia_again hgap hread
    exact hmore.laidOut.mono (by omega) (Nat.le_refl p)
  | @ReadsCode.token nested depth pos q p c cs mid rest kind ts hclose hc hgap htoken hmore => by
    obtain ⟨used, -, hq, -⟩ := (scanToken_lexeme c).again htoken
    have hlt : pos < q := by
      have : 0 < byteLength ([c] ++ used) := byteLength_pos (List.cons_ne_nil _ _)
      omega
    rw [Token.allPlaces_cons hmore.tokens_ne_nil,
      TokenKind.places_of_isPlain (isPlain_of_scanToken htoken)]
    exact (LaidOut.plain hlt).append hmore.laidOut

/-- The places of a string lie before its closing quotes. -/
theorem ReadsBody.laidOut {raw : Bool} {pos : Nat} {cs : List Char} {b : StringBody}
    {p : Nat} {rest : List Char} : ReadsBody raw pos cs b p rest →
      ∃ m, m < p ∧ LaidOut pos m (Token.partsPlaces b.parts)
  | @ReadsBody.close raw pos cs s hclose => by
    obtain ⟨used, hne, -, hp, -⟩ := scanClosing_again hclose
    have hlt := byteLength_pos hne
    rw [Token.partsPlaces]
    exact ⟨pos, by omega, LaidOut.nil (Nat.le_refl pos)⟩
  | @ReadsBody.code raw pos q p cs mid rest ts b hclose hcode hmore => by
    obtain ⟨m, hm, hinner⟩ := hmore.laidOut
    refine ⟨m, hm, ?_⟩
    rw [show (b.addPart ts).parts = ts :: b.parts from rfl, Token.partsPlaces]
    exact (hcode.laidOut.append hinner).mono (Nat.le_add_right pos 2) (Nat.le_refl m)
  | @ReadsBody.escape raw pos p c cs rest b hclose hraw hmore => by
    obtain ⟨m, hm, hinner⟩ := hmore.laidOut
    exact ⟨m, hm, hinner.mono (by omega) (Nat.le_refl m)⟩
  | @ReadsBody.name raw pos q p cs mid rest name b hclose hc hname hmore => by
    obtain ⟨m, hm, hinner⟩ := hmore.laidOut
    refine ⟨m, hm, ?_⟩
    have hlt : pos + 1 < q := by
      obtain ⟨d, cs, rfl, hd⟩ := exists_cons_of_any_head hc
      have hne : (d :: cs).takeWhile continuesName ≠ [] := by
        rw [List.takeWhile_cons_of_pos (continuesName_of_startsName hd)]
        exact List.cons_ne_nil _ _
      have hq : pos + 1 + byteLength ((d :: cs).takeWhile continuesName) = q := hname.pos
      have := byteLength_pos hne
      omega
    rw [show (b.addPart (namePart name (pos + 1) q)).parts = namePart name (pos + 1) q :: b.parts
      from rfl, Token.partsPlaces, namePart, Token.allPlaces_cons (List.cons_ne_nil _ _),
      TokenKind.places_of_isPlain (isPlain_ofWord _)]
    simp only [Token.allPlaces, Token.places]
    exact (((LaidOut.plain hlt).append (.last q)).append hinner).mono (Nat.le_succ pos)
      (Nat.le_refl m)
  | @ReadsBody.char raw pos p c cs rest b hclose hc hmore => by
    obtain ⟨m, hm, hinner⟩ := hmore.laidOut
    exact ⟨m, hm, hinner.mono (by omega) (Nat.le_refl m)⟩

end

end FrameCheck
