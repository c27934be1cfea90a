import FrameCheck.Fixture.Report
import FrameCheck.Proofs.Token.Commented

/-!
# Reading markers back

A text with a marker behind each of some pieces, and no other marker in it, has one expectation for
each of them: that of the diagnostic that the marker was made of. The message must neither open nor
close a comment. The place of the expectation is where its piece ends, or the last one before it
that is not empty, for earlier markers do not count.

* `Text.cut?_append` : a text is cut at the first place where the part stands.
* `Expectation.anchored_marker` : a marker at the end of a text does not count.
* `Expectation.ofText_marked` : the expectations of a text with markers.
-/

namespace FrameCheck

/-! ## Parts of a text -/

theorem byteLength_reverse (cs : List Char) : byteLength cs.reverse = byteLength cs := by
  induction cs with
  | nil => rfl
  | cons c cs ih =>
    rw [List.reverse_cons, byteLength_append, ih, byteLength_cons, byteLength_cons, byteLength_nil]
    omega

namespace Text

/-- No end of the part is a front of it. -/
def Unbordered (part : List Char) : Prop := ∀ n < part.length, 0 < n → ¬part.drop n <+: part

instance (part : List Char) : Decidable (Unbordered part) :=
  inferInstanceAs (Decidable (∀ n < part.length, 0 < n → ¬part.drop n <+: part))

/-- A text is cut where the part stands, if the part does not stand before. -/
theorem cut?_append {part before : List Char} (hpart : Unbordered part) (hne : part ≠ [])
    (hbefore : ¬part <:+: before) (behind : List Char) :
    cut? part (before ++ (part ++ behind)) = some (before, behind) := by
  induction before with
  | nil =>
    obtain ⟨c, more, rfl⟩ := List.exists_cons_of_ne_nil hne
    have hfront : (c :: more).isPrefixOf (c :: (more ++ behind)) = true :=
      List.isPrefixOf_iff_prefix.2 (List.prefix_append (c :: more) behind)
    simp only [List.nil_append, List.cons_append, cut?, hfront, if_true]
    simp
  | cons c before ih =>
    have hno : ¬part <+: c :: (before ++ (part ++ behind)) := by
      intro hfront
      by_cases hle : part.length ≤ (c :: before).length
      · refine hbefore (List.IsPrefix.isInfix ?_)
        exact List.prefix_of_prefix_length_le hfront (List.prefix_append (c :: before) _) hle
      · -- the part would begin again before its end
        obtain ⟨tail, htail⟩ : c :: before <+: part :=
          List.prefix_of_prefix_length_le (List.prefix_append (c :: before) _) hfront (by omega)
        refine hpart (c :: before).length (by omega) (by simp) ?_
        obtain ⟨after, hafter⟩ := hfront
        have hdrop : part.drop (c :: before).length = tail := by
          rw [← htail, List.drop_left]
        rw [hdrop]
        have hrest : tail ++ after = part ++ behind := by
          rw [← htail, List.append_assoc, htail] at hafter
          exact List.append_cancel_left hafter
        refine List.prefix_of_prefix_length_le (List.prefix_append tail after)
          (hrest ▸ List.prefix_append part behind) ?_
        rw [← htail, List.length_append]
        omega
    have hinner := ih fun h => hbefore (h.trans (List.suffix_cons c before).isInfix)
    rw [List.cons_append, cut?, if_neg (by rwa [List.isPrefixOf_iff_prefix]), hinner]
    rfl

theorem cut?_eq_none {part cs : List Char} (h : ¬part <:+: cs) : cut? part cs = none := by
  rw [← contains_iff, contains, Bool.not_eq_true, Option.isSome_eq_false_iff] at h
  exact Option.isNone_iff_eq_none.1 h

/-- A part without a character stands on one side of it. -/
theorem infix_append_cons {part a b : List Char} {c : Char} (hc : c ∉ part)
    (h : part <:+: a ++ c :: b) : part <:+: a ∨ part <:+: b := by
  induction a with
  | nil =>
    rcases List.infix_cons_iff.1 h with hfront | h
    · cases part with
      | nil => exact Or.inl (List.nil_infix)
      | cons d part =>
        obtain ⟨rfl, -⟩ := List.cons_prefix_cons.1 hfront
        exact absurd (List.mem_cons_self ..) hc
    · exact Or.inr h
  | cons d a ih =>
    rcases List.infix_cons_iff.1 h with hfront | h
    · by_cases hle : part.length ≤ (d :: a).length
      · exact Or.inl (List.prefix_of_prefix_length_le hfront
          (List.prefix_append (d :: a) (c :: b)) hle).isInfix
      · have hlonger : d :: a ++ [c] <+: part := by
          have hnext : d :: a ++ [c] <+: d :: a ++ c :: b := ⟨b, by simp⟩
          refine List.prefix_of_prefix_length_le hnext hfront ?_
          simp only [List.length_append, List.length_cons, List.length_nil] at hle ⊢
          omega
        exact absurd (hlonger.subset (by simp)) hc
    · exact (ih h).imp_left fun h => h.trans (List.suffix_cons d a).isInfix

theorem trim_infix (cs : List Char) : trim cs <:+: cs := by
  have hstart : trimStart cs <:+ cs := List.dropWhile_suffix isBlank
  have hend : (trim cs).reverse <:+ (trimStart cs).reverse := by
    rw [trim, List.reverse_reverse]
    exact List.dropWhile_suffix isBlank
  exact (List.reverse_suffix.1 hend).isInfix.trans hstart.isInfix

end Text

/-! ## One marker -/

namespace Diagnostic

/-- What stands in the marker of a diagnostic. -/
def inside (d : Diagnostic) : List Char := d.code.name.toList ++ ':' :: ' ' :: d.message.toList

theorem marker_eq (d : Diagnostic) : d.marker = markerOpen ++ (d.inside ++ markerClose) := by
  simp [marker, inside, show ": ".toList = [':', ' '] from rfl]

theorem marker_eq_blockComment (d : Diagnostic) : d.marker = blockComment ('!' :: d.inside) := by
  rw [marker_eq]
  rfl

/-- The text that the expectation of a marker asks for. -/
def text? (d : Diagnostic) : Option String :=
  let text := Text.trim (' ' :: d.message.toList)
  if text.isEmpty then none else some (String.ofList text)

end Diagnostic

theorem Code.name_unmarked (code : Code) :
    '/' ∉ code.name.toList ∧ '*' ∉ code.name.toList ∧ ':' ∉ code.name.toList := by
  cases code <;> decide +kernel

theorem Code.ofName?_trim_name (code : Code) :
    ofName? (String.ofList (Text.trim code.name.toList)) = some code := by
  cases code <;> decide +kernel

/-- With its code before it a message opens and closes no comment either. -/
theorem Diagnostic.isInside {d : Diagnostic} (h : IsInside d.message.toList) :
    IsInside ('!' :: d.inside) := by
  obtain ⟨hslash, hstar, -⟩ := d.code.name_unmarked
  have hname : '/' ∉ '!' :: (d.code.name.toList ++ [':']) := by simpa using hslash
  have hname' : '*' ∉ '!' :: (d.code.name.toList ++ [':']) := by simpa using hstar
  have hsplit (behind : List Char) : '!' :: d.inside ++ behind
      = '!' :: (d.code.name.toList ++ [':']) ++ ' ' :: (d.message.toList ++ behind) := by
    simp [inside]
  constructor
  · intro hopen
    rw [hsplit] at hopen
    rcases Text.infix_append_cons (by decide) hopen with hopen | hopen
    · exact hname (hopen.subset (by simp))
    · exact h.unopened hopen
  · intro hclose
    rw [← List.append_nil ('!' :: d.inside), hsplit, List.append_nil] at hclose
    rcases Text.infix_append_cons (by decide) hclose with hclose | hclose
    · exact hname' (hclose.subset (by simp))
    · exact h.unclosed hclose

theorem IsInside.not_open {inside : List Char} (h : IsInside inside) : ¬['/', '*'] <:+: inside :=
  fun hopen => h.unopened (hopen.trans (List.prefix_append _ _).isInfix)

namespace Expectation

/-- The code and the text that the marker of a diagnostic holds. -/
theorem readMarker?_inside (d : Diagnostic) :
    readMarker? d.inside = some (d.code, d.text?) := by
  obtain ⟨-, -, hcolon⟩ := d.code.name_unmarked
  have hcut : Text.cut? [':'] d.inside
      = some (d.code.name.toList, ' ' :: d.message.toList) := by
    refine Text.cut?_append (by decide) (by simp) (fun h => hcolon ?_) _
    exact h.subset (List.mem_singleton_self _)
  unfold readMarker?
  rw [hcut, Option.getD_some]
  dsimp only
  rw [Code.ofName?_trim_name]
  rfl

/-- A diagnostic has the text that the expectation of its marker asks for. -/
theorem contains_text? {d : Diagnostic} {text : String} (h : d.text? = some text) :
    Text.contains text.toList d.message.toList = true := by
  unfold Diagnostic.text? at h
  dsimp only at h
  split at h
  · exact nomatch h
  · obtain rfl := Option.some.inj h
    have htrim : Text.trim (' ' :: d.message.toList) = Text.trim d.message.toList := by
      rw [Text.trim, Text.trim, Text.trimStart, List.dropWhile_cons_of_pos (by decide +kernel)]
      rfl
    rw [String.toList_ofList, htrim]
    exact Text.contains_iff.2 (Text.trim_infix _)

/-- An expectation is met by a diagnostic with the code and the message of the marker that it was
read from, at its place. -/
theorem isMetBy_of_text? {e : Expectation} {d d' : Diagnostic} (hcode : e.code = d.code)
    (htext : e.message = d.text?) (hanchor : e.anchor = d'.span.stop) (hcode' : d.code = d'.code)
    (hmessage : d.message = d'.message) : e.isMetBy d' = true := by
  unfold isMetBy
  rw [hanchor, hcode, hcode', htext]
  simp only [beq_self_eq_true, Bool.true_and]
  split
  · next text htext => exact hmessage ▸ contains_text? htext
  · rfl

/-- A marker at the end of a text does not count for the place of the next. -/
theorem anchored_marker {d : Diagnostic} (h : IsInside d.message.toList) (reversed : List Char) :
    anchored (d.marker.reverse ++ reversed) = anchored reversed := by
  have hin := (Diagnostic.isInside h)
  have hunopened : ¬markerOpen <:+: d.inside := fun hopen =>
    hin.not_open (((show ['/', '*'] <:+: markerOpen from ⟨[], ['!'], rfl⟩).trans hopen).trans
      (List.suffix_cons '!' _).isInfix)
  have hunclosed : ¬markerClose <:+: d.inside := fun hclose =>
    hin.unclosed (hclose.trans (List.suffix_cons '!' _).isInfix)
  have hcut : Text.cut? markerOpen.reverse (d.inside.reverse ++ (markerOpen.reverse ++ reversed))
      = some (d.inside.reverse, reversed) :=
    Text.cut?_append (by decide) (by decide) (fun hopen => hunopened (List.reverse_infix.1 hopen)) _
  have hmarker : d.marker.reverse ++ reversed
      = '/' :: '*' :: (d.inside.reverse ++ (markerOpen.reverse ++ reversed)) := by
    rw [Diagnostic.marker_eq, List.reverse_append, List.reverse_append,
      show markerClose.reverse = ['/', '*'] from rfl]
    simp
  have hclose : Text.contains markerClose.reverse d.inside.reverse = false := by
    rw [← Bool.not_eq_true, Text.contains_iff]
    exact fun hclose => hunclosed (List.reverse_infix.1 hclose)
  have htrim : ('/' :: '*' :: (d.inside.reverse ++ (markerOpen.reverse ++ reversed))).dropWhile
      Text.isBlank = '/' :: '*' :: (d.inside.reverse ++ (markerOpen.reverse ++ reversed)) :=
    List.dropWhile_cons_of_neg (by decide +kernel)
  rw [hmarker, anchored]
  split
  · next rest hrest =>
    obtain rfl : d.inside.reverse ++ (markerOpen.reverse ++ reversed) = rest := by
      simpa using htrim.symm.trans hrest
    split
    · next inside before hcut' =>
      obtain ⟨rfl, rfl⟩ : d.inside.reverse = inside ∧ reversed = before := by
        simpa using hcut.symm.trans hcut'
      rw [hclose, if_neg Bool.false_ne_true]
    · next hnone => cases hcut.symm.trans hnone
  · next hnot => exact absurd htrim (hnot _)

/-- A text that ends in neither a blank nor a slash is not shortened. -/
theorem anchored_of_code {c : Char} (hblank : Text.isBlank c = false) (hslash : c ≠ '/')
    (reversed : List Char) : anchored (c :: reversed) = c :: reversed := by
  have htrim : (c :: reversed).dropWhile Text.isBlank = c :: reversed :=
    List.dropWhile_cons_of_neg (by simp [hblank])
  rw [anchored]
  split
  · next rest hrest =>
    rw [htrim] at hrest
    exact absurd (List.cons.inj hrest).1 hslash
  · exact htrim

end Expectation

/-! ## Texts with markers -/

/-- A piece of a text, with a diagnostic whose marker comes behind it. -/
structure MarkedPiece where
  chars : List Char
  diagnostic : Diagnostic

namespace MarkedPiece

/-- The marker can be read, and the piece ends where an expectation can be placed. -/
structure Readable (p : MarkedPiece) : Prop where
  message : IsInside p.diagnostic.message.toList
  ends : ∀ c, p.chars.getLast? = some c → Text.isBlank c = false ∧ c ≠ '/'

/-- The text without the markers. -/
def plain (rest : List Char) : List MarkedPiece → List Char
  | [] => rest
  | p :: ps => p.chars ++ plain rest ps

/-- The text with the markers. -/
def marked (rest : List Char) : List MarkedPiece → List Char
  | [] => rest
  | p :: ps => p.chars ++ (p.diagnostic.marker ++ marked rest ps)

/-- The places of the expectations of a text with markers that starts at `pos`, where `last` is the
place of an expectation before the first piece. -/
def anchors (pos last : Nat) : List MarkedPiece → List Nat
  | [] => []
  | p :: ps =>
    let here := if p.chars = [] then last else pos + byteLength p.chars
    here :: anchors (pos + byteLength p.chars + byteLength p.diagnostic.marker) here ps

end MarkedPiece

namespace Expectation

open MarkedPiece

theorem byteLength_anchored {p : MarkedPiece} (hp : p.Readable) {front : List Char} {last : Nat}
    (hlast : byteLength (anchored front.reverse) = last) :
    byteLength (anchored (p.chars.reverse ++ front.reverse))
      = if p.chars = [] then last else byteLength front + byteLength p.chars := by
  split
  · next hnil => rw [hnil, List.reverse_nil, List.nil_append, hlast]
  · next hne =>
    obtain ⟨hblank, hslash⟩ := hp.ends _ (List.getLast?_eq_some_getLast hne)
    have hcode : anchored (p.chars.reverse ++ front.reverse) = p.chars.reverse ++ front.reverse := by
      rw [← List.dropLast_append_getLast hne, List.reverse_append, List.reverse_singleton,
        List.singleton_append, List.cons_append, anchored_of_code hblank hslash]
    rw [hcode, byteLength_append, byteLength_reverse, byteLength_reverse, Nat.add_comm]

/-- The expectations behind `front` of a text with markers. -/
theorem ofTextAfter_marked {rest : List Char} {pieces : List MarkedPiece} {front : List Char}
    {last : Nat} (hpieces : ∀ p ∈ pieces, p.Readable) (hclear : ¬markerOpen <:+: plain rest pieces)
    (hlast : byteLength (anchored front.reverse) = last) :
    ∃ es, ofTextAfter front.reverse (marked rest pieces) = .ok es ∧
      es.map anchor = anchors (byteLength front) last pieces ∧
      List.Forall₂ (fun e p => e.code = p.diagnostic.code ∧ e.message = p.diagnostic.text?)
        es pieces := by
  induction pieces generalizing front last with
  | nil =>
    refine ⟨[], ?_, rfl, .nil⟩
    rw [marked, ofTextAfter]
    split
    · rfl
    · next skipped behind hcut => cases (Text.cut?_eq_none hclear).symm.trans hcut
  | cons p ps ih =>
    obtain ⟨hp, hps⟩ := List.forall_mem_cons.1 hpieces
    have hin := Diagnostic.isInside hp.message
    have hunclosed : ¬markerClose <:+: p.diagnostic.inside := fun hclose =>
      hin.unclosed (hclose.trans (List.suffix_cons '!' _).isInfix)
    have hopen : Text.cut? markerOpen (marked rest (p :: ps)) = some (p.chars,
        p.diagnostic.inside ++ (markerClose ++ marked rest ps)) := by
      rw [marked, Diagnostic.marker_eq, List.append_assoc, List.append_assoc]
      exact Text.cut?_append (by decide) (by decide)
        (fun h => hclear (h.trans (List.prefix_append _ _).isInfix)) _
    have hclose : Text.cut? markerClose
        (p.diagnostic.inside ++ (markerClose ++ marked rest ps))
          = some (p.diagnostic.inside, marked rest ps) :=
      Text.cut?_append (by decide) (by decide) hunclosed _
    have hplace := byteLength_anchored hp hlast
    have hmarked := anchored_marker hp.message (p.chars.reverse ++ front.reverse)
    have hreverse : (front ++ (p.chars ++ p.diagnostic.marker)).reverse
        = p.diagnostic.marker.reverse ++ (p.chars.reverse ++ front.reverse) := by
      simp
    obtain ⟨es, hes, hanchors, hread⟩ := ih hps
      (fun h => hclear (h.trans (List.suffix_append _ _).isInfix))
      (show byteLength (anchored (front ++ (p.chars ++ p.diagnostic.marker)).reverse) = _ by
        rw [hreverse, hmarked, hplace])
    rw [hreverse] at hes
    rw [byteLength_append, byteLength_append, ← Nat.add_assoc] at hanchors
    rw [ofTextAfter]
    split
    · next hnone => cases hopen.symm.trans hnone
    · next skipped behind hsome =>
      obtain ⟨rfl, rfl⟩ := Prod.mk.inj (Option.some.inj (hopen.symm.trans hsome))
      dsimp only
      split
      · next hnone => cases hclose.symm.trans hnone
      · next inside more hsome =>
        obtain ⟨rfl, rfl⟩ := Prod.mk.inj (Option.some.inj (hclose.symm.trans hsome))
        rw [readMarker?_inside]
        have hmarker : markerOpen ++ p.diagnostic.inside ++ markerClose = p.diagnostic.marker := by
          rw [Diagnostic.marker_eq, List.append_assoc]
        rw [hmarker, hes]
        refine ⟨_, rfl, ?_, .cons ⟨rfl, rfl⟩ hread⟩
        rw [List.map_cons, hanchors, hplace]
        rfl

/-- The expectations of a text with markers are those of the diagnostics of its markers. -/
theorem ofText_marked {rest : List Char} {pieces : List MarkedPiece}
    (hpieces : ∀ p ∈ pieces, p.Readable) (hclear : ¬markerOpen <:+: plain rest pieces) :
    ∃ es, ofText (marked rest pieces) = .ok es ∧ es.map anchor = anchors 0 0 pieces ∧
      List.Forall₂ (fun e p => e.code = p.diagnostic.code ∧ e.message = p.diagnostic.text?)
        es pieces := by
  have hlast : byteLength (anchored ([] : List Char).reverse) = 0 := by
    rw [List.reverse_nil, anchored]
    rfl
  exact ofTextAfter_marked hpieces hclear hlast

end Expectation

end FrameCheck
