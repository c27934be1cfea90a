import FrameCheck.Proofs.Text.Lines
import Mathlib.Data.List.Count
import Mathlib.Data.List.TakeWhile

/-!
# Positions in a text

The position of an offset is read from what stands before it. Behind a line break the lines
count from there, and where a text is lengthened in one line the offsets behind that line have
the positions they had. The number of a line break and the number of characters behind it give an
offset back, so positions rise with offsets; and the line of a position is the one that the list of
lines has under its number (`Text.lines_getElem?_eq_some_iff`).

* `Position.ofOffset_of_le` : what stands behind an offset does not count.
* `Position.ofOffset_insert` : positions behind a place where text was put in.
* `Position.ofOffset_append` : the position of an offset on the bound of a character.
* `Position.ofOffset_rising` : offsets, positions and lines.
-/

namespace FrameCheck.Position

/-- What stands behind the offset does not count. -/
theorem locateFrom_append_of_le {offset pos lineStart : Nat} {here : Position}
    {before : List Char} (h : offset ≤ pos + byteLength before) (behind : List Char) :
    locateFrom offset pos lineStart here (before ++ behind)
      = locateFrom offset pos lineStart here before := by
  induction before generalizing pos lineStart here with
  | nil =>
    cases behind with
    | nil => rfl
    | cons c behind => exact if_pos h
  | cons c before ih =>
    rw [byteLength_cons] at h
    rw [List.cons_append, locateFrom, locateFrom]
    split
    · rfl
    split
    · rfl
    split
    · next hc =>
      subst hc
      exact ih (by rwa [← Nat.add_assoc] at h)
    · exact ih (by omega)

/-- A text is passed, and its line breaks are counted, on the way to what stands behind it. -/
theorem locateFrom_append_of_ge (before : List Char) (pos lineStart : Nat) (here : Position) :
    ∃ lineStart' column, ∀ offset behind, pos + byteLength before ≤ offset →
      locateFrom offset pos lineStart here (before ++ behind)
        = locateFrom offset (pos + byteLength before) lineStart'
          ⟨here.line + before.count '\n', column⟩ behind := by
  induction before generalizing pos lineStart here with
  | nil => exact ⟨lineStart, here.column, fun _ _ _ => rfl⟩
  | cons c before ih =>
    have hpos := Char.utf8Size_pos c
    have hpass (offset : Nat) (h : pos + byteLength (c :: before) ≤ offset) :
        ¬offset ≤ pos ∧ ¬offset < pos + c.utf8Size := by
      rw [byteLength_cons] at h
      omega
    by_cases hc : c = '\n'
    · subst hc
      obtain ⟨lineStart', column, hmore⟩ := ih (pos + 1) (pos + 1) ⟨here.line + 1, 1⟩
      refine ⟨lineStart', column, fun offset behind h => ?_⟩
      obtain ⟨h1, h2⟩ := hpass offset h
      have hlength : pos + byteLength ('\n' :: before) = pos + 1 + byteLength before :=
        (Nat.add_assoc pos 1 _).symm
      rw [hlength] at h ⊢
      rw [List.cons_append, locateFrom, if_neg h1, if_neg h2, if_pos rfl, hmore offset behind h,
        List.count_cons_self]
      congr 2
      exact Nat.add_right_comm here.line 1 _
    · obtain ⟨lineStart', column, hmore⟩ :=
        ih (pos + c.utf8Size) lineStart ⟨here.line, here.column + 1⟩
      refine ⟨lineStart', column, fun offset behind h => ?_⟩
      obtain ⟨h1, h2⟩ := hpass offset h
      rw [byteLength_cons, ← Nat.add_assoc] at h ⊢
      rw [List.cons_append, locateFrom, if_neg h1, if_neg h2, if_neg hc, hmore offset behind h,
        List.count_cons_of_ne hc]

/-- All offsets may be greater by `n`. -/
theorem locateFrom_shift (n : Nat) {offset pos lineStart : Nat} {here : Position}
    {cs : List Char} : locateFrom (offset + n) (pos + n) (lineStart + n) here cs
      = locateFrom offset pos lineStart here cs := by
  induction cs generalizing pos lineStart here with
  | nil => rfl
  | cons c cs ih =>
    rw [locateFrom, locateFrom, Nat.add_sub_add_right, Nat.add_right_comm pos n 1,
      Nat.add_right_comm pos n c.utf8Size, ih, ih]
    simp only [Nat.add_le_add_iff_right, Nat.add_lt_add_iff_right]

section

variable {before behind : List Char} {offset : Nat}

theorem ofOffset_of_le (h : offset ≤ byteLength before) (behind : List Char) :
    ofOffset (before ++ behind) offset = ofOffset before offset :=
  locateFrom_append_of_le (by omega) behind

/-- Behind a line break the lines count from there. -/
theorem ofOffset_newline (h : byteLength before < offset) :
    ofOffset (before ++ '\n' :: behind) offset
      = locateFrom offset (byteLength before + 1) (byteLength before + 1)
        ⟨before.count '\n' + 2, 1⟩ behind := by
  obtain ⟨lineStart, column, hmore⟩ := locateFrom_append_of_ge before 0 0 ⟨1, 1⟩
  have hnewline : '\n'.utf8Size = 1 := rfl
  rw [ofOffset, hmore offset ('\n' :: behind) (by omega), Nat.zero_add, locateFrom,
    if_neg (by omega), if_neg (by omega), if_pos rfl]
  congr 2
  exact congrArg (· + 1) (Nat.add_comm 1 _)

/-- From the end of a text on all offsets are in its last line. -/
theorem line_ofOffset_of_ge (h : byteLength before ≤ offset) :
    (ofOffset before offset).line = before.count '\n' + 1 := by
  obtain ⟨lineStart, column, hmore⟩ := locateFrom_append_of_ge before 0 0 ⟨1, 1⟩
  have hend := hmore offset [] (by omega)
  rw [List.append_nil] at hend
  rw [ofOffset, hend]
  exact Nat.add_comm 1 _

/-- Where text is put in at the end of a line, an offset behind has the position it had, unless
it is in that line. -/
theorem ofOffset_insert {note : List Char} (hnote : '\n' ∉ note) (hb : Text.EndsLine behind)
    (h : byteLength before ≤ offset) :
    ofOffset (before ++ (note ++ behind)) (offset + byteLength note)
        = ofOffset (before ++ behind) offset ∨
      (ofOffset (before ++ (note ++ behind)) (offset + byteLength note)).line
          = before.count '\n' + 1 ∧
        (ofOffset (before ++ behind) offset).line = before.count '\n' + 1 := by
  have hlength : byteLength (before ++ note) = byteLength before + byteLength note :=
    byteLength_append before note
  have hcount : (before ++ note).count '\n' = before.count '\n' := by
    rw [List.count_append, List.count_eq_zero.2 hnote, Nat.add_zero]
  rw [← List.append_assoc]
  rcases behind with _ | ⟨c, behind⟩
  · rw [List.append_nil, List.append_nil, line_ofOffset_of_ge h, line_ofOffset_of_ge (by omega),
      hcount]
    exact Or.inr ⟨rfl, rfl⟩
  obtain rfl := hb c rfl
  rcases Nat.eq_or_lt_of_le h with rfl | hlt
  · rw [ofOffset_of_le (Nat.le_refl _), ofOffset_of_le (Nat.le_of_eq hlength.symm),
      line_ofOffset_of_ge (Nat.le_refl _), line_ofOffset_of_ge (Nat.le_of_eq hlength), hcount]
    exact Or.inr ⟨rfl, rfl⟩
  · rw [ofOffset_newline hlt, ofOffset_newline (by omega), hcount, hlength, Nat.add_right_comm,
      locateFrom_shift]
    exact Or.inl rfl

end

/-! ## Positions of bounds -/

/-- From the end of a text on all offsets have the position of the end. -/
theorem ofOffset_of_ge {text : List Char} {offset : Nat} (h : byteLength text ≤ offset) :
    ofOffset text offset = ofOffset text (byteLength text) := by
  obtain ⟨lineStart, column, hmore⟩ := locateFrom_append_of_ge text 0 0 ⟨1, 1⟩
  have hoffset := hmore offset [] (by omega)
  have hend := hmore (byteLength text) [] (by omega)
  rw [List.append_nil, locateFrom] at hoffset hend
  exact hoffset.trans hend.symm

/-- Each character of a line takes one column. -/
theorem locateFrom_line {line : List Char} (hline : '\n' ∉ line) (pos lineStart : Nat)
    (here : Position) :
    locateFrom (pos + byteLength line) pos lineStart here line
      = ⟨here.line, here.column + line.length⟩ := by
  induction line generalizing pos here with
  | nil => rfl
  | cons c line ih =>
    have hpos := Char.utf8Size_pos c
    obtain ⟨hc, hline⟩ := not_or.1 (mt List.mem_cons.2 hline)
    rw [byteLength_cons, locateFrom, if_neg (by omega), if_neg (by omega), if_neg (Ne.symm hc),
      ← Nat.add_assoc, ih hline, List.length_cons]
    exact congrArg (Position.mk here.line) (Nat.add_right_comm here.column 1 _)

/-- In a line the columns count from its start. -/
theorem ofOffset_line {head line : List Char} (hhead : Text.StartsLine head) (hline : '\n' ∉ line)
    (behind : List Char) :
    ofOffset (head ++ line ++ behind) (byteLength (head ++ line))
      = ⟨head.count '\n' + 1, line.length + 1⟩ := by
  rw [ofOffset_of_le (Nat.le_refl _)]
  rcases List.eq_nil_or_concat' head with rfl | ⟨before, c, rfl⟩
  · have hfirst := locateFrom_line hline 0 0 ⟨1, 1⟩
    rw [Nat.zero_add] at hfirst
    rw [List.nil_append, ofOffset, hfirst, List.count_nil, Nat.add_comm]
  · obtain rfl : c = '\n' := hhead c List.getLast?_concat
    have hsplit : before ++ ['\n'] ++ line = before ++ '\n' :: line := List.append_assoc ..
    have hlength : byteLength (before ++ '\n' :: line) = byteLength before + 1 + byteLength line := by
      rw [byteLength_append, byteLength_cons, ← Nat.add_assoc]
      rfl
    rw [hsplit, hlength, ofOffset_newline (by omega), locateFrom_line hline, List.count_append,
      Nat.add_comm 1]
    rfl

/-- A text ends in a line, behind the last line break. -/
theorem exists_last_line (before : List Char) : ∃ head line, before = head ++ line ∧
    Text.StartsLine head ∧ '\n' ∉ line ∧
      before.reverse.takeWhile (· != '\n') = line.reverse := by
  refine ⟨(before.reverse.dropWhile (· != '\n')).reverse,
    (before.reverse.takeWhile (· != '\n')).reverse, ?_, fun c hc => ?_, fun hmem => ?_, by simp⟩
  · rw [← List.reverse_append, List.takeWhile_append_dropWhile, List.reverse_reverse]
  · rw [List.getLast?_reverse] at hc
    simpa [hc] using List.head?_dropWhile_not (· != '\n') before.reverse
  · simpa using List.mem_takeWhile_imp (List.mem_reverse.1 hmem)

/-- Lines are told from the line breaks before an offset, and columns from the characters behind
the last of these. -/
theorem ofOffset_append (before behind : List Char) :
    ofOffset (before ++ behind) (byteLength before) =
      ⟨before.count '\n' + 1, (before.reverse.takeWhile (· != '\n')).length + 1⟩ := by
  obtain ⟨head, line, rfl, hhead, hline, hlast⟩ := exists_last_line before
  rw [ofOffset_line hhead hline, hlast, List.length_reverse, List.count_append,
    List.count_eq_zero.2 hline, Nat.add_zero]

/-- An earlier line, or an earlier column of the line. -/
def Before (p q : Position) : Prop := p.line < q.line ∨ p.line = q.line ∧ p.column < q.column

theorem Before.asymm {p q : Position} (h : p.Before q) : ¬q.Before p := by
  unfold Before at *
  omega

theorem before_ofOffset {text : List Char} {x y : Nat} (hx : Text.IsBound text x)
    (hy : Text.IsBound text y) (h : x < y) : (ofOffset text x).Before (ofOffset text y) := by
  obtain ⟨before, between, behind, rfl, rfl, rfl⟩ := hx.exists_between hy h.le
  have hne : between ≠ [] := by
    rintro rfl
    rw [List.append_nil] at h
    exact h.false
  rw [ofOffset_append, ← List.append_assoc, ofOffset_append]
  rw [List.count_append]
  by_cases hbetween : '\n' ∈ between
  · have hcount := List.count_pos_iff.2 hbetween
    exact Or.inl (by show before.count '\n' + 1 < _ + 1; omega)
  · have hcount := List.count_eq_zero.2 hbetween
    have hpos := List.length_pos_iff.2 hne
    have hline : ∀ c ∈ between.reverse, (c != '\n') = true := fun c hc =>
      bne_iff_ne.2 fun heq => hbetween (heq ▸ List.mem_reverse.1 hc)
    refine Or.inr ⟨by rw [hcount, Nat.add_zero], ?_⟩
    rw [List.reverse_append, List.takeWhile_append_of_pos hline, List.length_append,
      List.length_reverse]
    show _ + 1 < _ + 1
    omega

/-- Offsets on the bounds of characters and positions rise together: an offset has one line more than
there are line breaks before it, and one column more than there are characters behind the last of
these. An offset past the end has the position of the end. A line of the list of lines is the text
from its start to its line break, without the carriage return before that, or to the end. -/
theorem ofOffset_rising (text : List Char) :
    (∀ before behind, text = before ++ behind → ofOffset text (byteLength before) =
      ⟨before.count '\n' + 1, (before.reverse.takeWhile (· != '\n')).length + 1⟩) ∧
    (∀ x y, Text.IsBound text x → Text.IsBound text y →
      (x < y ↔ (ofOffset text x).Before (ofOffset text y))) ∧
    (∀ offset, byteLength text ≤ offset →
      ofOffset text offset = ofOffset text (byteLength text)) ∧
    ∀ n line, (Text.lines text)[n]? = some line ↔ ∃ head whole behind,
      Text.IsLine text (n + 1) head whole behind ∧
        ofOffset text (byteLength head) = ⟨n + 1, 1⟩ ∧ (whole = [] → behind ≠ []) ∧
          line = if behind = [] then whole else Text.chomp whole := by
  refine ⟨?_, fun x y hx hy => ⟨before_ofOffset hx hy, fun h => ?_⟩, fun offset => ofOffset_of_ge,
    fun n line => ?_⟩
  · rintro before behind rfl
    exact ofOffset_append before behind
  · by_contra hle
    rcases Nat.eq_or_lt_of_le (Nat.le_of_not_lt hle) with rfl | hlt
    · exact h.asymm h
    · exact (before_ofOffset hy hx hlt).asymm h
  · rw [Text.lines_getElem?_eq_some_iff]
    constructor
    · rintro ⟨head, whole, behind, hline, hwhole, rfl⟩
      refine ⟨head, whole, behind, hline, ?_, hwhole, rfl⟩
      have hstart := ofOffset_line hline.starts (List.not_mem_nil (a := '\n')) (whole ++ behind)
      rwa [List.append_nil, ← hline.split, ← hline.number] at hstart
    · rintro ⟨head, whole, behind, hline, -, hwhole, rfl⟩
      exact ⟨head, whole, behind, hline, hwhole, rfl⟩

/-- Two characters that stand one below the other, the first of two bytes, and the end of the text. -/
theorem ofOffset_rising_accented :
    let text := "ab\r\nçd\n\nx".toList
    Text.IsBound text 1 ∧ Text.IsBound text 6 ∧ ofOffset text 6 = ⟨2, 2⟩ ∧
      (ofOffset text 1).Before (ofOffset text 6) ∧ byteLength text ≤ 100 ∧
        ofOffset text 100 = ofOffset text (byteLength text) ∧
          (Text.lines text)[0]? = some ['a', 'b'] ∧
            ∃ head whole behind, Text.IsLine text 1 head whole behind ∧
              ['a', 'b'] = if behind = [] then whole else Text.chomp whole := by
  intro text
  obtain ⟨hposition, hrising, hend, hlines⟩ := ofOffset_rising text
  have hone : Text.IsBound text 1 := ⟨['a'], _, rfl, rfl⟩
  have hsix : Text.IsBound text 6 := ⟨['a', 'b', '\r', '\n', 'ç'], _, rfl, by decide⟩
  have hlength : byteLength text ≤ 100 := by decide
  have hfirst : (Text.lines text)[0]? = some ['a', 'b'] := by decide +kernel
  obtain ⟨head, whole, behind, hline, -, -, hab⟩ := (hlines 0 ['a', 'b']).1 hfirst
  exact ⟨hone, hsix, hposition ['a', 'b', '\r', '\n', 'ç'] ['d', '\n', '\n', 'x'] rfl,
    (hrising 1 6 hone hsix).1 (by decide), hlength, hend 100 hlength, hfirst,
    head, whole, behind, hline, hab⟩

end FrameCheck.Position
