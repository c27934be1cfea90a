import FrameCheck.Text.Position
import FrameCheck.Text.Search
import Mathlib.Data.List.Infix

/-!
# Parts and lines of a text

A part occurs in a text when the text has it in one piece, and each line of a text is a piece
of it. Between two offsets on the bounds of characters stands a piece of the text too.

* `Text.IsBound` : the offsets at which characters start, or the text ends.
* `Text.contains_iff` : which parts occur.
* `Text.lines_of_newline`, `Text.lines_of_last` : the lines of a text, one by one.
* `Text.IsLine` : a line of a text, with what stands before and behind it.
* `Text.lines_getElem?_of_ne` : a change in one line leaves the others.
* `Text.lines_getElem?_eq_some_iff` : the line of a number.
-/

namespace FrameCheck

/-! ## Bounds of characters -/

theorem byteLength_pos {cs : List Char} (h : cs ≠ []) : 0 < byteLength cs := by
  obtain ⟨c, cs, rfl⟩ := List.exists_cons_of_ne_nil h
  exact Nat.add_pos_left c.utf8Size_pos _

/-- What is read up to a place is read from what stands before it. -/
theorem eq_append_of_byteLength_le {used mid x behind : List Char}
    (h : used ++ mid = x ++ behind) (hle : byteLength used ≤ byteLength x) :
    ∃ y, x = used ++ y ∧ mid = y ++ behind := by
  rcases List.append_eq_append_iff.1 h with ⟨y, hx, hmid⟩ | ⟨y, hused, hbehind⟩
  · exact ⟨y, hx, hmid⟩
  · have hy : y = [] := by
      by_contra hne
      have hpos : 0 < byteLength y := byteLength_pos hne
      rw [hused, byteLength_append] at hle
      omega
    subst hy
    exact ⟨[], by simpa using hused.symm, by simpa using hbehind.symm⟩

namespace Text

/-- A character of the text starts at the offset, or the text ends there. -/
def IsBound (text : List Char) (offset : Nat) : Prop :=
  ∃ before behind, text = before ++ behind ∧ byteLength before = offset

/-- Between two bounds stands a piece of the text. -/
theorem IsBound.exists_between {text : List Char} {x y : Nat} (hx : IsBound text x)
    (hy : IsBound text y) (h : x ≤ y) : ∃ before between behind,
      text = before ++ (between ++ behind) ∧ byteLength before = x ∧
        byteLength (before ++ between) = y := by
  obtain ⟨before, rest, rfl, rfl⟩ := hx
  obtain ⟨before', behind, heq, rfl⟩ := hy
  obtain ⟨between, rfl, rfl⟩ := eq_append_of_byteLength_le heq h
  exact ⟨before, between, behind, rfl, rfl, rfl⟩

/-! ## Parts -/

theorem contains_iff {part cs : List Char} : contains part cs = true ↔ part <:+: cs := by
  unfold contains
  induction cs with
  | nil =>
    rw [cut?, List.infix_nil]
    cases part <;> simp
  | cons c cs ih =>
    rw [cut?, List.infix_cons_iff, ← ih, ← List.isPrefixOf_iff_prefix]
    by_cases hp : part.isPrefixOf (c :: cs) = true
    · simp [hp]
    · simp [hp]

theorem contains_of_isInfix {part cs ds : List Char} (h : cs <:+: ds)
    (hp : contains part cs = true) : contains part ds = true :=
  contains_iff.2 ((contains_iff.1 hp).trans h)

/-! ## Lines -/

/-- The end of a line or of the text comes next. -/
def EndsLine (behind : List Char) : Prop := ∀ c, behind.head? = some c → c = '\n'

theorem EndsLine.nil : EndsLine [] := nofun

theorem EndsLine.newline (rest : List Char) : EndsLine ('\n' :: rest) :=
  fun _ hc => (Option.some.inj hc).symm

/-- A line without the carriage return that belongs to its end. -/
def chomp (line : List Char) : List Char :=
  if line.getLast? = some '\r' then line.dropLast else line

theorem chomp_isPrefix (line : List Char) : chomp line <+: line := by
  unfold chomp
  split
  · exact line.dropLast_prefix
  · exact List.prefix_refl line

theorem takeWhile_newline {line : List Char} (h : '\n' ∉ line) {behind : List Char}
    (hb : EndsLine behind) :
    (line ++ behind).takeWhile (· != '\n') = line ∧
      (line ++ behind).dropWhile (· != '\n') = behind := by
  have hline : ∀ c ∈ line, (c != '\n') = true := fun c hc =>
    bne_iff_ne.2 fun heq => h (heq ▸ hc)
  rw [List.takeWhile_append_of_pos hline, List.dropWhile_append_of_pos hline]
  cases behind with
  | nil => simp
  | cons c behind =>
    obtain rfl := hb c rfl
    simp

/-- A line that a line break ends. -/
theorem lines_of_newline {line : List Char} (h : '\n' ∉ line) (rest : List Char) :
    lines (line ++ '\n' :: rest) = chomp line :: lines rest := by
  obtain ⟨ht, hd⟩ := takeWhile_newline h (EndsLine.newline rest)
  obtain ⟨c, cs, hcs⟩ : ∃ c cs, line ++ '\n' :: rest = c :: cs := by
    cases line <;> exact ⟨_, _, rfl⟩
  rw [hcs] at ht hd ⊢
  rw [lines]
  split
  · next hnil => exact absurd (hd.symm.trans hnil) (List.cons_ne_nil _ _)
  · next d rest' hrest =>
    obtain ⟨-, rfl⟩ := List.cons.inj (hd.symm.trans hrest)
    rw [ht]
    rfl

/-- The last line, if it is not empty. -/
theorem lines_of_last {line : List Char} (h : '\n' ∉ line) (hne : line ≠ []) :
    lines line = [line] := by
  obtain ⟨ht, hd⟩ := takeWhile_newline h EndsLine.nil
  rw [List.append_nil] at ht hd
  obtain ⟨c, cs, rfl⟩ := List.exists_cons_of_ne_nil hne
  rw [lines]
  split
  · rw [ht]
  · next hrest => exact absurd (hd.symm.trans hrest) (List.cons_ne_nil _ _).symm

/-- Induction from line to line. -/
theorem lines_induction {P : List Char → Prop} (hlast : ∀ line, '\n' ∉ line → P line)
    (hline : ∀ line rest, '\n' ∉ line → P rest → P (line ++ '\n' :: rest)) (cs : List Char) :
    P cs := by
  by_cases h : '\n' ∈ cs
  · obtain ⟨line, rest, rfl, hl⟩ := List.eq_append_cons_of_mem h
    exact hline line rest hl (lines_induction hlast hline rest)
  · exact hlast cs h
termination_by cs.length
decreasing_by simp_all; omega

theorem isInfix_of_mem_lines {line cs : List Char} (h : line ∈ lines cs) : line <:+: cs := by
  induction cs using lines_induction with
  | hlast cs hcs =>
    by_cases hne : cs = []
    · subst hne
      rw [lines] at h
      cases h
    · rw [lines_of_last hcs hne, List.mem_singleton] at h
      exact h ▸ List.infix_refl line
  | hline first rest hfirst ih =>
    rw [lines_of_newline hfirst, List.mem_cons] at h
    rcases h with rfl | h
    · exact (chomp_isPrefix first).isInfix.trans (List.prefix_append first _).isInfix
    · exact (ih h).trans ((List.suffix_cons _ rest).trans (List.suffix_append first _)).isInfix

/-! ## One line of a text -/

/-- Nothing, or a line break, stands last. -/
def StartsLine (head : List Char) : Prop := ∀ c, head.getLast? = some c → c = '\n'

/-- A text is `head`, the line of number `k` without its line break, and `behind`. -/
structure IsLine (cs : List Char) (k : Nat) (head line behind : List Char) : Prop where
  split : cs = head ++ (line ++ behind)
  number : k = head.count '\n' + 1
  starts : StartsLine head
  unbroken : '\n' ∉ line
  ends : EndsLine behind

/-- There is one line more than there are line breaks. -/
theorem exists_isLine {cs : List Char} {n : Nat} (h : n ≤ cs.count '\n') :
    ∃ head line behind, IsLine cs (n + 1) head line behind := by
  induction cs using lines_induction generalizing n with
  | hlast cs hcs =>
    obtain rfl : n = 0 := by
      rw [List.count_eq_zero.2 hcs] at h
      omega
    exact ⟨[], cs, [], by simp, rfl, nofun, hcs, EndsLine.nil⟩
  | hline first rest hfirst ih =>
    cases n with
    | zero => exact ⟨[], first, '\n' :: rest, rfl, rfl, nofun, hfirst, EndsLine.newline rest⟩
    | succ n =>
      rw [List.count_append, List.count_eq_zero.2 hfirst, List.count_cons_self] at h
      obtain ⟨head, line, behind, rfl, hk, hhead, hline, hb⟩ := ih (by omega : n ≤ rest.count '\n')
      refine ⟨first ++ '\n' :: head, line, behind, by simp, ?_, ?_, hline, hb⟩
      · rw [List.count_append, List.count_eq_zero.2 hfirst, List.count_cons_self, hk]
        omega
      · intro c hc
        cases head with
        | nil => simpa using hc.symm
        | cons d head => exact hhead c (by simpa using hc)

/-- What stands before a line is lines of its own. -/
theorem lines_append {head : List Char} (hhead : StartsLine head) (rest : List Char) :
    lines (head ++ rest) = lines head ++ lines rest ∧
      (lines head).length = head.count '\n' := by
  induction head using lines_induction with
  | hlast head h =>
    obtain rfl : head = [] := by
      by_contra hne
      have hlast := List.getLast_mem hne
      rw [hhead _ (List.getLast?_eq_some_getLast hne)] at hlast
      exact h hlast
    rw [lines]
    exact ⟨rfl, rfl⟩
  | hline line more hline ih =>
    obtain ⟨happend, hlength⟩ := ih fun c hc => hhead c (by
      cases more with
      | nil => cases hc
      | cons d more => simpa using hc)
    rw [List.append_assoc, List.cons_append, lines_of_newline hline, lines_of_newline hline,
      happend, List.length_cons, hlength, List.count_append, List.count_eq_zero.2 hline,
      List.count_cons_self]
    exact ⟨rfl, by omega⟩

theorem lines_getElem?_self {head : List Char} (hhead : StartsLine head) (rest : List Char) :
    (lines (head ++ rest))[head.count '\n']? = (lines rest).head? := by
  obtain ⟨happend, hlength⟩ := lines_append hhead rest
  rw [happend, ← hlength, List.getElem?_append_right (Nat.le_refl _), Nat.sub_self,
    List.head?_eq_getElem?]

section

variable {head behind : List Char} (hhead : StartsLine head) (hb : EndsLine behind)

include hb

theorem tail_lines {line : List Char} (h : '\n' ∉ line) :
    (lines (line ++ behind)).tail = (lines behind).tail := by
  cases behind with
  | nil =>
    by_cases hne : line = []
    · rw [hne, List.nil_append]
    · rw [List.append_nil, lines_of_last h hne, lines]
      rfl
  | cons c behind =>
    obtain rfl := hb c rfl
    rw [lines_of_newline h, ← List.nil_append ('\n' :: behind), lines_of_newline (by simp)]
    rfl

/-- A line that ends in no carriage return. -/
theorem head?_lines {line : List Char} (h : '\n' ∉ line) {c : Char}
    (hc : line.getLast? = some c) (hreturn : c ≠ '\r') :
    (lines (line ++ behind)).head? = some line := by
  cases behind with
  | nil =>
    have hne : line ≠ [] := by
      rintro rfl
      cases hc
    rw [List.append_nil, lines_of_last h hne]
    rfl
  | cons d behind =>
    obtain rfl := hb d rfl
    rw [lines_of_newline h, chomp, if_neg]
    · rfl
    · rw [hc]
      exact fun heq => hreturn (Option.some.inj heq)

include hhead

/-- A change in one line leaves the others. -/
theorem lines_getElem?_of_ne {line line' : List Char} (h : '\n' ∉ line) (h' : '\n' ∉ line')
    {n : Nat} (hn : n ≠ head.count '\n') :
    (lines (head ++ (line' ++ behind)))[n]? = (lines (head ++ (line ++ behind)))[n]? := by
  obtain ⟨happend, hlength⟩ := lines_append hhead (line ++ behind)
  obtain ⟨happend', -⟩ := lines_append hhead (line' ++ behind)
  rw [happend, happend']
  rcases Nat.lt_or_gt_of_ne hn with hlt | hgt
  · rw [List.getElem?_append_left (hlength ▸ hlt), List.getElem?_append_left (hlength ▸ hlt)]
  · rw [List.getElem?_append_right (by omega), List.getElem?_append_right (by omega), hlength]
    obtain ⟨i, hi⟩ := Nat.exists_eq_add_of_lt hgt
    rw [hi, show head.count '\n' + i + 1 - head.count '\n' = i + 1 by omega,
      ← List.getElem?_tail, ← List.getElem?_tail, tail_lines hb h, tail_lines hb h']

end

/-! ## The list of lines -/

/-- The first line, if the text is not empty : all of it up to its end. -/
theorem head?_lines_eq {whole behind : List Char} (h : '\n' ∉ whole) (hb : EndsLine behind) :
    (lines (whole ++ behind)).head? =
      if behind = [] then (if whole = [] then none else some whole) else some (chomp whole) := by
  cases behind with
  | nil =>
    rw [List.append_nil, if_pos rfl]
    by_cases hne : whole = []
    · rw [if_pos hne, hne, lines, List.head?_nil]
    · rw [if_neg hne, lines_of_last h hne, List.head?_cons]
  | cons c behind =>
    obtain rfl := hb c rfl
    rw [if_neg (List.cons_ne_nil _ _), lines_of_newline h, List.head?_cons]

theorem IsLine.lines_getElem? {text head whole behind : List Char} {n : Nat}
    (h : IsLine text (n + 1) head whole behind) : (lines text)[n]? =
      if behind = [] then (if whole = [] then none else some whole) else some (chomp whole) := by
  obtain rfl : n = head.count '\n' := Nat.succ.inj h.number
  rw [h.split, lines_getElem?_self h.starts, head?_lines_eq h.unbroken h.ends]

/-- There are no more lines than line breaks, but for the last one. -/
theorem length_lines_le (text : List Char) : (lines text).length ≤ text.count '\n' + 1 := by
  induction text using lines_induction with
  | hlast line h =>
    by_cases hne : line = []
    · rw [hne, lines]
      exact Nat.zero_le _
    · rw [lines_of_last h hne]
      exact Nat.succ_le_succ (Nat.zero_le _)
  | hline line rest h ih =>
    rw [lines_of_newline h, List.length_cons, List.count_append, List.count_cons_self]
    omega

/-- The line of a number is the text from its start to its end, if this is a line break without the
carriage return before that. The last line is there if it is not empty. -/
theorem lines_getElem?_eq_some_iff {text line : List Char} {n : Nat} :
    (lines text)[n]? = some line ↔ ∃ head whole behind, IsLine text (n + 1) head whole behind ∧
      (whole = [] → behind ≠ []) ∧ line = if behind = [] then whole else chomp whole := by
  constructor
  · intro h
    have hn : n ≤ text.count '\n' := by
      have hlt := (List.getElem?_eq_some_iff.1 h).1
      have hle := length_lines_le text
      omega
    obtain ⟨head, whole, behind, hline⟩ := exists_isLine hn
    rw [hline.lines_getElem?] at h
    refine ⟨head, whole, behind, hline, ?_, ?_⟩
    · rintro rfl rfl
      simp at h
    · split at h
      · split at h <;> simp_all
      · simp_all
  · rintro ⟨head, whole, behind, hline, hwhole, rfl⟩
    rw [hline.lines_getElem?]
    split
    · rw [if_neg fun hnil => hwhole hnil ‹_›]
    · rfl

end Text

end FrameCheck
