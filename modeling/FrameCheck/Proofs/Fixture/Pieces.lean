import FrameCheck.Proofs.Fixture.Markers
import Mathlib.Order.Monotone.Basic

/-!
# Markers cut out and put in

What is left of a text when spans are cut out of it are its other characters (`uncutFrom`), and an
offset goes where as many bytes are left before it (`keptFrom`), so that all offsets of one span go
to one place. Cutting markers out and putting others in is the one and then the other, and text that
is put in at rising offsets stands between pieces of what was left. The pieces tell the whole result:
the markers between them are those of the diagnostics, in the order of the ends of their spans, and
in the order of the list where these are equal.

* `rewrittenFrom_cut` : cutting out and putting in.
* `MarkedPiece.exists_pieces` : a text in pieces that end at given offsets.
* `rewritten_eq_marked` : the source with other markers.
-/

namespace FrameCheck

/-! ## What is left of a text -/

/-- The characters that are left of a text from offset `pos` on when the spans are cut out. -/
def uncutFrom (cuts : List Span) (pos : Nat) : List Char → List Char
  | [] => []
  | c :: cs =>
    if cuts.any fun s => s.start ≤ pos && pos < s.stop then uncutFrom cuts (pos + c.utf8Size) cs
    else c :: uncutFrom cuts (pos + c.utf8Size) cs

/-- How many of the bytes from offset `pos` to an offset are left when the spans are cut out. -/
def keptFrom (cuts : List Span) (pos : Nat) : List Char → Nat → Nat
  | [], _ => 0
  | c :: cs, x =>
    if x ≤ pos then 0
    else
      (if cuts.any fun s => s.start ≤ pos && pos < s.stop then 0 else c.utf8Size)
        + keptFrom cuts (pos + c.utf8Size) cs x

theorem keptFrom_of_le {cuts : List Span} {pos x : Nat} (h : x ≤ pos) (cs : List Char) :
    keptFrom cuts pos cs x = 0 := by
  cases cs with
  | nil => rfl
  | cons c cs => exact if_pos h

theorem keptFrom_mono (cuts : List Span) (pos : Nat) (cs : List Char) :
    Monotone (keptFrom cuts pos cs) := by
  intro x y h
  induction cs generalizing pos with
  | nil => exact Nat.le_refl _
  | cons c cs ih =>
    rw [keptFrom, keptFrom]
    by_cases hx : x ≤ pos
    · rw [if_pos hx]
      exact Nat.zero_le _
    · rw [if_neg hx, if_neg fun hy => hx (Nat.le_trans h hy)]
      exact Nat.add_le_add_left (ih _) _

/-- Offsets past the end go to the end. -/
theorem keptFrom_min (cuts : List Span) (pos x : Nat) (cs : List Char) :
    keptFrom cuts pos cs (min x (pos + byteLength cs)) = keptFrom cuts pos cs x := by
  induction cs generalizing pos with
  | nil => rfl
  | cons c cs ih =>
    have hpos := Char.utf8Size_pos c
    have hle : min x (pos + byteLength (c :: cs)) ≤ pos ↔ x ≤ pos := by
      rw [byteLength_cons]
      omega
    rw [keptFrom, keptFrom, byteLength_cons, ← Nat.add_assoc, ih]
    simp only [← Nat.add_assoc, byteLength_cons] at hle
    simp only [hle]

theorem keptFrom_markerOffset (cuts : List Span) (text : List Char) (d : Diagnostic) :
    keptFrom cuts 0 text (d.markerOffset text) = keptFrom cuts 0 text d.span.stop := by
  have hmin := keptFrom_min cuts 0 d.span.stop text
  rwa [Nat.zero_add] at hmin

theorem uncutFrom_append (cuts : List Span) (pos : Nat) (before behind : List Char) :
    uncutFrom cuts pos (before ++ behind)
      = uncutFrom cuts pos before ++ uncutFrom cuts (pos + byteLength before) behind := by
  induction before generalizing pos with
  | nil => rfl
  | cons c before ih =>
    rw [List.cons_append, uncutFrom, uncutFrom, ih, byteLength_cons, Nat.add_assoc]
    split
    · rfl
    · rw [List.cons_append]

/-- A bound goes where the text before it ends that is left. -/
theorem keptFrom_append (cuts : List Span) (pos : Nat) (before behind : List Char) :
    keptFrom cuts pos (before ++ behind) (pos + byteLength before)
      = byteLength (uncutFrom cuts pos before) := by
  induction before generalizing pos with
  | nil => exact keptFrom_of_le (Nat.le_refl _) _
  | cons c before ih =>
    have hpos := Char.utf8Size_pos c
    rw [List.cons_append, keptFrom, byteLength_cons, ← Nat.add_assoc, if_neg (by omega), ih, uncutFrom]
    split
    · exact Nat.zero_add _
    · rw [byteLength_cons]

theorem Text.IsBound.uncutFrom {text : List Char} {x : Nat} (h : Text.IsBound text x)
    (cuts : List Span) :
    Text.IsBound (uncutFrom cuts 0 text) (keptFrom cuts 0 text x) := by
  obtain ⟨before, behind, rfl, rfl⟩ := h
  have hkept := keptFrom_append cuts 0 before behind
  rw [Nat.zero_add] at hkept
  exact ⟨_, _, uncutFrom_append cuts 0 before behind, hkept.symm⟩

/-! ## Cutting out and putting in -/

theorem rewrittenFrom_nil (cuts : List Span) (pos : Nat) (cs : List Char) :
    rewrittenFrom cuts [] pos cs = uncutFrom cuts pos cs := by
  induction cs generalizing pos with
  | nil => rfl
  | cons c cs ih =>
    rw [rewrittenFrom, uncutFrom, ih, List.takeWhile_nil, List.dropWhile_nil, List.flatMap_nil,
      List.nil_append, ih]

theorem rewritten_nil (text : List Char) (cuts : List Span) :
    rewritten text cuts [] = uncutFrom cuts 0 text := by
  rw [rewritten, List.map_nil, List.mergeSort_nil, rewrittenFrom_nil]

theorem pairwise_dropWhile_lt {α : Type} {key : α → Nat} {l : List α} {n : Nat}
    (h : l.Pairwise fun a b => key a ≤ key b) :
    ∀ x ∈ l.dropWhile fun a => key a ≤ n, n < key x := by
  induction l with
  | nil => exact nofun
  | cons a l ih =>
    obtain ⟨ha, hl⟩ := List.pairwise_cons.1 h
    by_cases hle : key a ≤ n
    · rw [List.dropWhile_cons_of_pos (by simpa using hle)]
      exact ih hl
    · rw [List.dropWhile_cons_of_neg (by simpa using hle)]
      intro x hx
      rcases List.mem_cons.1 hx with rfl | hx
      · omega
      · have := ha x hx
        omega

/-- Cutting spans out and putting text in is the one and then the other. -/
theorem rewrittenFrom_cut (cuts : List Span) {insertions : List (Nat × List Char)}
    (h : insertions.Pairwise fun a b => a.1 ≤ b.1) (pos q : Nat) (cs : List Char) :
    rewrittenFrom cuts insertions pos cs
      = rewrittenFrom [] (insertions.map fun i => (q + keptFrom cuts pos cs i.1, i.2)) q
          (uncutFrom cuts pos cs) := by
  induction cs generalizing insertions pos q with
  | nil => simp [rewrittenFrom, uncutFrom, List.flatMap_map]
  | cons c cs ih =>
    have hsize := Char.utf8Size_pos c
    by_cases hcut : (cuts.any fun s => s.start ≤ pos && pos < s.stop) = true
    · have hkept : (fun i : Nat × List Char => (q + keptFrom cuts pos (c :: cs) i.1, i.2))
          = fun i => (q + keptFrom cuts (pos + c.utf8Size) cs i.1, i.2) := by
        funext i
        rw [keptFrom, if_pos hcut, Nat.zero_add]
        split
        · next hle => rw [keptFrom_of_le (by omega)]
        · rfl
      rw [rewrittenFrom, if_pos hcut, uncutFrom, if_pos hcut, hkept]
      exact ih h _ _
    · have hle (i : Nat × List Char) : q + keptFrom cuts pos (c :: cs) i.1 ≤ q ↔ i.1 ≤ pos := by
        rw [keptFrom, if_neg hcut]
        split <;> omega
      have hahead := pairwise_dropWhile_lt (n := pos) h
      have hkept : (insertions.dropWhile (·.1 ≤ pos)).map
            (fun i => (q + keptFrom cuts pos (c :: cs) i.1, i.2))
          = (insertions.dropWhile (·.1 ≤ pos)).map
            fun i => (q + c.utf8Size + keptFrom cuts (pos + c.utf8Size) cs i.1, i.2) := by
        refine List.map_congr_left fun i hi => ?_
        rw [keptFrom, if_neg (Nat.not_le.2 (hahead i hi)), if_neg hcut, Nat.add_assoc]
      have hcond : ((fun i : Nat × List Char => decide (i.1 ≤ q)) ∘
            fun i : Nat × List Char => (q + keptFrom cuts pos (c :: cs) i.1, i.2))
          = fun i => decide (i.1 ≤ pos) :=
        funext fun i => decide_eq_decide.2 (hle i)
      rw [rewrittenFrom, if_neg hcut, uncutFrom, if_neg hcut, rewrittenFrom, List.any_nil,
        if_neg Bool.false_ne_true, List.takeWhile_map, List.dropWhile_map, hcond, hkept,
        List.flatMap_map, ih (h.sublist (List.dropWhile_sublist _)) _ (q + c.utf8Size)]

/-! ## Text in pieces -/

namespace MarkedPiece

/-- The diagnostics of the markers, each with the offset at which its piece ends, in the text
without the markers from `pos` on. -/
def placed (pos : Nat) : List MarkedPiece → List (Nat × Diagnostic)
  | [] => []
  | p :: ps => (pos + byteLength p.chars, p.diagnostic) :: placed (pos + byteLength p.chars) ps

theorem le_of_mem_placed {pieces : List MarkedPiece} {pos : Nat} {x : Nat × Diagnostic}
    (h : x ∈ placed pos pieces) : pos ≤ x.1 := by
  induction pieces generalizing pos with
  | nil => exact nomatch h
  | cons p ps ih =>
    rcases List.mem_cons.1 h with rfl | h
    · exact Nat.le_add_right _ _
    · exact Nat.le_trans (Nat.le_add_right _ _) (ih h)

/-- What stands before all insertions is left as it is. -/
theorem rewrittenFrom_append {insertions : List (Nat × List Char)} {pos : Nat} {chars : List Char}
    (h : ∀ i ∈ insertions, pos + byteLength chars ≤ i.1) (cs : List Char) :
    rewrittenFrom [] insertions pos (chars ++ cs)
      = chars ++ rewrittenFrom [] insertions (pos + byteLength chars) cs := by
  induction chars generalizing pos with
  | nil => rfl
  | cons c chars ih =>
    have hsize := Char.utf8Size_pos c
    rw [byteLength_cons, ← Nat.add_assoc] at h ⊢
    have hnone : insertions.takeWhile (·.1 ≤ pos) = [] ∧
        insertions.dropWhile (·.1 ≤ pos) = insertions := by
      cases insertions with
      | nil => exact ⟨rfl, rfl⟩
      | cons i insertions =>
        have hi := h i (List.mem_cons_self ..)
        have hpos : ¬decide (i.1 ≤ pos) = true := by
          rw [decide_eq_true_iff]
          omega
        exact ⟨List.takeWhile_cons_of_neg hpos, List.dropWhile_cons_of_neg hpos⟩
    rw [List.cons_append, rewrittenFrom, List.any_nil, if_neg Bool.false_ne_true, hnone.1, hnone.2,
      List.flatMap_nil, List.nil_append, ih h, List.cons_append]

/-- An insertion at the place that is reached comes first. -/
theorem rewrittenFrom_cons (marker : List Char) (insertions : List (Nat × List Char)) (pos : Nat)
    (cs : List Char) :
    rewrittenFrom [] ((pos, marker) :: insertions) pos cs
      = marker ++ rewrittenFrom [] insertions pos cs := by
  cases cs with
  | nil => rw [rewrittenFrom, rewrittenFrom, List.flatMap_cons]
  | cons c cs =>
    rw [rewrittenFrom, rewrittenFrom, List.any_nil, if_neg Bool.false_ne_true,
      if_neg Bool.false_ne_true, List.takeWhile_cons_of_pos (by simp),
      List.dropWhile_cons_of_pos (by simp), List.flatMap_cons, List.append_assoc]

/-- Markers at the ends of the pieces. -/
theorem rewrittenFrom_plain (rest : List Char) (pieces : List MarkedPiece) (pos : Nat) :
    rewrittenFrom [] ((placed pos pieces).map fun x => (x.1, x.2.marker)) pos (plain rest pieces)
      = marked rest pieces := by
  induction pieces generalizing pos with
  | nil =>
    rw [← List.append_nil (plain rest [])]
    show rewrittenFrom [] [] pos (rest ++ []) = rest
    rw [rewrittenFrom_append (by simp), rewrittenFrom, List.flatMap_nil, List.append_nil]
  | cons p ps ih =>
    have hbehind : ∀ i ∈ (placed pos (p :: ps)).map fun x => (x.1, x.2.marker),
        pos + byteLength p.chars ≤ i.1 := by
      intro i hi
      obtain ⟨x, hx, rfl⟩ := List.mem_map.1 hi
      rcases List.mem_cons.1 hx with rfl | hx
      · exact Nat.le_refl _
      · exact le_of_mem_placed hx
    rw [plain, rewrittenFrom_append hbehind, marked, placed, List.map_cons, rewrittenFrom_cons, ih]

/-- A text can be taken apart at rising offsets on the bounds of its characters. -/
theorem exists_pieces {cs : List Char} {pos : Nat} {l : List (Nat × Diagnostic)}
    (hrise : l.Pairwise fun x y => x.1 ≤ y.1)
    (hbounds : ∀ x ∈ l, ∃ before behind, cs = before ++ behind ∧ pos + byteLength before = x.1) :
    ∃ pieces rest, plain rest pieces = cs ∧ placed pos pieces = l := by
  induction l generalizing cs pos with
  | nil => exact ⟨[], cs, rfl, rfl⟩
  | cons x l ih =>
    obtain ⟨hx, hl⟩ := List.pairwise_cons.1 hrise
    obtain ⟨⟨before, behind, rfl, hbefore⟩, hmore⟩ := List.forall_mem_cons.1 hbounds
    have hbehind : ∀ y ∈ l, ∃ z back, behind = z ++ back ∧
        pos + byteLength before + byteLength z = y.1 := by
      intro y hy
      obtain ⟨front, back, hsplit, hfront⟩ := hmore y hy
      have hle := hx y hy
      obtain ⟨z, rfl, rfl⟩ := eq_append_of_byteLength_le hsplit (by omega)
      exact ⟨z, back, rfl, by rw [← hfront, byteLength_append, Nat.add_assoc]⟩
    obtain ⟨pieces, rest, rfl, hpieces⟩ := ih hl hbehind
    refine ⟨⟨before, x.2⟩ :: pieces, rest, rfl, ?_⟩
    rw [placed, hpieces, hbefore]

end MarkedPiece

/-! ## Sorting by a key -/

theorem pairwise_mergeSort_key {α : Type} (key : α → Nat) (l : List α) :
    (l.mergeSort fun a b => key a ≤ key b).Pairwise fun a b => key a ≤ key b := by
  have hsort := @List.pairwise_mergeSort _ (fun a b : α => key a ≤ key b)
    (fun a b c => by simpa using Nat.le_trans)
    (fun a b => by simpa using Nat.le_total (key a) (key b)) l
  simpa using hsort

/-- What is not told apart keeps its order when a list is sorted. -/
theorem filter_mergeSort {α : Type} {key : α → Nat} (l : List α) (n : Nat) :
    ((l.mergeSort fun a b => key a ≤ key b).filter fun a => key a = n)
      = l.filter fun a => key a = n := by
  have hgroup : (l.filter fun a => key a = n).Pairwise fun a b => decide (key a ≤ key b) = true := by
    refine List.pairwise_iff_forall_sublist.2 fun {a b} hsub => ?_
    have ha := List.mem_filter.1 (hsub.subset (List.mem_cons_self ..))
    have hb := List.mem_filter.1 (hsub.subset (List.mem_cons_of_mem a (List.mem_cons_self ..)))
    simp only [decide_eq_true_eq] at ha hb ⊢
    omega
  have hsub := List.sublist_mergeSort (fun a b c => by simpa using Nat.le_trans)
    (fun a b => by simpa using Nat.le_total (key a) (key b)) hgroup List.filter_sublist
  have hsub := hsub.filter fun a => decide (key a = n)
  rw [List.filter_filter, funext fun a => Bool.and_self _] at hsub
  have hlength := ((List.mergeSort_perm l fun a b => key a ≤ key b).filter
    fun a => decide (key a = n)).length_eq
  exact (hsub.eq_of_length hlength.symm).symm

/-! ## The source with other markers -/

/-- Where the markers go lies on bounds of what is left of the text, and so the text falls into
pieces there. -/
theorem MarkedPiece.exists_rewritten {text : List Char} {cuts : List Span} {ds : List Diagnostic}
    (hbounds : ∀ d ∈ ds,
      Text.IsBound (uncutFrom cuts 0 text) (keptFrom cuts 0 text (d.markerOffset text))) :
    ∃ pieces rest, plain rest pieces = uncutFrom cuts 0 text ∧
      marked rest pieces = rewritten text cuts ds ∧
      placed 0 pieces = (ds.mergeSort fun d d' => d.markerOffset text ≤ d'.markerOffset text).map
        fun d => (keptFrom cuts 0 text (d.markerOffset text), d) := by
  have hsorted := pairwise_mergeSort_key (Diagnostic.markerOffset text) ds
  have hrise : ((ds.mergeSort fun d d' => d.markerOffset text ≤ d'.markerOffset text).map
      fun d => (keptFrom cuts 0 text (d.markerOffset text), d)).Pairwise fun x y => x.1 ≤ y.1 :=
    List.pairwise_map.2 (hsorted.imp fun hle => keptFrom_mono cuts 0 text hle)
  have hsplits : ∀ x ∈ (ds.mergeSort fun d d' => d.markerOffset text ≤ d'.markerOffset text).map
      (fun d => (keptFrom cuts 0 text (d.markerOffset text), d)), ∃ before behind,
        uncutFrom cuts 0 text = before ++ behind ∧ 0 + byteLength before = x.1 := by
    intro x hx
    obtain ⟨d, hd, rfl⟩ := List.mem_map.1 hx
    obtain ⟨before, behind, hsplit, hlength⟩ := hbounds d ((List.mergeSort_perm _ _).mem_iff.1 hd)
    exact ⟨before, behind, hsplit, by rw [Nat.zero_add, hlength]⟩
  obtain ⟨pieces, rest, hplain, hplaced⟩ := exists_pieces hrise hsplits
  refine ⟨pieces, rest, hplain, ?_, hplaced⟩
  have hmap : (ds.map fun d => (d.markerOffset text, d.marker)).mergeSort (fun a b => a.1 ≤ b.1)
      = (ds.mergeSort fun d d' => d.markerOffset text ≤ d'.markerOffset text).map
        fun d => (d.markerOffset text, d.marker) := by
    refine (List.map_mergeSort ?_).symm
    exact fun _ _ _ _ => rfl
  rw [← rewrittenFrom_plain rest pieces 0, hplain, hplaced, rewritten, hmap,
    rewrittenFrom_cut cuts (List.pairwise_map.2 hsorted) 0 0, List.map_map, List.map_map]
  simp only [Function.comp_def, Nat.zero_add]

end FrameCheck
