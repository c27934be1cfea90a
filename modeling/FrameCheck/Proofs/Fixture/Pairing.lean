import FrameCheck.Fixture.Report
import FrameCheck.Proofs.Text.Lines
import Mathlib.Data.List.Forall2
import Mathlib.Data.List.Perm.Basic

/-!
# Pairing expectations with diagnostics

Each expectation takes the first free diagnostic that meets it. Where nothing is left over, this is
a one-to-one pairing; but an expectation may take the diagnostic that a later one needs. That
cannot happen where all that meets the earlier of two expectations meets the later one too, if the
two compete at all: what the later one asks is then asked by the earlier one as well.

* `Expectation.isMetBy_iff` : what it means to meet an expectation.
* `paired_of_unpaired` : where nothing is left over there is a pairing.
* `unpaired_of_narrowing` : a pairing is found where each expectation asks no more than those of its
  place before it.
* `unpaired_iff_paired` : that is so for every list of diagnostics, and only there.
-/

namespace FrameCheck

namespace Expectation

/-- What the message has to contain. -/
def text (e : Expectation) : List Char := (e.message.map String.toList).getD []

/-- The two expect the same code at the same place. -/
def Competes (e other : Expectation) : Prop := e.anchor = other.anchor ∧ e.code = other.code

instance (e other : Expectation) : Decidable (e.Competes other) :=
  inferInstanceAs (Decidable (_ ∧ _))

/-- What the later expectation asks of a diagnostic is asked by the earlier one, if both expect the
same code at the same place. -/
def Narrowing (e later : Expectation) : Prop := e.Competes later → later.text <:+: e.text

theorem isMetBy_iff {e : Expectation} {d : Diagnostic} :
    e.isMetBy d = true ↔ d.span.stop = e.anchor ∧ d.code = e.code ∧ e.text <:+: d.message.toList := by
  unfold isMetBy text
  rw [Bool.and_eq_true, Bool.and_eq_true, beq_iff_eq, beq_iff_eq, and_assoc]
  refine and_congr_right fun _ => and_congr_right fun _ => ?_
  cases e.message with
  | none => exact iff_of_true rfl (List.nil_infix)
  | some text => exact Text.contains_iff

/-- A diagnostic with this message that an expectation may be met by. -/
def diagnosed (e : Expectation) (message : List Char) : Diagnostic :=
  ⟨⟨0, 0⟩, ⟨0, 0⟩, e.code, String.ofList message, ⟨0, e.anchor⟩⟩

theorem isMetBy_diagnosed {e other : Expectation} {message : List Char} :
    e.isMetBy (other.diagnosed message) = true ↔ other.Competes e ∧ e.text <:+: message := by
  rw [isMetBy_iff, diagnosed, String.toList_ofList]
  exact and_assoc.symm

end Expectation

open Expectation

/-- The diagnostics can be put in an order in which each meets the expectation of its place, with
none left over on either side. -/
def Paired (es : List Expectation) (ds : List Diagnostic) : Prop :=
  ∃ ds', ds'.Perm ds ∧ List.Forall₂ (fun e d => e.isMetBy d = true) es ds'

namespace Paired

variable {es es' : List Expectation} {ds ds' : List Diagnostic}

theorem cons {e : Expectation} {d : Diagnostic} (hd : e.isMetBy d = true) (h : Paired es ds) :
    Paired (e :: es) (d :: ds) := by
  obtain ⟨ds', hperm, hmet⟩ := h
  exact ⟨d :: ds', hperm.cons d, .cons hd hmet⟩

theorem perm_right (h : Paired es ds) (hds : ds.Perm ds') : Paired es ds' := by
  obtain ⟨xs, hperm, hmet⟩ := h
  exact ⟨xs, hperm.trans hds, hmet⟩

theorem perm_left (h : Paired es ds) (hes : es.Perm es') : Paired es' ds := by
  obtain ⟨xs, hperm, hmet⟩ := h
  have hcomp : Relation.Comp List.Perm (List.Forall₂ fun e d => e.isMetBy d = true) es' xs :=
    ⟨es, hes.symm, hmet⟩
  rw [← List.forall₂_comp_perm_eq_perm_comp_forall₂] at hcomp
  obtain ⟨ys, hmet', hperm'⟩ := hcomp
  exact ⟨ys, hperm'.trans hperm, hmet'⟩

theorem append (h : Paired es ds) (h' : Paired es' ds') : Paired (es ++ es') (ds ++ ds') := by
  obtain ⟨xs, hperm, hmet⟩ := h
  obtain ⟨ys, hperm', hmet'⟩ := h'
  exact ⟨xs ++ ys, hperm.append hperm', List.rel_append hmet hmet'⟩

/-- Each expectation may have a diagnostic of its own. -/
theorem map {f : Expectation → Diagnostic} (h : ∀ e ∈ es, e.isMetBy (f e) = true) :
    Paired es (es.map f) :=
  ⟨es.map f, .refl _, List.forall₂_map_right_iff.2 (List.forall₂_same.2 h)⟩

end Paired

/-! ## One run -/

/-- The first expectation takes the first diagnostic that meets it; then nothing is left over of the
others. -/
theorem unpaired_cons_eq_nil {e : Expectation} {es : List Expectation} {ds : List Diagnostic}
    (h : unpaired (e :: es) ds = ([], [])) :
    ∃ before d behind, ds = before ++ d :: behind ∧ (∀ b ∈ before, e.isMetBy b = false) ∧
      e.isMetBy d = true ∧ unpaired es (before ++ behind) = ([], []) := by
  rw [unpaired] at h
  split at h
  · next hany =>
    obtain ⟨d, hd, hmet⟩ := List.any_eq_true.1 hany
    obtain ⟨d, before, behind, hbefore, hmet, hds, herase⟩ := List.exists_of_eraseP hd hmet
    rw [herase] at h
    exact ⟨before, d, behind, hds, fun b hb => Bool.eq_false_iff.2 (hbefore b hb), hmet, h⟩
  · exact nomatch (Prod.mk.inj h).1

theorem unpaired_cons_of_isMetBy {e : Expectation} {es : List Expectation} {ds : List Diagnostic}
    {d : Diagnostic} (hd : d ∈ ds) (hmet : e.isMetBy d = true) :
    unpaired (e :: es) ds = unpaired es (ds.eraseP e.isMetBy) := by
  rw [unpaired, if_pos (List.any_eq_true.2 ⟨d, hd, hmet⟩)]

/-- Where nothing is left over, all expectations are met one to one. -/
theorem paired_of_unpaired {es : List Expectation} {ds : List Diagnostic}
    (h : unpaired es ds = ([], [])) : Paired es ds := by
  induction es generalizing ds with
  | nil =>
    obtain rfl : ds = [] := (Prod.mk.inj h).2
    exact ⟨[], .refl _, .nil⟩
  | cons e es ih =>
    obtain ⟨before, d, behind, rfl, -, hmet, hmore⟩ := unpaired_cons_eq_nil h
    exact ((ih hmore).cons hmet).perm_right List.perm_middle.symm

/-- A diagnostic gives way to another one that meets every expectation which it meets. -/
theorem Paired.exchange {es : List Expectation} {ds : List Diagnostic} (h : Paired es ds)
    {d other : Diagnostic} (hd : d ∈ ds)
    (hother : ∀ e ∈ es, e.isMetBy d = true → e.isMetBy other = true) :
    Paired es (other :: ds.erase d) := by
  obtain ⟨ds', hperm, hall⟩ := h
  refine Paired.perm_right ?_ ((hperm.erase d).cons other)
  replace hd := hperm.mem_iff.2 hd
  clear hperm
  induction hall with
  | nil => exact absurd hd List.not_mem_nil
  | @cons e x es xs hmet hmore ih =>
    by_cases hx : x = d
    · subst hx
      rw [List.erase_cons_head]
      exact Paired.cons (hother e (by simp) hmet) ⟨xs, .refl _, hmore⟩
    · rw [List.erase_cons_tail (by simpa using hx)]
      have hrest := ih (fun e he => hother e (by simp [he])) ((List.mem_cons.1 hd).resolve_left
        (Ne.symm hx))
      exact (hrest.cons hmet).perm_right (.swap _ _ _)

/-- The first expectation may be paired with any diagnostic that meets it: whoever has that one
competes for it and asks no more, so the two can swap. -/
theorem Paired.erase {e : Expectation} {es : List Expectation} {ds : List Diagnostic}
    (h : Paired (e :: es) ds) (hnarrow : ∀ later ∈ es, e.Narrowing later) {d : Diagnostic}
    (hd : d ∈ ds) (hmet : e.isMetBy d = true) : Paired es (ds.erase d) := by
  obtain ⟨ds', hperm, hall⟩ := h
  rcases hall with _ | @⟨_, own, _, rest, hown, hmore⟩
  have hrest : Paired es rest := ⟨rest, .refl _, hmore⟩
  refine Paired.perm_right ?_ (hperm.erase d)
  by_cases heq : own = d
  · subst heq
    rwa [List.erase_cons_head]
  · rw [List.erase_cons_tail (by simpa using heq)]
    refine hrest.exchange ((List.mem_cons.1 (hperm.mem_iff.2 hd)).resolve_left (Ne.symm heq)) ?_
    intro later hlater hlatermet
    obtain ⟨hstop, hcode, -⟩ := isMetBy_iff.1 hlatermet
    obtain ⟨hstop', hcode', -⟩ := isMetBy_iff.1 hmet
    obtain ⟨hplace, hkind, htext⟩ := isMetBy_iff.1 hown
    have hcompetes : e.Competes later := ⟨hstop'.symm.trans hstop, hcode'.symm.trans hcode⟩
    exact isMetBy_iff.2 ⟨hplace.trans hcompetes.1, hkind.trans hcompetes.2,
      (hnarrow later hlater hcompetes).trans htext⟩

/-- Where each expectation asks no more than those of its place before it, a pairing is found if
there is one. -/
theorem unpaired_of_narrowing {es : List Expectation} {ds : List Diagnostic}
    (hes : es.Pairwise Narrowing) (h : Paired es ds) : unpaired es ds = ([], []) := by
  induction es generalizing ds with
  | nil =>
    obtain ⟨ds', hperm, hall⟩ := h
    cases hall
    rw [List.nil_perm.1 hperm]
    rfl
  | cons e es ih =>
    obtain ⟨hnarrow, hes⟩ := List.pairwise_cons.1 hes
    obtain ⟨d, hd, hmet⟩ : ∃ d ∈ ds, e.isMetBy d = true := by
      obtain ⟨ds', hperm, hall⟩ := h
      rcases hall with _ | ⟨hown, -⟩
      exact ⟨_, hperm.mem_iff.1 (by simp), hown⟩
    rw [unpaired_cons_of_isMetBy hd hmet]
    obtain ⟨first, before, behind, hbefore, hfirst, rfl, herase⟩ := List.exists_of_eraseP hd hmet
    rw [herase]
    refine ih hes ((h.erase hnarrow (by simp) hfirst).perm_right ?_)
    have hmiddle := (@List.perm_middle _ first before behind).erase first
    rwa [List.erase_cons_head] at hmiddle

/-! ## Where a pairing is missed -/

section

variable {common : Diagnostic} {es : List Expectation} {n : Nat} {ds : List Diagnostic}

/-- Where copies of one diagnostic come first, an expectation takes one of them if it is met by
them and there is one left, and else one of the others. -/
theorem unpaired_cons_replicate {e : Expectation}
    (h : unpaired (e :: es) (List.replicate n common ++ ds) = ([], [])) :
    (e.isMetBy common = true ∧
      ∃ m, n = m + 1 ∧ unpaired es (List.replicate m common ++ ds) = ([], [])) ∨
    ((n = 0 ∨ e.isMetBy common = false) ∧ (∃ d ∈ ds, e.isMetBy d = true) ∧
      unpaired es (List.replicate n common ++ ds.eraseP e.isMetBy) = ([], [])) := by
  have hothers (hnone : ∀ d ∈ List.replicate n common, ¬e.isMetBy d = true) :
      (∃ d ∈ ds, e.isMetBy d = true) ∧
        unpaired es (List.replicate n common ++ ds.eraseP e.isMetBy) = ([], []) := by
    obtain ⟨before, d, behind, hds, -, hmet, -⟩ := unpaired_cons_eq_nil h
    have hd : d ∈ List.replicate n common ++ ds := by simp [hds]
    rw [unpaired_cons_of_isMetBy hd hmet, List.eraseP_append_right _ hnone] at h
    exact ⟨⟨d, (List.mem_append.1 hd).resolve_left fun hd => hnone d hd hmet, hmet⟩, h⟩
  cases hmet : e.isMetBy common with
  | false =>
    refine Or.inr ⟨Or.inr rfl, hothers fun d hd => ?_⟩
    rw [List.eq_of_mem_replicate hd, hmet]
    exact Bool.false_ne_true
  | true =>
    cases n with
    | zero => exact Or.inr ⟨Or.inl rfl, hothers (by simp)⟩
    | succ m =>
      refine Or.inl ⟨rfl, m, rfl, ?_⟩
      have hd : common ∈ List.replicate (m + 1) common ++ ds := by simp
      rw [unpaired_cons_of_isMetBy hd hmet, List.replicate_succ, List.cons_append,
        List.eraseP_cons_of_pos hmet] at h
      exact h

variable {marked : Expectation → Bool}

/-- Where marked expectations are met by none of the other diagnostics, there is a copy for each of
them. -/
theorem countP_le_of_unpaired (hds : ∀ d ∈ ds, ∀ e, marked e = true → e.isMetBy d = false)
    (h : unpaired es (List.replicate n common ++ ds) = ([], [])) : es.countP marked ≤ n := by
  induction es generalizing n ds with
  | nil => exact Nat.zero_le n
  | cons e es ih =>
    rcases unpaired_cons_replicate h with ⟨-, m, rfl, hmore⟩ | ⟨hn, ⟨d, hd, hmet⟩, hmore⟩
    · have hle := ih hds hmore
      have hcons : (e :: es).countP marked ≤ es.countP marked + 1 := by
        rw [List.countP_cons]
        split <;> omega
      omega
    · have hunmarked : ¬marked e = true := fun he => by
        rw [hds d hd e he] at hmet
        exact Bool.false_ne_true hmet
      rw [List.countP_cons_of_neg hunmarked]
      exact ih (fun d hd => hds d (List.mem_of_mem_eraseP hd)) hmore

/-- An expectation that the copies meet too takes one of them, if a marked one comes later. -/
theorem countP_lt_of_unpaired (hds : ∀ d ∈ ds, ∀ e, marked e = true → e.isMetBy d = false)
    (h : unpaired es (List.replicate n common ++ ds) = ([], [])) {e later : Expectation}
    (hsub : [e, later].Sublist es) (he : marked e = false) (hmet : e.isMetBy common = true)
    (hlater : marked later = true) : es.countP marked < n := by
  induction es generalizing n ds with
  | nil => exact nomatch hsub
  | cons x es ih =>
    have hstep := unpaired_cons_replicate h
    rcases List.sublist_cons_iff.1 hsub with hsub | ⟨r, hr, hsub⟩
    · rcases hstep with ⟨-, m, rfl, hmore⟩ | ⟨-, ⟨d, hd, hxmet⟩, hmore⟩
      · have hlt := ih hds hmore hsub
        have hcons : (x :: es).countP marked ≤ es.countP marked + 1 := by
          rw [List.countP_cons]
          split <;> omega
        omega
      · have hunmarked : ¬marked x = true := fun hx => by
          rw [hds d hd x hx] at hxmet
          exact Bool.false_ne_true hxmet
        rw [List.countP_cons_of_neg hunmarked]
        exact ih (fun d hd => hds d (List.mem_of_mem_eraseP hd)) hmore hsub
    · obtain ⟨rfl, rfl⟩ := List.cons.inj hr
      rw [List.countP_cons_of_neg (by simp [he])]
      have hpos : 0 < es.countP marked :=
        List.countP_pos_iff.2 ⟨later, List.singleton_sublist.1 hsub, hlater⟩
      rcases hstep with ⟨-, m, rfl, hmore⟩ | ⟨hn, -, hmore⟩
      · have hle := countP_le_of_unpaired hds hmore
        omega
      · -- no copy is left for the marked one that comes later
        have hle := countP_le_of_unpaired
          (fun d hd => hds d (List.mem_of_mem_eraseP hd)) hmore
        rcases hn with rfl | hn
        · omega
        · exact absurd hmet (by simp [hn])

end

/-- Where an expectation asks for what one of its place before it does not ask for, there are
diagnostics of which a pairing is missed: those that meet all expectations of the place are taken in
turn, and the others have only what their own expectation asks for. -/
theorem exists_missed {es : List Expectation} {e later : Expectation} (hsub : [e, later].Sublist es)
    (hcompetes : e.Competes later) (htext : ¬later.text <:+: e.text) :
    ∃ ds, Paired es ds ∧ unpaired es ds ≠ ([], []) := by
  let marked (x : Expectation) : Bool :=
    decide (later.Competes x) && Text.contains later.text x.text
  let common := later.diagnosed (es.flatMap text)
  let own := (es.filter fun x => !marked x).map fun x => x.diagnosed x.text
  have hmarked {x : Expectation} :
      marked x = true ↔ later.Competes x ∧ later.text <:+: x.text := by
    rw [Bool.and_eq_true, decide_eq_true_iff, Text.contains_iff]
  have hcommon {x : Expectation} (hx : x ∈ es) (hplace : later.Competes x) :
      x.isMetBy common = true :=
    isMetBy_diagnosed.2 ⟨hplace, List.infix_of_mem_flatten (List.mem_map_of_mem hx)⟩
  refine ⟨List.replicate (es.countP marked) common ++ own, ?_, fun h => ?_⟩
  · have hfilter : Paired (es.filter marked) (List.replicate (es.countP marked) common) := by
      rw [List.countP_eq_length_filter, ← List.map_const']
      refine Paired.map fun x hx => ?_
      obtain ⟨hx, hxmarked⟩ := List.mem_filter.1 hx
      exact hcommon hx (hmarked.1 hxmarked).1
    have hown : Paired (es.filter fun x => !marked x) own :=
      Paired.map fun x _ => isMetBy_diagnosed.2 ⟨⟨rfl, rfl⟩, List.infix_refl _⟩
    exact (hfilter.append hown).perm_left (List.filter_append_perm marked es)
  · have hds : ∀ d ∈ own, ∀ x, marked x = true → x.isMetBy d = false := by
      intro d hd x hx
      obtain ⟨y, hy, rfl⟩ := List.mem_map.1 hd
      have hy := (List.mem_filter.1 hy).2
      refine Bool.eq_false_iff.2 fun hmet => ?_
      obtain ⟨⟨hplace, hcode⟩, hinfix⟩ := isMetBy_diagnosed.1 hmet
      obtain ⟨⟨hplace', hcode'⟩, hinfix'⟩ := hmarked.1 hx
      have hmarkedy : marked y = true := hmarked.2
        ⟨⟨hplace'.trans hplace.symm, hcode'.trans hcode.symm⟩, hinfix'.trans hinfix⟩
      simp [hmarkedy] at hy
    have he : marked e = false := Bool.eq_false_iff.2 fun he => htext (hmarked.1 he).2
    have hmet : e.isMetBy common = true :=
      hcommon (hsub.subset (by simp)) ⟨hcompetes.1.symm, hcompetes.2.symm⟩
    have hlater : marked later = true := hmarked.2 ⟨⟨rfl, rfl⟩, List.infix_refl _⟩
    exact Nat.lt_irrefl _ (countP_lt_of_unpaired hds h hsub he hmet hlater)

/-- Where nothing is left over, expectations and diagnostics are paired one to one. Where there is a
pairing, nothing is left over, whatever the diagnostics are, exactly if each expectation asks no more
than those before it with the same code at the same place. -/
theorem unpaired_iff_paired (es : List Expectation) :
    (∀ ds, unpaired es ds = ([], []) → Paired es ds) ∧
      ((∀ ds, Paired es ds → unpaired es ds = ([], [])) ↔ es.Pairwise Narrowing) := by
  refine ⟨fun ds => paired_of_unpaired, fun h => ?_, fun hes ds => unpaired_of_narrowing hes⟩
  refine List.pairwise_iff_forall_sublist.2 fun {e later} hsub hcompetes => ?_
  by_contra htext
  obtain ⟨ds, hpaired, hmissed⟩ := exists_missed hsub hcompetes htext
  exact hmissed (h ds hpaired)

/-- Any conflict of inherited columns, and then the one about `x`, as `/*!DUPLICATE_COLUMN*/` and
`/*!DUPLICATE_COLUMN: 'x'*/` behind the name of a marker expect them. -/
def anyThenNamed : List Expectation :=
  [⟨12, 145, .duplicateColumn, none, ⟨145, 166⟩⟩,
    ⟨12, 145, .duplicateColumn, some "'x'", ⟨167, 193⟩⟩]

/-- The conflicts of a marker that inherits `x` and `y` twice, each time with other types. -/
def conflicts : List Diagnostic :=
  ["Duplicate column 'x' in C", "Duplicate column 'y' in C"].map fun message =>
    ⟨⟨12, 11⟩, ⟨12, 12⟩, .duplicateColumn, message, ⟨144, 145⟩⟩

/-- The first expectation could have the conflict about `y`, but it takes the one about `x`. -/
theorem not_unpaired_conflicts :
    Paired anyThenNamed conflicts ∧ unpaired anyThenNamed conflicts ≠ ([], []) := by
  refine ⟨⟨conflicts.reverse, conflicts.reverse_perm, ?_⟩, by decide +kernel⟩
  exact .cons (by decide +kernel) (.cons (by decide +kernel) .nil)

end FrameCheck
