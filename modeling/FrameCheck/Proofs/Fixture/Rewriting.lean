import FrameCheck.Proofs.Checker.Trivia
import FrameCheck.Proofs.Fixture.Pairing
import FrameCheck.Proofs.Fixture.Pieces
import FrameCheck.Proofs.Parse.Spans

/-!
# A fixture with other markers

The report on a fixture has its source with a marker for each diagnostic instead of its own
markers. A marker is a comment: where it can be put behind the token that the span of its
diagnostic ends with, the text with all markers has the tokens of the text with none, and so the
same diagnostics. They are in the order of the tokens and the new markers in the order in which
spans end, so the expectations are met one by one although not in their order. A message can hold
the mark that closes a comment, for a column can have it in its name, and then its marker ends too
early.

* `MarkedPiece.scan_marked` : the tokens of a text with markers.
* `unpaired_of_grouped` : expectations in the order of their places.
* `isSuccess_of_rewritable` : the source with other markers passes.
* `not_isSuccess_closingText` : a message that closes its marker.
-/

namespace FrameCheck

/-! ## The tokens of a text with markers -/

/-- One relocation and then another. -/
def Relocation.andThen (r r' : Relocation) : Relocation where
  start x := r'.start (r.start x)
  stop x := r'.stop (r.stop x)
  last s := r'.last (r.last s)
  start_mono := r'.start_mono.comp r.start_mono
  stop_mono := r'.stop_mono.comp r.stop_mono

theorem Token.relocateAll_andThen (r r' : Relocation) (ts : List Token) :
    relocateAll r' (relocateAll r ts) = relocateAll (r.andThen r') ts := by
  refine ext_allPlaces ?_ ?_
  · rw [bareAll_relocate, bareAll_relocate, bareAll_relocate]
  · rw [allPlaces_relocateAll, allPlaces_relocateAll, allPlaces_relocateAll, List.map_map]
    exact List.map_congr_left fun x _ => by cases x <;> rfl

theorem Relocation.insertion_strictMono (p n : Nat) : StrictMono (insertion p n).stop := by
  intro x y h
  show (if x ≤ p then x else x + n) < if y ≤ p then y else y + n
  split <;> split <;> omega

/-- A marker can be put at the offset, and counts for that place: a token stops there, neither in a
slash nor in a blank. -/
structure TakesMarker (text : List Char) (ts : List Token) (offset : Nat) : Prop where
  closes : Token.Closes text offset ts
  ends : ∀ c, Text.EndsAt text offset c → Text.isBlank c = false ∧ c ≠ '/'

/-- A token in code is a place for a marker, if it is spelled by characters that end as they should
and do not stand behind a dollar. -/
theorem TakesMarker.of_token {front name behind : List Char} {ts : List Token} {t : Token}
    (ht : t ∈ ts) (hspan : t.span = ⟨byteLength front, byteLength (front ++ name)⟩)
    (hkind : t.kind.isEof = false) (hfront : front.getLast? ≠ some '$')
    (hends : ∀ c, (front ++ name).getLast? = some c → Text.isBlank c = false ∧ c ≠ '/') :
    TakesMarker (front ++ name ++ behind) ts (byteLength (front ++ name)) where
  closes := by
    refine .token ht (by rw [hspan]) hkind ?_
    rw [hspan, List.append_assoc, Text.endsAt_append]
    exact hfront
  ends c hc := hends c (Text.endsAt_append.1 hc)

namespace MarkedPiece

/-- The places of expectations move on with the text behind the first of them. -/
theorem anchors_insertion {x n : Nat} (pieces : List MarkedPiece) {pos last : Nat} (hpos : x ≤ pos) :
    anchors (pos + n) ((Relocation.insertion x n).stop last) pieces
      = (anchors pos last pieces).map (Relocation.insertion x n).stop := by
  induction pieces generalizing pos last with
  | nil => rfl
  | cons p ps ih =>
    have hhere : (if p.chars = [] then (Relocation.insertion x n).stop last
          else pos + n + byteLength p.chars)
        = (Relocation.insertion x n).stop (if p.chars = [] then last else pos + byteLength p.chars) := by
      split
      · rfl
      · next hne =>
        have hlength := byteLength_pos hne
        have hmoved : (Relocation.insertion x n).stop (pos + byteLength p.chars)
            = pos + byteLength p.chars + n := if_neg (by omega)
        rw [hmoved]
        omega
    rw [anchors, anchors, List.map_cons, hhere, ← ih (by omega)]
    congr 2
    omega

/-- The tokens of a text with markers are those of the text without, moved, and those that have a
marker behind them stop where the expectations are placed. By induction on the pieces, the last
marker first, for then the tokens before are where they were. -/
theorem scan_marked {rest : List Char} {pieces : List MarkedPiece} {front : List Char}
    {ts : List Token} (hpieces : ∀ p ∈ pieces, IsInside p.diagnostic.message.toList)
    (h : Token.scan (String.ofList (front ++ plain rest pieces)) = .ok ts)
    (hopen : ∀ x ∈ placed (byteLength front) pieces,
      TakesMarker (front ++ plain rest pieces) ts x.1) :
    ∃ r : Relocation,
      Token.scan (String.ofList (front ++ marked rest pieces)) = .ok (Token.relocateAll r ts) ∧
      StrictMono r.stop ∧ (∀ x < byteLength front, r.start x = x) ∧
      (∀ x ≤ byteLength front, r.stop x = x) ∧
      (placed (byteLength front) pieces).map (fun x => r.stop x.1)
        = anchors (byteLength front) (byteLength front) pieces := by
  induction pieces generalizing front with
  | nil =>
    refine ⟨.shift 0, ?_, fun _ _ hlt => hlt, fun _ _ => rfl, fun _ _ => rfl, rfl⟩
    rw [Token.relocateAll_shift_zero]
    exact h
  | cons p ps ih =>
    obtain ⟨hp, hps⟩ := List.forall_mem_cons.1 hpieces
    obtain ⟨hhere, hmore⟩ := List.forall_mem_cons.1 hopen
    rw [plain, ← List.append_assoc] at h hhere
    have hlength : byteLength (front ++ p.chars) = byteLength front + byteLength p.chars :=
      byteLength_append _ _
    obtain ⟨r, hscan, hstrict, hstart, hstop, hplaces⟩ := ih hps h fun x hx => by
      rw [List.append_assoc]
      exact hmore x (hlength ▸ hx)
    rw [← hlength] at hhere
    have hclose := hhere.closes.relocate (b := marked rest ps)
      (fun us hus t ht => (Token.orderly_of_scan h).within hus |>.lt_of_not_eof ht) hstart
      (hstop _ (Nat.le_refl _))
    have hslash : (front ++ p.chars).getLast? ≠ some '/' := fun hlast =>
      (hhere.ends _ (Text.endsAt_append.2 hlast)).2 rfl
    have hinsert := Token.scan_insertComment (Diagnostic.isInside hp) hscan hslash hclose
    rw [← Diagnostic.marker_eq_blockComment, Token.relocateAll_andThen] at hinsert
    have hfixed : (Relocation.insertion (byteLength (front ++ p.chars))
        (byteLength p.diagnostic.marker)).stop (byteLength (front ++ p.chars))
          = byteLength (front ++ p.chars) := if_pos (Nat.le_refl _)
    refine ⟨r.andThen (.insertion (byteLength (front ++ p.chars))
      (byteLength p.diagnostic.marker)), ?_, ?_, ?_, ?_, ?_⟩
    · rw [marked, ← List.append_assoc]
      exact hinsert
    · exact (Relocation.insertion_strictMono _ _).comp hstrict
    · intro x hx
      show (Relocation.insertion _ _).start (r.start x) = x
      rw [hstart x (by omega)]
      exact if_pos (by omega)
    · intro x hx
      show (Relocation.insertion _ _).stop (r.stop x) = x
      rw [hstop x (by omega)]
      exact if_pos (by omega)
    · have hbehind : (placed (byteLength front + byteLength p.chars) ps).map (fun x => r.stop x.1)
          = anchors (byteLength front + byteLength p.chars) (byteLength front + byteLength p.chars)
              ps := by
        rw [← hlength]
        exact hplaces
      have hmoved := congrArg (List.map (Relocation.insertion (byteLength (front ++ p.chars))
        (byteLength p.diagnostic.marker)).stop) hbehind
      rw [← anchors_insertion ps hlength.le, ← hlength, hfixed, List.map_map] at hmoved
      have hhere' : (if p.chars = [] then byteLength front else byteLength front + byteLength p.chars)
          = byteLength (front ++ p.chars) := by
        split
        · next hnil => rw [hnil, List.append_nil]
        · exact hlength.symm
      rw [placed, anchors, List.map_cons, hhere', ← hlength, ← hmoved]
      refine congrArg₂ List.cons ?_ rfl
      exact (congrArg _ (hstop _ (Nat.le_refl _))).trans hfixed

end MarkedPiece

/-! ## Pairing in the order of the places -/

/-- Expectations in the order of diagnostics that are put in the order of their places, where those
of one place keep their order, are met one by one. -/
theorem unpaired_of_grouped {es : List Expectation} {l ds : List Diagnostic}
    (hes : List.Forall₂ (fun e d => e.isMetBy d = true) es l)
    (hgroups : ∀ stop, (l.filter fun d => d.span.stop = stop) = ds.filter fun d => d.span.stop = stop) :
    unpaired es ds = ([], []) := by
  induction hes generalizing ds with
  | nil =>
    cases ds with
    | nil => rfl
    | cons d ds =>
      have hnone := hgroups d.span.stop
      rw [List.filter_nil, List.filter_cons_of_pos (by simp)] at hnone
      exact nomatch hnone
  | @cons e d es l hmet _ ih =>
    have hstop {x : Diagnostic} (hx : e.isMetBy x = true) : x.span.stop = d.span.stop :=
      (Expectation.isMetBy_iff.1 hx).1.trans (Expectation.isMetBy_iff.1 hmet).1.symm
    have hgroup := hgroups d.span.stop
    rw [List.filter_cons_of_pos (by simp)] at hgroup
    obtain ⟨before, behind, rfl, hbefore, -, -⟩ := List.filter_eq_cons_iff.1 hgroup.symm
    have herase : (before ++ d :: behind).eraseP e.isMetBy = before ++ behind := by
      rw [List.eraseP_append_right _ fun x hx hmetx => hbefore x hx (by simpa using hstop hmetx),
        List.eraseP_cons_of_pos hmet]
    rw [unpaired_cons_of_isMetBy (by simp) hmet, herase]
    refine ih fun stop => ?_
    have hmore := hgroups stop
    rw [List.filter_append] at hmore ⊢
    by_cases hd : d.span.stop = stop
    · subst hd
      have hnone : before.filter (fun x => x.span.stop = d.span.stop) = [] :=
        List.filter_eq_nil_iff.2 hbefore
      rw [hnone, List.nil_append, List.filter_cons_of_pos (by simp),
        List.filter_cons_of_pos (by simp)] at hmore
      rw [hnone, List.nil_append]
      exact (List.cons.inj hmore).2
    · rwa [List.filter_cons_of_neg (by simpa using hd), List.filter_cons_of_neg (by simpa using hd)]
        at hmore

/-! ## The report with other markers -/

/-- A place for a marker lies on the bound of a character. -/
theorem Token.Closes.exists_split {text : List Char} {ts : List Token} {stop : Nat}
    (hscan : scan (String.ofList text) = .ok ts) (h : Closes text stop ts) :
    ∃ before behind, text = before ++ behind ∧ byteLength before = stop := by
  obtain ⟨us, hus, t, ht, rfl⟩ : ∃ us, Within ts us ∧ ∃ t ∈ us, t.span.stop = stop := by
    clear hscan
    induction h with
    | token ht hstop => exact ⟨_, .self, _, ht, hstop⟩
    | part ht hpart _ ih =>
      obtain ⟨us, hus, ht'⟩ := ih
      exact ⟨us, (Within.part .self ht hpart).trans hus, ht'⟩
  obtain ⟨end', hapart⟩ := apart_of_scan hscan hus
  rw [String.toList_ofList] at hapart
  exact (hapart.bounds t ht).2

namespace MarkedPiece

/-- A piece ends where its marker is placed. -/
theorem exists_split_of_mem {rest : List Char} {pieces : List MarkedPiece} {p : MarkedPiece}
    (hp : p ∈ pieces) (pos : Nat) : ∃ front behind,
      plain rest pieces = front ++ p.chars ++ behind ∧
        (pos + byteLength (front ++ p.chars), p.diagnostic) ∈ placed pos pieces := by
  induction pieces generalizing pos with
  | nil => exact nomatch hp
  | cons q ps ih =>
    rcases List.mem_cons.1 hp with rfl | hp
    · exact ⟨[], plain rest ps, rfl, List.mem_cons_self ..⟩
    · obtain ⟨front, behind, hplain, hplaced⟩ := ih hp (pos + byteLength q.chars)
      refine ⟨q.chars ++ front, behind, by rw [plain, hplain]; simp, List.mem_cons_of_mem _ ?_⟩
      rw [List.append_assoc, byteLength_append, ← Nat.add_assoc]
      exact hplaced

theorem map_diagnostic_placed (pieces : List MarkedPiece) (pos : Nat) :
    (placed pos pieces).map Prod.snd = pieces.map diagnostic := by
  induction pieces generalizing pos with
  | nil => rfl
  | cons p ps ih => rw [placed, List.map_cons, List.map_cons, ih]

end MarkedPiece

/-- The markers of a fixture, at the spans, can be taken out, and those of the diagnostics be put
in. -/
structure Rewritable (text : String) (cuts : List Span) (ds : List Diagnostic)
    (ts ts₀ : List Token) : Prop where
  scan : Token.scan text = .ok ts
  /-- Without its markers the fixture has the same tokens. -/
  scan_unmarked : Token.scan (String.ofList (rewritten text.toList cuts [])) = .ok ts₀
  kinds : Token.sameKinds ts ts₀ = true
  stops : Token.stops ts₀ = (Token.stops ts).map (keptFrom cuts 0 text.toList)
  /-- Without its markers the fixture has no marker. -/
  unmarked : ¬markerOpen <:+: rewritten text.toList cuts []
  /-- No message opens or closes a comment. -/
  messages : ∀ d ∈ ds, IsInside d.message.toList
  places : ∀ d ∈ ds, TakesMarker (rewritten text.toList cuts []) ts₀
    (keptFrom cuts 0 text.toList d.span.stop)
  /-- The lines that ask for options stay. -/
  options : fixtureOptions (rewritten text.toList cuts ds) = fixtureOptions text.toList
  /-- The same is suppressed as before. -/
  suppressed : ∀ ts', Token.scan (String.ofList (rewritten text.toList cuts ds)) = .ok ts' →
    ∀ x x', Token.SameStart ts ts' x x' ∨ Token.SameStop ts ts' x x' → ∀ code,
      isSuppressed text.toList (Position.ofOffset text.toList x).line code
        = isSuppressed (rewritten text.toList cuts ds)
          (Position.ofOffset (rewritten text.toList cuts ds) x').line code

theorem map_prodMk_eq {α β γ δ : Type} {xs : List α} {ys : List β} {f : α → γ} {f' : α → δ}
    {g : β → γ} {g' : β → δ} (h : xs.map f = ys.map g) (h' : xs.map f' = ys.map g') :
    (xs.map fun x => (f x, f' x)) = ys.map fun y => (g y, g' y) := by
  induction xs generalizing ys with
  | nil =>
    obtain rfl := List.map_eq_nil_iff.1 h.symm
    rfl
  | cons x xs ih =>
    obtain ⟨y, ys, rfl, hy, hys⟩ := List.map_eq_cons_iff.1 h.symm
    obtain ⟨hx, hxs⟩ := List.cons.inj h'
    rw [List.map_cons, List.map_cons, ih hys.symm hxs, hy, hx]

namespace Rewritable

variable {text : String} {cuts : List Span} {ds : List Diagnostic} {ts ts₀ : List Token}
  (h : Rewritable text cuts ds ts ts₀)

include h

/-- Where tokens stop keeps its order when the markers are cut out. -/
theorem kept_le_iff {x y : Nat} (hx : x ∈ Token.stops ts) (hy : y ∈ Token.stops ts) :
    keptFrom cuts 0 text.toList x ≤ keptFrom cuts 0 text.toList y ↔ x ≤ y := by
  refine ⟨fun hle => ?_, fun hle => keptFrom_mono cuts 0 text.toList hle⟩
  by_contra hlt
  have hrise := (Token.places_of_scan h.scan_unmarked).2
  rw [h.stops] at hrise
  have heq := Nat.le_antisymm hle (keptFrom_mono cuts 0 text.toList (Nat.le_of_not_le hlt))
  have hsame := List.inj_on_of_nodup_map (hrise.imp Nat.ne_of_lt) hx hy heq
  omega

/-- So has where their markers go. -/
theorem markerOffset_le_iff {d d' : Diagnostic} (hd : d.span.stop ∈ Token.stops ts)
    (hd' : d'.span.stop ∈ Token.stops ts) :
    d.markerOffset text.toList ≤ d'.markerOffset text.toList ↔ d.span.stop ≤ d'.span.stop := by
  refine ⟨fun hle => (h.kept_le_iff hd hd').1 ?_, fun hle => min_le_min_right _ hle⟩
  rw [← keptFrom_markerOffset, ← keptFrom_markerOffset cuts text.toList d']
  exact keptFrom_mono cuts 0 text.toList hle

/-- The text with the markers of its diagnostics, in pieces. -/
theorem exists_pieces : ∃ pieces rest,
    MarkedPiece.plain rest pieces = rewritten text.toList cuts [] ∧
    MarkedPiece.marked rest pieces = rewritten text.toList cuts ds ∧
    MarkedPiece.placed 0 pieces
      = (ds.mergeSort fun d d' => d.markerOffset text.toList ≤ d'.markerOffset text.toList).map
        fun d => (keptFrom cuts 0 text.toList d.span.stop, d) := by
  have hbounds : ∀ d ∈ ds, Text.IsBound (uncutFrom cuts 0 text.toList)
      (keptFrom cuts 0 text.toList (d.markerOffset text.toList)) := by
    intro d hd
    rw [keptFrom_markerOffset, ← rewritten_nil]
    exact (h.places d hd).closes.exists_split h.scan_unmarked
  rw [rewritten_nil]
  simpa only [keptFrom_markerOffset] using MarkedPiece.exists_rewritten hbounds

/-- The tokens of the text with the markers of its diagnostics are moved, and its expectations are
those of the diagnostics, where the tokens stop now, in the order of the markers. -/
theorem exists_expectations : ∃ r es,
    Token.scan (String.ofList (rewritten text.toList cuts ds)) = .ok (Token.relocateAll r ts₀) ∧
    StrictMono r.stop ∧ Expectation.ofText (rewritten text.toList cuts ds) = .ok es ∧
    (es.map fun e => (e.anchor, e.code, e.message))
      = (ds.mergeSort fun d d' =>
          d.markerOffset text.toList ≤ d'.markerOffset text.toList).map fun d =>
        (r.stop (keptFrom cuts 0 text.toList d.span.stop), d.code, d.text?) := by
  obtain ⟨pieces, rest, hplain, hmarked, hplaced⟩ := h.exists_pieces
  have hperm := List.mergeSort_perm ds fun d d' =>
    decide (d.markerOffset text.toList ≤ d'.markerOffset text.toList)
  have hdiagnostics : pieces.map MarkedPiece.diagnostic
      = ds.mergeSort fun d d' => d.markerOffset text.toList ≤ d'.markerOffset text.toList := by
    rw [← MarkedPiece.map_diagnostic_placed pieces 0, hplaced, List.map_map]
    exact List.map_id _
  have hof : ∀ p ∈ pieces, p.diagnostic ∈ ds := fun p hp =>
    hperm.mem_iff.1 (hdiagnostics ▸ List.mem_map_of_mem hp)
  have htakes : ∀ x ∈ MarkedPiece.placed 0 pieces,
      TakesMarker (rewritten text.toList cuts []) ts₀ x.1 := by
    intro x hx
    rw [hplaced] at hx
    obtain ⟨d, hd, rfl⟩ := List.mem_map.1 hx
    exact h.places d (hperm.mem_iff.1 hd)
  obtain ⟨r, hscan, hstrict, -, -, hanchors⟩ := @MarkedPiece.scan_marked rest pieces [] ts₀
    (fun p hp => h.messages _ (hof p hp)) (hplain ▸ h.scan_unmarked) (hplain ▸ htakes)
  rw [List.nil_append, hmarked] at hscan
  have hreadable : ∀ p ∈ pieces, p.Readable := by
    intro p hp
    refine ⟨h.messages _ (hof p hp), fun c hc => ?_⟩
    obtain ⟨front, behind, hsplit, hmem⟩ := @MarkedPiece.exists_split_of_mem rest _ _ hp 0
    refine (htakes _ hmem).ends c ?_
    rw [← hplain, hsplit, Nat.zero_add, Text.endsAt_append, List.getLast?_append, hc]
    rfl
  obtain ⟨es, hes, hplaces, hread⟩ := Expectation.ofText_marked hreadable (hplain ▸ h.unmarked)
  rw [hmarked] at hes
  refine ⟨r, es, hscan, hstrict, hes, map_prodMk_eq ?_ ?_⟩
  · rw [byteLength_nil, hplaced, List.map_map] at hanchors
    exact hplaces.trans hanchors.symm
  · rw [← hdiagnostics, List.map_map]
    exact map_eq_of_forall₂ hread fun e p he => congrArg₂ Prod.mk he.1 he.2

section

variable {r : Relocation} (hscan : Token.scan (String.ofList (rewritten text.toList cuts ds))
  = .ok (Token.relocateAll r ts₀))

include hscan

/-- The text with the markers of its diagnostics gets the same diagnostics at the same tokens. -/
theorem forall₂_matches (hds : analyze text (fixtureOptions text.toList) = .ok ds) :
    ∃ ds', analyze (String.ofList (rewritten text.toList cuts ds))
        (fixtureOptions (rewritten text.toList cuts ds)) = .ok ds' ∧
      List.Forall₂ (Diagnostic.Matches ts (Token.relocateAll r ts₀)) ds ds' := by
  have hbare : Token.relocateAll .bare ts
      = Token.relocateAll .bare (Token.relocateAll r ts₀) := by
    rw [Token.bareAll_relocate]
    exact Token.bare_of_sameKinds h.kinds
  have hboth := analyze_of_admits h.scan hscan hbare (fixtureOptions text.toList)
    fun d d' hd hd' hm => by
      have hstart := h.suppressed _ hscan _ _ (.inl hm.start) d'.code
      have hstop := h.suppressed _ hscan _ _ (.inr hm.stop) d'.code
      rw [hd.ofSpan, hd'.ofSpan, hm.code]
      simp only [CheckerOptions.admits, Diagnostic.ofSpan, Diagnostic.severity,
        String.toList_ofList, hstart, hstop]
  rw [hds] at hboth
  rw [h.options]
  cases hds' : analyze (String.ofList (rewritten text.toList cuts ds)) (fixtureOptions text.toList) with
  | error e =>
    rw [hds'] at hboth
    exact hboth.elim
  | ok ds' =>
    rw [hds'] at hboth
    exact ⟨ds', rfl, hboth⟩

omit hscan in
/-- Where a token of the text stops, and where it stops with the markers of the diagnostics. -/
theorem stop_of_sameStop {x x' : Nat} (hx : Token.SameStop ts (Token.relocateAll r ts₀) x x') :
    x ∈ Token.stops ts ∧ x' = r.stop (keptFrom cuts 0 text.toList x) := by
  obtain ⟨i, hi, hi'⟩ := hx
  have hstops : Token.stops (Token.relocateAll r ts₀)
      = (Token.stops ts).map fun x => r.stop (keptFrom cuts 0 text.toList x) := by
    rw [Token.stops, Token.allPlaces_relocateAll, TokenPlace.filterMap_stop?_relocate,
      ← Token.stops, h.stops, List.map_map]
    rfl
  rw [hstops, List.getElem?_map, hi] at hi'
  exact ⟨List.mem_of_getElem? hi, (Option.some.inj hi').symm⟩

/-- The diagnostics of the text with the markers are those of the text, where the tokens stop now. In
the order of their places they are in the order of the markers. -/
theorem exists_report (hstrict : StrictMono r.stop)
    (hds : analyze text (fixtureOptions text.toList) = .ok ds) :
    ∃ ds', analyze (String.ofList (rewritten text.toList cuts ds))
        (fixtureOptions (rewritten text.toList cuts ds)) = .ok ds' ∧
      ((ds.mergeSort fun d d' =>
          d.markerOffset text.toList ≤ d'.markerOffset text.toList).map fun d =>
        (r.stop (keptFrom cuts 0 text.toList d.span.stop), d.code, d.text?))
      = (ds'.mergeSort fun d d' => d.span.stop ≤ d'.span.stop).map fun d' =>
        (d'.span.stop, d'.code, d'.text?) := by
  obtain ⟨ds', hds', hmatches⟩ := h.forall₂_matches hscan hds
  have hstop := fun d d' (hm : Diagnostic.Matches ts (Token.relocateAll r ts₀) d d') =>
    h.stop_of_sameStop hm.stop
  obtain ⟨hmem, -⟩ : (∀ d ∈ ds, d.span.stop ∈ Token.stops ts) ∧ _ :=
    List.forall₂_and_left _ _ |>.1 (hmatches.imp fun d d' hm => ⟨(hstop d d' hm).1, hm⟩)
  have hsame : (ds.map fun d => (r.stop (keptFrom cuts 0 text.toList d.span.stop), d.code, d.text?))
      = ds'.map fun d' => (d'.span.stop, d'.code, d'.text?) :=
    map_eq_of_forall₂ hmatches fun d d' hm => by
      rw [(hstop d d' hm).2, hm.code, Diagnostic.text?, Diagnostic.text?, hm.message]
  refine ⟨ds', hds', ?_⟩
  rw [List.map_mergeSort (s := fun x y => decide (x.1 ≤ y.1)), hsame,
    List.map_mergeSort (s := fun x y => decide (x.1 ≤ y.1))]
  · exact fun _ _ _ _ => rfl
  · exact fun d hd d' hd' => decide_eq_decide.2
      ((h.markerOffset_le_iff (hmem d hd) (hmem d' hd')).trans
        ((h.kept_le_iff (hmem d hd) (hmem d' hd')).symm.trans hstrict.le_iff_le.symm))

end

/-- The report on the text with the markers of its diagnostics: its diagnostics are the same, at the
places of the expectations. -/
theorem unpaired_eq_nil (hds : analyze text (fixtureOptions text.toList) = .ok ds) :
    ∃ es ds', Expectation.ofText (rewritten text.toList cuts ds) = .ok es ∧
      analyze (String.ofList (rewritten text.toList cuts ds))
        (fixtureOptions (rewritten text.toList cuts ds)) = .ok ds' ∧
      unpaired es ds' = ([], []) := by
  obtain ⟨r, es, hscan, hstrict, hes, hexpected⟩ := h.exists_expectations
  obtain ⟨ds', hds', hordered⟩ := h.exists_report hscan hstrict hds
  have hmet := forall₂_of_map_eq (R := fun e d' => Expectation.isMetBy e d' = true)
    (hexpected.trans hordered) fun e _ d' _ heq => by
      obtain ⟨hanchor, hcode, hmessage⟩ : e.anchor = d'.span.stop ∧ e.code = d'.code ∧
          e.message = d'.text? := by simpa using heq
      exact Expectation.isMetBy_of_text? hcode hmessage hanchor rfl rfl
  exact ⟨es, ds', hes, hds', unpaired_of_grouped hmet (filter_mergeSort ds')⟩

end Rewritable

theorem runFixture_eq {path : Path} {text : String} {es : List Expectation} {ds : List Diagnostic}
    (hes : Expectation.ofText text.toList = .ok es)
    (hds : analyze text (fixtureOptions text.toList) = .ok ds) :
    runFixture path text = .ok ⟨path, (unpaired es ds).1, (unpaired es ds).2,
      String.ofList (rewritten text.toList (es.map Expectation.marker) ds)⟩ := by
  unfold runFixture
  simp only [hes, hds]
  rfl

/-- When a fixture can be rewritten, the fixture that its report gives passes, in whatever file. -/
theorem isSuccess_of_rewritable {path path' : Path} {text : String} {r : FixtureReport}
    {es : List Expectation} {ds : List Diagnostic} {ts ts₀ : List Token}
    (h : runFixture path text = .ok r) (hes : Expectation.ofText text.toList = .ok es)
    (hds : analyze text (fixtureOptions text.toList) = .ok ds)
    (hrewritable : Rewritable text (es.map Expectation.marker) ds ts ts₀) :
    ∃ r', runFixture path' r.actual = .ok r' ∧ r'.isSuccess = true := by
  obtain ⟨es', ds', hes', hds', hpaired⟩ := hrewritable.unpaired_eq_nil hds
  have hactual : r.actual = String.ofList (rewritten text.toList (es.map Expectation.marker) ds) := by
    rw [runFixture_eq hes hds] at h
    exact (Except.ok.inj h ▸ rfl)
  rw [hactual]
  refine ⟨_, runFixture_eq (by rw [String.toList_ofList]; exact hes')
    (by rw [String.toList_ofList]; exact hds'), ?_⟩
  rw [hpaired]
  rfl

/-- The report on a text with one finding. -/
theorem analyze_of_found {text : String} {options : CheckerOptions} {ts : List Token} {x : Finding}
    (hts : Token.scan text = .ok ts) (hfound : (SourceUnit.ofTokens ts).found options = some [x])
    (hadmits : options.admits text.toList (.ofSpan text.toList x.code x.span x.message) = true) :
    analyze text options = .ok [.ofSpan text.toList x.code x.span x.message] := by
  have hraised : SourceUnit.raised text.toList options [x]
      = [.ofSpan text.toList x.code x.span x.message] := List.filter_cons_of_pos hadmits
  have hreport (d : Diagnostic) : Diagnostic.report [d] = [d] := by
    rw [Diagnostic.report, List.mergeSort_singleton, Diagnostic.withoutRepeats]
    simp
  unfold analyze SourceUnit.ofText
  rw [hts]
  simp only [Except.map, SourceUnit.check_eq, hfound, Option.map_some, hraised, hreport]

/-- A fixture up to the name of a missing column. -/
def terseFront : List Char := "val a = dataFrameOf(\"x\" to 1)\nval b = a.".toList

/-- The marker does not say which column is missing. -/
def terseText : String := String.ofList (terseFront ++ ['y'] ++ "/*!UNKNOWN_COLUMN*/\n".toList)

def terseDiagnostic : Diagnostic :=
  .ofSpan terseText.toList .unknownColumn ⟨38, 41⟩
    "Column 'y' does not exist in inferred column set (did you mean 'x'?)"

/-- The marker can be taken out, and the one that says it be put in. -/
theorem rewritable_terseText : ∃ ts ts₀,
    analyze terseText (fixtureOptions terseText.toList) = .ok [terseDiagnostic] ∧
      Rewritable terseText [⟨41, 60⟩] [terseDiagnostic] ts ts₀ := by
  have hspelled : terseText = String.ofList _ := rfl
  have hplain : rewritten terseText.toList [⟨41, 60⟩] [] = terseFront ++ ['y'] ++ ['\n'] := by
    rw [hspelled, String.toList_ofList]
    decide +kernel
  have hmarked : rewritten terseText.toList [⟨41, 60⟩] [terseDiagnostic]
      = terseFront ++ ['y'] ++ (terseDiagnostic.marker ++ ['\n']) := by
    rw [hspelled, String.toList_ofList]
    decide +kernel
  have hoptions : fixtureOptions terseText.toList = {} := by
    rw [hspelled, String.toList_ofList]
    decide +kernel
  have hunsuppressed : Text.contains suppressionMark terseText.toList = false := by
    rw [hspelled, String.toList_ofList]
    decide +kernel
  obtain ⟨ts₀, hts₀, hscan₀⟩ : ∃ ts₀, Token.scan (String.ofList (terseFront ++ ['y'] ++ ['\n'])) = .ok ts₀ ∧
      (ts₀.any fun t => t.span == ⟨40, 41⟩ && !t.kind.isEof) = true :=
    Token.exists_scan rfl (by decide +kernel)
  obtain ⟨ts, hts, hscan⟩ : ∃ ts, Token.scan terseText = .ok ts ∧
      ((SourceUnit.ofTokens ts).found {} == some [⟨.unknownColumn, ⟨38, 41⟩, terseDiagnostic.message⟩]
        && (Token.scan (String.ofList (terseFront ++ ['y'] ++ ['\n']))).toOption.any fun ts₀ =>
          Token.sameKinds ts ts₀ && Token.stops ts₀ == (Token.stops ts).map
            (keptFrom [⟨41, 60⟩] 0 terseText.toList)) = true := by
    rw [hspelled, String.toList_ofList]
    refine Token.exists_scan rfl ?_
    decide +kernel
  rw [hts₀, Except.toOption, Option.any_some] at hscan
  simp only [Bool.and_eq_true, beq_iff_eq] at hscan
  obtain ⟨hfound, hkinds, hstops⟩ := hscan
  simp only [List.any_eq_true, Bool.and_eq_true, beq_iff_eq, Bool.not_eq_true'] at hscan₀
  obtain ⟨t, ht, hspan, hkind⟩ := hscan₀
  refine ⟨ts, ts₀, ?_, hts, hplain ▸ hts₀, hkinds, hstops, ?_, ?_, ?_, ?_, ?_⟩
  · rw [hoptions]
    refine analyze_of_found hts hfound ?_
    rw [CheckerOptions.admits_of_not_contains {} hunsuppressed]
    rfl
  · rw [hplain]
    decide +kernel
  · simp only [List.mem_singleton, forall_eq]
    exact ⟨by decide +kernel, by decide +kernel⟩
  · simp only [List.mem_singleton, forall_eq]
    have hkept : keptFrom [⟨41, 60⟩] 0 terseText.toList terseDiagnostic.span.stop
        = byteLength (terseFront ++ ['y']) := by
      rw [hspelled, String.toList_ofList]
      decide +kernel
    rw [hplain, hkept]
    refine TakesMarker.of_token ht (hspan.trans (by decide +kernel)) hkind (by decide +kernel) ?_
    intro c hc
    rw [List.getLast?_append] at hc
    obtain rfl := Option.some.inj hc
    decide +kernel
  · rw [hmarked, hoptions]
    decide +kernel
  · intro _ _ _ _ _ _
    rw [hmarked]
    rw [isSuppressed_of_not_contains hunsuppressed, isSuppressed_of_not_contains]
    decide +kernel

/-- The fixture passes with the marker of its report. -/
theorem isSuccess_terseText : ∃ es ts ts₀ r r', Expectation.ofText terseText.toList = .ok es ∧
    analyze terseText (fixtureOptions terseText.toList) = .ok [terseDiagnostic] ∧
      Rewritable terseText (es.map Expectation.marker) [terseDiagnostic] ts ts₀ ∧
        runFixture ⟨.nothing, ["terse.kt"]⟩ terseText = .ok r ∧
          runFixture ⟨.nothing, ["actual.kt"]⟩ r.actual = .ok r' ∧ r'.isSuccess = true := by
  obtain ⟨ts, ts₀, hds, hrewritable⟩ := rewritable_terseText
  have hes : Expectation.ofText terseText.toList = .ok [⟨2, 41, .unknownColumn, none, ⟨41, 60⟩⟩] := by
    rw [terseText, String.toList_ofList]
    decide +kernel
  have hrun := @runFixture_eq ⟨.nothing, ["terse.kt"]⟩ _ _ _ hes hds
  obtain ⟨r', hr', hsuccess⟩ := isSuccess_of_rewritable hrun hes hds hrewritable
  exact ⟨_, ts, ts₀, _, r', hes, hds, hrewritable, hrun, hr', hsuccess⟩

/-- A fixture with a missing column whose name closes a comment. -/
def closingText : String := "val a = dataFrameOf(\"x\" to 1)\nval b = a[\"y*/z\"]\n"

def closingDiagnostic : Diagnostic :=
  .ofSpan closingText.toList .unknownColumn ⟨38, 47⟩
    "Column 'y*/z' does not exist in inferred column set"

/-- The marker of the report ends in the middle of the message, and what is left of it is no text
of the language. -/
theorem not_isSuccess_closingText : ∃ r e,
    runFixture ⟨.nothing, ["closing.kt"]⟩ closingText = .ok r ∧
      runFixture ⟨.nothing, ["closing.kt"]⟩ r.actual
        = .error (.analysis ⟨.nothing, ["closing.kt"]⟩ (.scan e)) := by
  have hspelled : closingText = String.ofList _ := rfl
  have hoptions : fixtureOptions closingText.toList = {} := by
    rw [hspelled, String.toList_ofList]
    decide +kernel
  have hunsuppressed : Text.contains suppressionMark closingText.toList = false := by
    rw [hspelled, String.toList_ofList]
    decide +kernel
  obtain ⟨ts, hts, hfound⟩ : ∃ ts, Token.scan closingText = .ok ts ∧
      ((SourceUnit.ofTokens ts).found {} == some [⟨.unknownColumn, ⟨38, 47⟩,
        closingDiagnostic.message⟩]) = true := by
    rw [hspelled]
    exact Token.exists_scan rfl (by decide +kernel)
  have hes : Expectation.ofText closingText.toList = .ok [] := by
    rw [hspelled, String.toList_ofList]
    decide +kernel
  have hds : analyze closingText (fixtureOptions closingText.toList) = .ok [closingDiagnostic] := by
    rw [hoptions]
    refine analyze_of_found hts (beq_iff_eq.1 hfound) ?_
    rw [CheckerOptions.admits_of_not_contains {} hunsuppressed]
    rfl
  have hrun := @runFixture_eq ⟨.nothing, ["closing.kt"]⟩ _ _ _ hes hds
  have hread : (Expectation.ofText (rewritten closingText.toList [] [closingDiagnostic])).toOption.isSome
      = true := by
    rw [hspelled, String.toList_ofList]
    decide +kernel
  have herror : (Token.scan (String.ofList (rewritten closingText.toList []
      [closingDiagnostic]))).toOption.isNone = true := by
    rw [hspelled, String.toList_ofList, Token.scan_ofList rfl]
    decide +kernel
  cases hes' : Expectation.ofText (rewritten closingText.toList [] [closingDiagnostic]) with
  | error e => simp [hes', Except.toOption] at hread
  | ok es' =>
  cases hts' : Token.scan (String.ofList (rewritten closingText.toList [] [closingDiagnostic])) with
  | ok ts' => simp [hts', Except.toOption] at herror
  | error e =>
  refine ⟨_, e, hrun, ?_⟩
  rw [← String.toList_ofList (l := rewritten closingText.toList [] [closingDiagnostic])] at hes'
  have hscan : analyze (String.ofList (rewritten closingText.toList [] [closingDiagnostic]))
      (fixtureOptions (String.ofList (rewritten closingText.toList [] [closingDiagnostic])).toList)
        = .error (.scan e) := by
    unfold analyze SourceUnit.ofText
    rw [hts']
    rfl
  unfold runFixture
  simp only [List.map_nil, hes', hscan]
  rfl

end FrameCheck
