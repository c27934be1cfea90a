import FrameCheck.Proofs.Token.Places
import Mathlib.Data.List.Basic
import Mathlib.Order.Basic

/-!
# Numbered places

When each place has its number among the starts or among the stops of tokens, then texts
whose tokens have the same kinds have the same tokens.

* `Token.relocateAll_canonical` : tokens of the same kinds, once their places are numbered.
-/

namespace FrameCheck

/-! ## Ranks -/

/-- How many numbers of the list are less. -/
def rank (l : List Nat) (x : Nat) : Nat := l.countP (· < x)

theorem rank_mono (l : List Nat) : Monotone (rank l) := by
  intro x y hxy
  refine List.countP_mono_left fun z _ hz => ?_
  have hz : z < x := by simpa using hz
  simpa using Nat.lt_of_lt_of_le hz hxy

/-- Each number of a strictly ascending list is less than those behind it. -/
theorem map_rank {l : List Nat} (h : l.Pairwise (· < ·)) :
    l.map (rank l) = List.range l.length := by
  induction l with
  | nil => rfl
  | cons x l ih =>
    obtain ⟨hx, hl⟩ := List.pairwise_cons.1 h
    have hhead : rank (x :: l) x = 0 := by
      refine List.countP_eq_zero.2 fun y hy => ?_
      rcases List.mem_cons.1 hy with rfl | hy
      · simp
      · simpa using Nat.le_of_lt (hx y hy)
    have htail : l.map (rank (x :: l)) = (l.map (rank l)).map Nat.succ := by
      rw [List.map_map]
      refine List.map_congr_left fun y hy => ?_
      rw [rank, List.countP_cons_of_pos (by simpa using hx y hy)]
      rfl
    rw [List.map_cons, hhead, htail, ih hl, List.length_cons, List.range_succ_eq_map]

theorem rank_getElem? {l : List Nat} (h : l.Pairwise (· < ·)) {i x : Nat} (hx : l[i]? = some x) :
    rank l x = i := by
  have hi := congrArg (·[i]?) (map_rank h)
  simp only [List.getElem?_map, hx, Option.map_some] at hi
  obtain ⟨hlt, -⟩ := List.getElem?_eq_some_iff.1 hx
  rw [List.getElem?_range hlt] at hi
  exact Option.some.inj hi

theorem rank_inj {l : List Nat} (h : l.Pairwise (· < ·)) {x y : Nat} (hx : x ∈ l) (hy : y ∈ l)
    (heq : rank l x = rank l y) : x = y := by
  obtain ⟨i, hi⟩ := List.getElem?_of_mem hx
  obtain ⟨j, hj⟩ := List.getElem?_of_mem hy
  rw [rank_getElem? h hi, rank_getElem? h hj] at heq
  rw [heq, hj] at hi
  exact (Option.some.inj hi).symm

/-- The numbers of a strictly ascending list are ordered as their ranks. -/
theorem compare_rank {l : List Nat} (h : l.Pairwise (· < ·)) {x y : Nat} (hx : x ∈ l)
    (hy : y ∈ l) : compare (rank l x) (rank l y) = compare x y := by
  have hlt {x y : Nat} (hx : x ∈ l) (hy : y ∈ l) (hxy : x < y) : rank l x < rank l y :=
    lt_of_le_of_ne (rank_mono l hxy.le) fun heq => hxy.ne (rank_inj h hx hy heq)
  rcases lt_trichotomy x y with hxy | rfl | hxy
  · rw [Nat.compare_eq_lt.2 hxy, Nat.compare_eq_lt.2 (hlt hx hy hxy)]
  · rw [Nat.compare_eq_eq.2 rfl, Nat.compare_eq_eq.2 rfl]
  · rw [Nat.compare_eq_gt.2 hxy, Nat.compare_eq_gt.2 (hlt hy hx hxy)]

/-! ## Numbered tokens -/

namespace Token

/-- Where the tokens start, those of templates behind their strings. -/
def starts (ts : List Token) : List Nat := (allPlaces ts).filterMap TokenPlace.start?

/-- Where the tokens stop, those of templates before their strings. -/
def stops (ts : List Token) : List Nat := (allPlaces ts).filterMap TokenPlace.stop?

end Token

mutual

/-- Whether two kinds are the same, with the tokens of templates compared by their kinds. -/
def TokenKind.same : TokenKind → TokenKind → Bool
  | .template parts, .template parts' => Token.sameParts parts parts'
  | .name s, .name t | .text s, .text t => s == t
  | .integer m, .integer n | .long m, .long n => m == n
  | .double v, .double w | .single v, .single w => v = w
  | .character c, .character d => c == d
  | .keyword v, .keyword w => v == w
  | .mark m, .mark n => m == n
  | .newline, .newline | .eof, .eof => true
  | _, _ => false

def Token.same : Token → Token → Bool
  | ⟨kind, _⟩, ⟨kind', _⟩ => kind.same kind'

/-- Whether the tokens of two lists have the same kinds, position by position. -/
def Token.sameKinds : List Token → List Token → Bool
  | [], [] => true
  | t :: ts, t' :: ts' => t.same t' && Token.sameKinds ts ts'
  | _, _ => false

def Token.sameParts : List (List Token) → List (List Token) → Bool
  | [], [] => true
  | ts :: parts, ts' :: parts' => Token.sameKinds ts ts' && Token.sameParts parts parts'
  | _, _ => false

end

mutual

theorem TokenKind.bare_of_same : ∀ {k k' : TokenKind}, k.same k' = true →
    k.relocate .bare = k'.relocate .bare
  | .template parts, k', h => by
    cases k'
    case template parts' =>
      rw [TokenKind.same] at h
      rw [TokenKind.relocate, TokenKind.relocate, Token.bare_of_sameParts h]
    all_goals simp [TokenKind.same] at h
  | .name _, k', h | .text _, k', h | .integer _, k', h | .long _, k', h | .double _, k', h
  | .single _, k', h | .character _, k', h | .keyword _, k', h | .mark _, k', h => by
    cases k' <;> simp_all [TokenKind.same]
  | .newline, k', h | .eof, k', h => by
    cases k' <;> simp_all [TokenKind.same]

theorem Token.bare_of_same : ∀ {t t' : Token} (atEnd atEnd' : Bool), t.same t' = true →
    t.relocate .bare atEnd = t'.relocate .bare atEnd'
  | ⟨kind, span⟩, ⟨kind', span'⟩, atEnd, atEnd', h => by
    rw [Token.same] at h
    rw [Token.relocate, Token.relocate, TokenKind.bare_of_same h]
    congr 1
    split <;> split <;> rfl

theorem Token.bare_of_sameKinds : ∀ {ts ts' : List Token}, Token.sameKinds ts ts' = true →
    Token.relocateAll .bare ts = Token.relocateAll .bare ts'
  | [], [], _ => rfl
  | [], _ :: _, h | _ :: _, [], h => by
    rw [Token.sameKinds] at h
    · exact nomatch h
    all_goals exact nofun
  | t :: ts, t' :: ts', h => by
    rw [Token.sameKinds, Bool.and_eq_true] at h
    rw [Token.relocateAll, Token.relocateAll, Token.bare_of_same _ _ h.1,
      Token.bare_of_sameKinds h.2]

theorem Token.bare_of_sameParts : ∀ {parts parts' : List (List Token)},
    Token.sameParts parts parts' = true →
      Token.relocateParts .bare parts = Token.relocateParts .bare parts'
  | [], [], _ => rfl
  | [], _ :: _, h | _ :: _, [], h => by
    rw [Token.sameParts] at h
    · exact nomatch h
    all_goals exact nofun
  | ts :: parts, ts' :: parts', h => by
    rw [Token.sameParts, Bool.and_eq_true] at h
    rw [Token.relocateParts, Token.relocateParts, Token.bare_of_sameKinds h.1,
      Token.bare_of_sameParts h.2]

end

/-- Each place by its number among the starts or the stops of the tokens. -/
def Relocation.canonical (ts : List Token) : Relocation where
  start := rank (Token.starts ts)
  stop := rank (Token.stops ts)
  last _ := ⟨0, 0⟩
  start_mono := rank_mono _
  stop_mono := rank_mono _

/-- Places are known from what kind each is and from the starts, the stops and the ends. -/
theorem TokenPlace.ext_lists {xs ys : List TokenPlace}
    (h : xs.map (relocate .bare) = ys.map (relocate .bare))
    (hstart : xs.filterMap start? = ys.filterMap start?)
    (hstop : xs.filterMap stop? = ys.filterMap stop?)
    (hlast : xs.filterMap last? = ys.filterMap last?) : xs = ys := by
  induction xs generalizing ys with
  | nil => exact (List.map_eq_nil_iff.1 h.symm).symm
  | cons x xs ih =>
    rcases ys with _ | ⟨y, ys⟩
    · exact nomatch h
    obtain ⟨hxy, hmore⟩ := List.cons.inj h
    cases x <;> cases y <;> simp only [relocate, reduceCtorEq] at hxy
    · obtain ⟨rfl, hrest⟩ := List.cons.inj hstart
      rw [ih hmore hrest hstop hlast]
    · obtain ⟨rfl, hrest⟩ := List.cons.inj hstop
      rw [ih hmore hstart hrest hlast]
    · obtain ⟨rfl, hrest⟩ := List.cons.inj hlast
      rw [ih hmore hstart hstop hrest]

theorem TokenPlace.bare_relocate (r : Relocation) (x : TokenPlace) :
    (x.relocate r).relocate .bare = x.relocate .bare := by
  cases x <;> rfl

theorem TokenPlace.filterMap_start?_relocate (r : Relocation) (xs : List TokenPlace) :
    (xs.map (relocate r)).filterMap start? = (xs.filterMap start?).map r.start := by
  rw [List.filterMap_map, List.map_filterMap]
  exact List.filterMap_congr fun x _ => by cases x <;> rfl

theorem TokenPlace.filterMap_stop?_relocate (r : Relocation) (xs : List TokenPlace) :
    (xs.map (relocate r)).filterMap stop? = (xs.filterMap stop?).map r.stop := by
  rw [List.filterMap_map, List.map_filterMap]
  exact List.filterMap_congr fun x _ => by cases x <;> rfl

theorem TokenPlace.filterMap_last?_relocate (r : Relocation) (xs : List TokenPlace) :
    (xs.map (relocate r)).filterMap last? = (xs.filterMap last?).map r.last := by
  rw [List.filterMap_map, List.map_filterMap]
  exact List.filterMap_congr fun x _ => by cases x <;> rfl

namespace Token

section

variable {ts ts' : List Token} (h : relocateAll .bare ts = relocateAll .bare ts')

include h

theorem bare_allPlaces :
    (allPlaces ts).map (TokenPlace.relocate .bare) = (allPlaces ts').map (TokenPlace.relocate .bare) := by
  rw [← allPlaces_relocateAll, ← allPlaces_relocateAll, h]

theorem length_starts : (starts ts).length = (starts ts').length := by
  unfold starts
  have hbare := congrArg (List.filterMap TokenPlace.start?) (bare_allPlaces h)
  rw [TokenPlace.filterMap_start?_relocate, TokenPlace.filterMap_start?_relocate] at hbare
  simpa only [List.length_map] using congrArg List.length hbare

theorem length_stops : (stops ts).length = (stops ts').length := by
  unfold stops
  have hbare := congrArg (List.filterMap TokenPlace.stop?) (bare_allPlaces h)
  rw [TokenPlace.filterMap_stop?_relocate, TokenPlace.filterMap_stop?_relocate] at hbare
  simpa only [List.length_map] using congrArg List.length hbare

/-- With numbered places tokens of the same kinds are the same. -/
theorem relocateAll_canonical (hstarts : (starts ts).Pairwise (· < ·))
    (hstops : (stops ts).Pairwise (· < ·)) (hstarts' : (starts ts').Pairwise (· < ·))
    (hstops' : (stops ts').Pairwise (· < ·)) :
    relocateAll (.canonical ts) ts = relocateAll (.canonical ts') ts' := by
  refine ext_allPlaces ?_ ?_
  · rw [bareAll_relocate, bareAll_relocate, h]
  rw [allPlaces_relocateAll, allPlaces_relocateAll]
  refine TokenPlace.ext_lists ?_ ?_ ?_ ?_
  · rw [List.map_map, List.map_map]
    simpa only [Function.comp_def, TokenPlace.bare_relocate] using bare_allPlaces h
  · rw [TokenPlace.filterMap_start?_relocate, TokenPlace.filterMap_start?_relocate]
    show (starts ts).map (rank _) = (starts ts').map (rank _)
    rw [map_rank hstarts, map_rank hstarts', length_starts h]
  · rw [TokenPlace.filterMap_stop?_relocate, TokenPlace.filterMap_stop?_relocate]
    show (stops ts).map (rank _) = (stops ts').map (rank _)
    rw [map_rank hstops, map_rank hstops', length_stops h]
  · rw [TokenPlace.filterMap_last?_relocate, TokenPlace.filterMap_last?_relocate]
    have hbare := congrArg (List.filterMap TokenPlace.last?) (bare_allPlaces h)
    rwa [TokenPlace.filterMap_last?_relocate, TokenPlace.filterMap_last?_relocate] at hbare

end

/-- The starts and the stops of the tokens of a text rise. -/
theorem places_of_scan {text : String} {ts : List Token} (h : scan text = .ok ts) :
    (starts ts).Pairwise (· < ·) ∧ (stops ts).Pairwise (· < ·) := by
  obtain ⟨s, hs, rfl⟩ := exists_ok_of_map h
  have hplaces := (readsCode_of_ok hs).laidOut
  exact ⟨hplaces.starts.pairwise, hplaces.stops.pairwise⟩

end Token

/-! ## Fixed places -/

/-- The offset `x` moves on by one, and no other does. -/
def bump (x y : Nat) : Nat := if y = x then x + 1 else y

theorem bump_mono (x : Nat) : Monotone (bump x) := by
  intro y z h
  unfold bump
  split <;> split <;> omega

theorem bump_eq_self {x y : Nat} : bump x y = y ↔ y ≠ x := by
  unfold bump
  split <;> omega

/-- Tokens whose places stay are the same. -/
theorem Token.relocateAll_eq_self {r : Relocation} {ts : List Token}
    (h : ∀ x ∈ Token.allPlaces ts, x.relocate r = x) : Token.relocateAll r ts = ts := by
  refine Token.ext_allPlaces (Token.bareAll_relocate r ts) ?_
  rw [Token.allPlaces_relocateAll]
  exact (List.map_congr_left h).trans (List.map_id _)

end FrameCheck
