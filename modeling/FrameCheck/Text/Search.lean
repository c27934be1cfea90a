/-!
# Parts of a text

Finding a part in a text, and taking a text apart at a separator. The first occurrence of a
part counts, and the pieces that a text is taken into are the text again when they are put
together (`cut?_eq_some`, `intercalate_splitAt`).
-/

namespace FrameCheck.Text

/-- What stands before the first occurrence of `part`, and what stands behind it. -/
def cut? (part : List Char) : List Char → Option (List Char × List Char)
  | [] => if part.isEmpty then some ([], []) else none
  | c :: cs =>
    if part.isPrefixOf (c :: cs) then some ([], (c :: cs).drop part.length)
    else (cut? part cs).map fun pieces => (c :: pieces.1, pieces.2)

theorem cut?_eq_some {part cs before behind : List Char}
    (h : cut? part cs = some (before, behind)) : cs = before ++ part ++ behind := by
  induction cs generalizing before behind with
  | nil =>
    simp only [cut?] at h
    split at h <;> simp_all
  | cons c cs ih =>
    simp only [cut?] at h
    split at h
    · next hp =>
      obtain ⟨rest, hr⟩ := List.isPrefixOf_iff_prefix.1 hp
      simp only [Option.some.injEq, Prod.mk.injEq] at h
      obtain ⟨rfl, rfl⟩ := h
      simp [← hr]
    · obtain ⟨⟨b, r⟩, hb, he⟩ := Option.map_eq_some_iff.1 h
      simp only [Prod.mk.injEq] at he
      obtain ⟨rfl, rfl⟩ := he
      simp [ih hb]

/-- What stands behind the first occurrence of `part`. -/
def after? (part cs : List Char) : Option (List Char) := (cut? part cs).map Prod.snd

/-- Whether `part` occurs in a text. -/
def contains (part cs : List Char) : Bool := (cut? part cs).isSome

/-- The pieces of a text between the separators. -/
def splitAt (separator : Char) : List Char → List (List Char)
  | [] => [[]]
  | c :: cs =>
    if c = separator then [] :: splitAt separator cs
    else
      match splitAt separator cs with
      | [] => [[c]]
      | piece :: rest => (c :: piece) :: rest

theorem splitAt_ne_nil (separator : Char) (cs : List Char) : splitAt separator cs ≠ [] := by
  cases cs with
  | nil => simp [splitAt]
  | cons c cs =>
    simp only [splitAt]
    split
    · simp
    · split <;> simp

theorem intercalate_splitAt (separator : Char) (cs : List Char) :
    [separator].intercalate (splitAt separator cs) = cs := by
  induction cs with
  | nil => simp [splitAt]
  | cons c cs ih =>
    simp only [splitAt]
    split
    · next h =>
      subst h
      cases hs : splitAt c cs with
      | nil => exact absurd hs (splitAt_ne_nil c cs)
      | cons piece rest => rw [hs] at ih; simp [List.intercalate, ← ih, List.intersperse]
    · cases hs : splitAt separator cs with
      | nil => exact absurd hs (splitAt_ne_nil separator cs)
      | cons piece rest =>
        rw [hs] at ih
        cases rest <;> simp_all [List.intercalate, List.intersperse]

end FrameCheck.Text
