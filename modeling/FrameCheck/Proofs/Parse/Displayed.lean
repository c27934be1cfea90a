import FrameCheck.Proofs.Parse.Operands
import FrameCheck.Proofs.Token.Code
import FrameCheck.Proofs.TypeRef.Qualified

/-!
# Displayed types are read back

A type is displayed by the last segments of its names. Scanner and parser meet in the tokens that
spell it (`TypeRef.Spelled`) : a readable type is displayed by a text that splits into tokens which
spell the type, and from tokens that spell a type the parser reads that type by the last segments
of its names. No name in a type stands directly before another, so no name is taken for a mark of
variance, and none stands before a dot.

* `Parser.Takes.typeRef_spelled` : the parser reads what the tokens spell.
* `TypeRef.Readable.readsAs` : the displayed text splits into tokens that spell the type.
* `TypeRef.parse_display` : both, from the text to the type.
-/

namespace FrameCheck

/-! ## Tokens that spell a type -/

namespace TypeRef

/-- A question mark if the type is nullable. -/
inductive SpelledEnd : Bool → List Token → Prop
  | nonNull : SpelledEnd false []
  | nullable {u : Token} (hu : u.kind = .mark .question) : SpelledEnd true [u]

mutual

/-- The tokens spell the type, by the last segments of its names. -/
inductive Spelled : TypeRef → List Token → Prop
  | star {u : Token} (hu : u.kind = .mark .star) : Spelled star [u]
  | plain {name : String} {nullable : Bool} {u : Token} {ends : List Token}
    (hu : u.kind = .name (lastSegment name)) (hends : SpelledEnd nullable ends) :
    Spelled ⟨name, [], nullable⟩ (u :: ends)
  | applied {name : String} {args : List TypeRef} {nullable : Bool} {u less greater : Token}
    {inside ends : List Token} (hu : u.kind = .name (lastSegment name))
    (hless : less.kind = .mark .less) (hargs : SpelledArgs args inside)
    (hgreater : greater.kind = .mark .greater) (hends : SpelledEnd nullable ends) :
    Spelled ⟨name, args, nullable⟩ (u :: less :: (inside ++ greater :: ends))

/-- The tokens spell the types with commas between them. -/
inductive SpelledArgs : List TypeRef → List Token → Prop
  | last {t : TypeRef} {ts : List Token} (h : Spelled t ts) : SpelledArgs [t] ts
  | more {t : TypeRef} {rest : List TypeRef} {comma : Token} {ts us : List Token}
    (h : Spelled t ts) (hcomma : comma.kind = .mark .comma) (hrest : SpelledArgs rest us) :
    SpelledArgs (t :: rest) (ts ++ comma :: us)

end

end TypeRef

/-- Tokens at which a type ends. -/
inductive Token.TypeEnd : List Token → Prop
  | token {t : Token} {ts : List Token}
    (h : t.kind = .mark .comma ∨ t.kind = .mark .greater ∨ t.kind = .eof) : TypeEnd (t :: ts)

theorem Cursor.kindAt_one_of_rest {c : Cursor} {t u : Token} {ts : List Token}
    (h : c.rest = t :: u :: ts) : c.kindAt 1 = u.kind := by
  rw [kindAt_succ]
  exact kind_of_rest (rest_advance h (List.cons_ne_nil u ts))

/-! ## Reading a type -/

namespace TypeRef

open Token (TypeEnd)

variable {t : TypeRef} {ts after : List Token} {nullable : Bool} {ends : List Token}

/-- What comes behind the name or the arguments of a type is neither a dot nor a name. -/
theorem SpelledEnd.next (h : SpelledEnd nullable ends) (hafter : TypeEnd after) :
    ∃ u us, ends ++ after = u :: us ∧ u.kind.plainName? = none ∧ u.kind.isMark .dot = false ∧
      u.kind.isMark .less = false := by
  cases h with
  | nullable hu => exact ⟨_, _, rfl, by rw [hu]; exact ⟨rfl, rfl, rfl⟩⟩
  | nonNull =>
    obtain ⟨hend⟩ := hafter
    refine ⟨_, _, rfl, ?_⟩
    rcases hend with hend | hend | hend <;> rw [hend] <;> exact ⟨rfl, rfl, rfl⟩

/-- No name stands behind the first token of a type. -/
theorem Spelled.next (h : Spelled t ts) (hafter : TypeEnd after) :
    ∃ u v us, ts ++ after = u :: v :: us ∧ v.kind.plainName? = none := by
  cases h with
  | star =>
    obtain ⟨v, us, hus, hv, -⟩ := SpelledEnd.next .nonNull hafter
    exact ⟨_, v, us, congrArg _ hus, hv⟩
  | plain _ hends =>
    obtain ⟨v, us, hus, hv, -⟩ := hends.next hafter
    exact ⟨_, v, us, congrArg _ hus, hv⟩
  | applied _ hless => exact ⟨_, _, _, rfl, by rw [hless]; rfl⟩

end TypeRef

namespace Parser.Takes

open Token (TypeEnd)
open TypeRef (Spelled SpelledEnd SpelledArgs)

variable {g : Grammar} {t : TypeRef} {ts after : List Token} {nullable : Bool} {ends : List Token}

/-- A name is a mark of variance only before another. -/
theorem skipVariance_of_next {u v : Token} (hv : v.kind.plainName? = none) :
    Takes skipVariance (u :: v :: ts) (u :: v :: ts) fun _ => True := by
  refine ofCursor fun c hc => ?_
  rw [Cursor.kindAt_one_of_rest hc, hv, Option.isSome_none, Bool.and_false]
  exact answer trivial

theorem question (h : SpelledEnd nullable ends) (hafter : TypeEnd after) :
    Takes (eat .question) (ends ++ after) after (· = nullable) := by
  obtain ⟨hend⟩ := hafter
  cases h with
  | nullable hu => exact eatIf (by rw [hu]; rfl) (List.cons_ne_nil _ _)
  | nonNull =>
    refine eat_not ?_
    rcases hend with hend | hend | hend <;> rw [hend] <;> rfl

mutual

/-- From tokens that spell a type the type is read, by the last segments of its names. The tokens
bound how deep the parser goes. -/
theorem typeRef_spelled {t : TypeRef} {ts : List Token} : Spelled t ts → ∀ n,
    ts.length ≤ n → ∀ after, TypeEnd after →
      Takes (typeRef (Grammar.ofDepth n)) (ts ++ after) after (· = t.unqualified)
  | .star hu => by
    rintro n - after ⟨hend⟩
    refine known (eatIf ?_ (List.cons_ne_nil _ _)) (ite_pos rfl (answer rfl))
    rw [hu]
    rfl
  | @Spelled.plain name nullable u ends hu hends => by
    intro n _ after hafter
    obtain ⟨v, us, hus, -, hdot, hless⟩ := hends.next hafter
    have hquestion := question hends hafter
    rw [List.cons_append]
    rw [hus] at hquestion ⊢
    refine typeRef_head hu (List.cons_ne_nil v us)
      (fun c hc => (congrArg _ (Cursor.kind_of_rest hc)).trans hdot) ?_
    refine (eat_not hless).known ((answer (a := []) (P := (· = [])) rfl).known ?_)
    exact hquestion.known (answer rfl)
  | @Spelled.applied name args nullable u less greater inside ends hu hless hargs hgreater hends => by
    intro n hn after hafter
    have hinside : inside.length < n := by
      simp only [List.length_cons, List.length_append] at hn
      omega
    have hne : ends ++ after ≠ [] := by
      obtain ⟨v, us, hus, -⟩ := hends.next hafter
      rw [hus]
      exact List.cons_ne_nil v us
    simp only [List.cons_append, List.append_assoc]
    refine typeRef_head hu (List.cons_ne_nil _ _)
      (fun c hc => by rw [Cursor.kind_of_rest hc, hless]; rfl) ?_
    refine known (eatIf (by rw [hless]; rfl) (by simp)) (ite_pos rfl ?_)
    refine known (a := TypeRef.unqualifiedAll args) (m := ends ++ after) ?_ ?_
    · rw [typeArgs_eq_loop]
      refine (typeArgs_spelled hargs n hinside greater hgreater (ends ++ after) []).known ?_
      exact (expect (by rw [hgreater]; rfl) hne).next fun _ _ => answer rfl
    · exact (question hends hafter).known (answer rfl)

/-- From tokens that spell the arguments of a type these are read, up to the closing mark. -/
theorem typeArgs_spelled {args : List TypeRef} {ts : List Token} : SpelledArgs args ts →
    ∀ n, ts.length < n → ∀ greater, greater.kind = .mark .greater → ∀ after read,
      Takes (loop (Rounds.typeArgs (Grammar.ofDepth n)) read) (ts ++ greater :: after)
        (greater :: after) (· = read ++ TypeRef.unqualifiedAll args)
  | @SpelledArgs.last t ts h => by
    intro n hn greater hgreater after read
    obtain ⟨m, rfl⟩ := Nat.exists_eq_add_one_of_ne_zero (Nat.ne_zero_of_lt hn)
    have hend : TypeEnd (greater :: after) := .token (Or.inr (Or.inl hgreater))
    obtain ⟨u, v, us, hus, hv⟩ := h.next hend
    have htype := typeRef_spelled h m (Nat.le_of_lt_succ hn) _ hend
    rw [hus] at htype ⊢
    refine loop_stop ((skipVariance_of_next hv).next fun _ _ => htype.known ?_)
    refine (eat_not (by rw [hgreater]; rfl)).known (answer ⟨_, rfl, rfl⟩)
  | @SpelledArgs.more t rest comma ts us h hcomma hrest => by
    intro n hn greater hgreater after read
    obtain ⟨m, rfl⟩ := Nat.exists_eq_add_one_of_ne_zero (Nat.ne_zero_of_lt hn)
    rw [List.length_append, List.length_cons] at hn
    have hend : TypeEnd (comma :: (us ++ greater :: after)) := .token (Or.inl hcomma)
    obtain ⟨u, v, vs, hvs, hv⟩ := h.next hend
    have htype := typeRef_spelled h m (by omega) _ hend
    have hmore := typeArgs_spelled hrest (m + 1) (by omega) greater hgreater after
      (read ++ [t.unqualified])
    rw [List.append_assoc, List.singleton_append] at hmore
    rw [TypeRef.unqualifiedAll, List.append_assoc, List.cons_append]
    refine loop_next (S := (· = read ++ [t.unqualified])) (m := us ++ greater :: after) ?_ ?_ ?_
    · rw [hvs] at htype ⊢
      refine (skipVariance_of_next hv).next fun _ _ => htype.known ?_
      exact known (eatIf (by rw [hcomma]; rfl) (by simp)) (ite_pos rfl (answer ⟨_, rfl, rfl⟩))
    · simp only [List.length_append, List.length_cons]
      omega
    · rintro _ rfl
      exact hmore

end

end Parser.Takes

/-! ## Identifiers -/

/-- A name of ASCII letters, digits and underscores that starts with no digit and is no keyword. -/
structure IsIdentifier (name : String) : Prop where
  letters : ∃ c more, name.toList = c :: more ∧ (c.isAlpha = true ∨ c = '_') ∧
    ∀ d ∈ more, d.isAlphanum = true ∨ d = '_'
  word : Keyword.ofLexeme? name = none

/-- A name of letters is an identifier if it is no keyword. -/
theorem IsIdentifier.of_letters {name : String} {c : Char} {more : List Char}
    (hname : name.toList = c :: more) (h : (c :: more).all Char.isAlpha = true)
    (hword : Keyword.ofLexeme? name = none) : IsIdentifier name := by
  rw [List.all_eq_true, List.forall_mem_cons] at h
  refine ⟨⟨c, more, hname, Or.inl h.1, fun d hd => Or.inl ?_⟩, hword⟩
  rw [Char.isAlphanum, h.2 d hd, Bool.true_or]

theorem isAlpha_iff {c : Char} : c.isAlpha = true ↔
    65 ≤ c.toNat ∧ c.toNat ≤ 90 ∨ 97 ≤ c.toNat ∧ c.toNat ≤ 122 := by
  change (decide (65 ≤ c.val ∧ c.val ≤ 90) ||
    decide (97 ≤ c.val) && decide (c.val ≤ 122)) = true ↔ _
  simp [UInt32.le_iff_toNat_le]

theorem isDigit_iff {c : Char} : c.isDigit = true ↔ 48 ≤ c.toNat ∧ c.toNat ≤ 57 := by
  change (decide (48 ≤ c.val) && decide (c.val ≤ 57)) = true ↔ _
  simp [UInt32.le_iff_toNat_le]

theorem toNat_lt_of_isAlphanum {c : Char} (h : c.isAlphanum = true) : c.toNat < 128 := by
  rw [Char.isAlphanum, Bool.or_eq_true, isAlpha_iff, isDigit_iff] at h
  omega

theorem isDigit_of_isAlpha {c : Char} (h : c.isAlpha = true ∨ c = '_') : c.isDigit = false := by
  rcases h with h | rfl
  · rw [Bool.eq_false_iff, ne_eq, isDigit_iff]
    rw [isAlpha_iff] at h
    omega
  · rfl

theorem startsName_of_isAlpha {c : Char} (h : c.isAlpha = true ∨ c = '_') :
    startsName c = true := by
  rcases h with h | rfl
  · have hlt : c.toNat < 128 := toNat_lt_of_isAlphanum (by rw [Char.isAlphanum, h, Bool.true_or])
    rw [startsName, Text.isAlphabetic, if_pos hlt, h, Bool.true_or]
  · rfl

theorem continuesName_of_isAlphanum {c : Char} (h : c.isAlphanum = true ∨ c = '_') :
    continuesName c = true := by
  rcases h with h | rfl
  · have hlt := toNat_lt_of_isAlphanum h
    rw [continuesName, Text.isAlphanumeric, Text.isAlphabetic, Text.isNumeric, if_pos hlt,
      if_pos hlt, ← Char.isAlphanum, h, Bool.true_or]
  · rfl

/-- A character that starts a name is none that does not. -/
theorem ne_of_startsName {c d : Char} (hc : startsName c = true) (hd : startsName d = false) :
    c ≠ d := by
  rintro rfl
  exact Bool.false_ne_true (hd.symm.trans hc)

/-- An identifier is one token. -/
theorem ReadsCode.identifier {name : String} (h : IsIdentifier name) {cs : List Char}
    (hcs : cs.head?.any continuesName = false) {nested : Bool} {depth pos p : Nat}
    {rest : List Char} {ts : List Token}
    (hmore : ReadsCode nested depth (pos + byteLength name.toList) cs ts p rest) :
    ∃ u : Token, u.kind = .name name ∧
      ReadsCode nested depth pos (name.toList ++ cs) (u :: ts) p rest := by
  obtain ⟨c, more, hname, hc, hd⟩ := h.letters
  have hstart := startsName_of_isAlpha hc
  have hkind : TokenKind.ofWord (String.ofList (c :: more)) = .name name := by
    rw [← hname, String.ofList_toList, TokenKind.ofWord, h.word]
  have hrun := scanRun_append (pos + c.utf8Size)
    (fun d hmem => continuesName_of_isAlphanum (hd d hmem)) hcs
  have htoken : Reads (scanToken c pos (more ++ cs)) (.name name)
      (pos + byteLength name.toList) cs := by
    rw [scanToken, if_neg (ne_of_startsName hstart (by decide)),
      if_neg (ne_of_startsName hstart (by decide)), if_neg (by rw [isDigit_of_isAlpha hc]; simp),
      if_neg (ne_of_startsName hstart (by decide)), if_pos hstart, hname, byteLength_cons,
      ← Nat.add_assoc, ← hkind]
    exact ⟨_, rfl, (hrun.map (f := fun word => TokenKind.ofWord (String.ofList (c :: word))))⟩
  have hgap : scanTrivia c pos (more ++ cs) = none := by
    have hblank : ¬(c = ' ' ∨ c = '\t' ∨ c = '\r') := by
      rintro (rfl | rfl | rfl) <;> exact absurd hstart (by decide)
    unfold scanTrivia
    rw [if_neg hblank, if_neg (ne_of_startsName hstart (by decide))]
  refine ⟨⟨.name name, ⟨pos, pos + byteLength name.toList⟩⟩, rfl, ?_⟩
  rw [hname, List.cons_append, ← hname]
  exact .token (fun hbrace => ne_of_startsName hstart (by decide) hbrace.1)
    (ne_of_startsName hstart (by decide)) hgap htoken hmore

/-! ## Marks -/

/-- The marks in a displayed type. -/
def typeMarks : List (Char × Mark) :=
  [('<', .less), ('>', .greater), (',', .comma), ('?', .question), ('*', .star)]

/-- A mark is one token where it makes no mark with the next character. -/
theorem ReadsCode.typeMark (c : Char) (m : Mark) (h : (c, m) ∈ typeMarks) {cs : List Char}
    (hcs : cs.head?.any (fun d => (Mark.ofChars? c d).isSome) = false) {nested : Bool}
    {depth pos p : Nat} {rest : List Char} {ts : List Token}
    (hmore : ReadsCode nested depth (pos + 1) cs ts p rest) :
    ∃ u : Token, u.kind = .mark m ∧ ReadsCode nested depth pos (c :: cs) (u :: ts) p rest := by
  have hscan : scanToken c pos cs = scanMark c pos cs ∧ Mark.ofChar? c = some m ∧
      scanTrivia c pos cs = none ∧ braceDepth depth (.mark m) = depth ∧ c ≠ '"' ∧ c ≠ '\x7d' := by
    simp only [typeMarks, List.mem_cons, Prod.mk.injEq, List.not_mem_nil, or_false] at h
    rcases h with ⟨rfl, rfl⟩ | ⟨rfl, rfl⟩ | ⟨rfl, rfl⟩ | ⟨rfl, rfl⟩ | ⟨rfl, rfl⟩ <;>
      exact ⟨rfl, rfl, rfl, rfl, by decide, by decide⟩
  obtain ⟨htoken, hmark, hgap, hdepth, hquote, hbrace⟩ := hscan
  refine ⟨⟨.mark m, ⟨pos, pos + 1⟩⟩, rfl, ?_⟩
  refine .token (fun hclose => hbrace hclose.1) hquote hgap ?_ (hdepth.symm ▸ hmore)
  rw [htoken, scanMark_of_none hcs, scanSingleMark]
  simp only [hmark]
  exact ⟨_, rfl, rfl, rfl, rfl⟩

/-! ## Displayed types -/

namespace TypeRef

/-- The types whose displayed text is that of a type: the last segments of all names in them are
identifiers, but for that of the type that is not known. -/
inductive Readable : TypeRef → Prop
  | star : Readable star
  | named {name : String} {args : List TypeRef} {nullable : Bool}
    (hname : IsIdentifier (lastSegment name)) (hargs : ∀ a ∈ args, Readable a) :
    Readable ⟨name, args, nullable⟩

/-- The mark of a nullable type. -/
def displayEnd (nullable : Bool) : List Char := if nullable then ['?'] else []

theorem toList_display_plain (name : String) (nullable : Bool) :
    (display ⟨name, [], nullable⟩).toList = (lastSegment name).toList ++ displayEnd nullable := by
  cases nullable <;> simp [display, displayEnd]

theorem toList_display_applied (name : String) (a : TypeRef) (args : List TypeRef)
    (nullable : Bool) : (display ⟨name, a :: args, nullable⟩).toList = (lastSegment name).toList ++
      '<' :: ((displayArgs (a :: args)).toList ++ '>' :: displayEnd nullable) := by
  cases nullable <;> simp [display, displayEnd]

theorem toList_displayArgs_cons (a b : TypeRef) (rest : List TypeRef) :
    (displayArgs (a :: b :: rest)).toList
      = a.display.toList ++ ',' :: ' ' :: (displayArgs (b :: rest)).toList := by
  simp [displayArgs]

/-- What can stand behind a type in a displayed one. -/
def EndsType (cs : List Char) : Prop := ∀ c, cs.head? = some c → c = ',' ∨ c = '>'

/-- The text is read up to the end of a type, as tokens of which this holds. -/
def ReadsAs (text : List Char) (spells : List Token → Prop) : Prop :=
  ∀ {cs : List Char}, EndsType cs → ∀ {nested : Bool} {depth pos p : Nat} {rest : List Char}
    {ts : List Token}, ReadsCode nested depth (pos + byteLength text) cs ts p rest →
      ∃ used, spells used ∧ ReadsCode nested depth pos (text ++ cs) (used ++ ts) p rest

theorem EndsType.cons {c : Char} (hc : c = ',' ∨ c = '>') (cs : List Char) :
    EndsType (c :: cs) := fun _ hd => Option.some.inj hd ▸ hc

theorem EndsType.any_head {cs : List Char} (h : EndsType cs) {test : Char → Bool}
    (hcomma : test ',' = false) (hgreater : test '>' = false) : cs.head?.any test = false := by
  cases hc : cs.head? with
  | none => rfl
  | some c =>
    rcases h c hc with rfl | rfl
    · exact hcomma
    · exact hgreater

theorem EndsType.any_head_end {cs : List Char} (h : EndsType cs) (nullable : Bool)
    {test : Char → Bool} (hquestion : test '?' = false) (hcomma : test ',' = false)
    (hgreater : test '>' = false) : (displayEnd nullable ++ cs).head?.any test = false := by
  cases nullable with
  | true => exact hquestion
  | false => exact h.any_head hcomma hgreater

theorem readsAs_displayEnd (nullable : Bool) :
    ReadsAs (displayEnd nullable) (SpelledEnd nullable) := by
  intro cs hcs nested depth pos p rest ts hmore
  cases nullable with
  | false => exact ⟨[], .nonNull, hmore⟩
  | true =>
    obtain ⟨u, hu, hread⟩ :=
      ReadsCode.typeMark '?' .question (by decide) (hcs.any_head rfl rfl) hmore
    exact ⟨[u], .nullable hu, hread⟩

/-- Types that are read up to their ends are read with commas and blanks between them. -/
theorem readsAs_displayArgs {a : TypeRef} {args : List TypeRef}
    (h : ∀ b ∈ a :: args, ReadsAs b.display.toList (Spelled b)) :
    ReadsAs (displayArgs (a :: args)).toList (SpelledArgs (a :: args)) := by
  induction args generalizing a with
  | nil =>
    intro cs hcs nested depth pos p rest ts hmore
    obtain ⟨used, hused, hread⟩ := h a List.mem_cons_self hcs hmore
    exact ⟨used, .last hused, hread⟩
  | cons b args ih =>
    intro cs hcs nested depth pos p rest ts hmore
    have hlength : pos + byteLength (displayArgs (a :: b :: args)).toList
        = pos + byteLength a.display.toList + 1 + 1
          + byteLength (displayArgs (b :: args)).toList := by
      rw [toList_displayArgs_cons, byteLength_append, byteLength_cons, byteLength_cons,
        show ','.utf8Size = 1 from rfl, show ' '.utf8Size = 1 from rfl]
      omega
    rw [hlength] at hmore
    obtain ⟨us, hus, hread⟩ := ih (fun c hc => h c (List.mem_cons_of_mem a hc)) hcs hmore
    have hblank :=
      ReadsCode.gap (by simp) (by decide) (if_pos (Or.inl rfl)) ⟨_, rfl, rfl, rfl, rfl⟩ hread
    obtain ⟨comma, hcomma, hread⟩ := ReadsCode.typeMark ',' .comma (by decide) rfl hblank
    obtain ⟨used, hused, hread⟩ := h a List.mem_cons_self (.cons (Or.inl rfl) _) hread
    refine ⟨used ++ comma :: us, .more hused hcomma hus, ?_⟩
    rw [toList_displayArgs_cons]
    simpa using hread

/-- A displayed type starts with no character that goes on a mark. -/
theorem Readable.head {t : TypeRef} (h : t.Readable) :
    ∃ c more, t.display.toList = c :: more ∧ c ≠ '=' := by
  cases h with
  | star => exact ⟨'*', [], rfl, by decide⟩
  | @named name args nullable hname hargs =>
    obtain ⟨c, more, hletters, hc, -⟩ := hname.letters
    have hne : c ≠ '=' := ne_of_startsName (startsName_of_isAlpha hc) (by decide)
    cases args with
    | nil => exact ⟨c, _, by rw [toList_display_plain, hletters, List.cons_append], hne⟩
    | cons a args => exact ⟨c, _, by rw [toList_display_applied, hletters, List.cons_append], hne⟩

/-- The mark before the arguments of a type does not go on with them. -/
theorem any_head_displayArgs {a : TypeRef} (h : a.Readable) (args : List TypeRef) (cs : List Char) :
    ((displayArgs (a :: args)).toList ++ cs).head?.any (fun d => (Mark.ofChars? '<' d).isSome)
      = false := by
  obtain ⟨c, more, hdisplay, hc⟩ := h.head
  have hmark : Mark.ofChars? '<' c = none := by
    unfold Mark.ofChars?
    split <;> simp_all
  cases args with
  | nil => simp [displayArgs, hdisplay, hmark]
  | cons b args => simp [displayArgs, hdisplay, hmark]

/-- What is displayed of a readable type is read as tokens that spell it. -/
theorem Readable.readsAs {t : TypeRef} (h : t.Readable) : ReadsAs t.display.toList (Spelled t) := by
  induction h with
  | star =>
    intro cs hcs nested depth pos p rest ts hmore
    obtain ⟨u, hu, hread⟩ := ReadsCode.typeMark '*' .star (by decide) (hcs.any_head rfl rfl) hmore
    exact ⟨[u], .star hu, hread⟩
  | @named name args nullable hname hargs ih =>
    intro cs hcs nested depth pos p rest ts hmore
    cases args with
    | nil =>
      rw [toList_display_plain, byteLength_append, ← Nat.add_assoc] at hmore
      obtain ⟨ends, hends, hread⟩ := readsAs_displayEnd nullable hcs hmore
      obtain ⟨u, hu, hread⟩ := ReadsCode.identifier hname
        (hcs.any_head_end nullable (by decide) (by decide) (by decide)) hread
      refine ⟨u :: ends, .plain hu hends, ?_⟩
      rwa [toList_display_plain, List.append_assoc]
    | cons a args =>
      have hlength : pos + byteLength (display ⟨name, a :: args, nullable⟩).toList
          = pos + byteLength (lastSegment name).toList + 1
            + byteLength (displayArgs (a :: args)).toList + 1 + byteLength (displayEnd nullable) := by
        rw [toList_display_applied, byteLength_append, byteLength_cons, byteLength_append,
          byteLength_cons, show '<'.utf8Size = 1 from rfl, show '>'.utf8Size = 1 from rfl]
        omega
      rw [hlength] at hmore
      obtain ⟨ends, hends, hread⟩ := readsAs_displayEnd nullable hcs hmore
      obtain ⟨greater, hgreater, hread⟩ := ReadsCode.typeMark '>' .greater (by decide)
        (hcs.any_head_end nullable rfl rfl rfl) hread
      obtain ⟨inside, hinside, hread⟩ := readsAs_displayArgs ih (.cons (Or.inr rfl) _) hread
      obtain ⟨less, hless, hread⟩ := ReadsCode.typeMark '<' .less (by decide)
        (any_head_displayArgs (hargs a List.mem_cons_self) args _) hread
      have hstop : continuesName '<' = false := by decide
      obtain ⟨u, hu, hread⟩ :=
        ReadsCode.identifier hname (show ('<' :: _).head?.any _ = _ from hstop) hread
      refine ⟨u :: less :: (inside ++ greater :: ends), .applied hu hless hinside hgreater hends, ?_⟩
      rw [toList_display_applied]
      simpa using hread

/-- Displayed types are parsed back: the text of a readable type splits into tokens, and from these
the type is read, by the last segments of its names, with nothing left but the end of the text. -/
theorem parse_display {t : TypeRef} (h : t.Readable) :
    ∃ ts, Token.scan t.display = .ok ts ∧ ∀ n, Token.listWeight ts ≤ n →
      ∃ s, Parser.typeRef (Grammar.ofDepth n) (SourceUnit.start ts) = .done t.unqualified s ∧
        s.cursor.rest = [⟨.eof, ⟨byteLength t.display.toList, byteLength t.display.toList⟩⟩] := by
  obtain ⟨used, hused, hread⟩ := h.readsAs (show EndsType [] from nofun)
    (@ReadsCode.done 0 (0 + byteLength t.display.toList))
  rw [List.append_nil, Nat.zero_add] at hread
  generalize byteLength t.display.toList = stop at hread ⊢
  have hscan := Token.scan_eq_ok_iff.2 ⟨_, _, hread⟩
  rw [String.ofList_toList] at hscan
  refine ⟨_, hscan, fun n hn => ?_⟩
  have hlength : used.length ≤ n := by
    have hle := Token.length_le_listWeight used
    rw [Token.listWeight_append] at hn
    omega
  have hend : Token.TypeEnd [⟨.eof, ⟨stop, stop⟩⟩] := .token (Or.inr (Or.inr rfl))
  have hne : used ++ [⟨.eof, ⟨stop, stop⟩⟩] ≠ [] := by simp
  obtain ⟨a, s, hdone, hrest, rfl⟩ :=
    Parser.Takes.typeRef_spelled hused n hlength _ hend (SourceUnit.start _)
      (Cursor.rest_ofTokens hne)
  exact ⟨s, hdone, hrest⟩

/-- A type with a name in a package, names that can mark variance, and a type that is not known. -/
def nestedType : TypeRef :=
  ⟨"kotlin.Map", [simple "in", ⟨"a.List", [star, ⟨"out", [], true⟩], true⟩], true⟩

theorem readable_nestedType : nestedType.Readable := by
  have hin : IsIdentifier (lastSegment "in") := .of_letters rfl rfl (by decide +kernel)
  have hout : IsIdentifier (lastSegment "out") := .of_letters rfl rfl (by decide +kernel)
  have hlist : IsIdentifier (lastSegment "a.List") := .of_letters rfl rfl (by decide +kernel)
  have hmap : IsIdentifier (lastSegment "kotlin.Map") := .of_letters rfl rfl (by decide +kernel)
  refine .named hmap (List.forall_mem_cons.2 ⟨.named hin nofun, List.forall_mem_singleton.2 ?_⟩)
  exact .named hlist
    (List.forall_mem_cons.2 ⟨.star, List.forall_mem_singleton.2 (.named hout nofun)⟩)

/-- `Map<in, List<*, out?>?>?` is read back. -/
theorem parse_display_nestedType : nestedType.Readable ∧
    nestedType.display = "Map<in, List<*, out?>?>?" ∧
    ∃ ts, Token.scan nestedType.display = .ok ts ∧ ∀ n, Token.listWeight ts ≤ n →
      ∃ s, Parser.typeRef (Grammar.ofDepth n) (SourceUnit.start ts)
          = .done nestedType.unqualified s ∧
        s.cursor.rest = [⟨.eof, ⟨byteLength nestedType.display.toList,
          byteLength nestedType.display.toList⟩⟩] :=
  ⟨readable_nestedType, by decide +kernel, parse_display readable_nestedType⟩

end TypeRef

end FrameCheck
