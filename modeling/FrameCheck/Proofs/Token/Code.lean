import FrameCheck.Proofs.Token.Lexemes
import FrameCheck.Proofs.Token.Relocation

/-!
# Code and strings, step by step

Code is read token by token and a string character by character, and each contains the other
through templates. `ReadsCode` and `ReadsBody` say what can come next and what follows; they
hold exactly where the scanner reads so. What is proved of them by induction holds of the
scanner.

* `reads_scanCode` : code is read step by step.
* `ReadsCode.again` : code is read again at each later offset.
-/

namespace FrameCheck

/-- The tokens of a name in a string, from `pos` to `q`. -/
def namePart (name : List Char) (pos q : Nat) : List Token :=
  [⟨.ofWord (String.ofList name), ⟨pos, q⟩⟩, ⟨.eof, ⟨q, q⟩⟩]

/-- A character of a string that stands for itself. -/
def IsPlain (raw : Bool) (c : Char) (cs : List Char) : Prop :=
  ¬(c = '$' ∧ cs.head? = some '\x7b') ∧ ¬(c = '\\' ∧ ¬ raw) ∧ ¬(c = '\n' ∧ ¬ raw) ∧
    ¬(c = '$' ∧ cs.head?.any startsName)

mutual

/-- From offset `pos` on code reads as tokens, up to the end of the text or, if it is `nested`
in a string, up to its brace; what is left starts at the last offset. -/
inductive ReadsCode : Bool → Nat → Nat → List Char → List Token → Nat → List Char → Prop
  | done {depth pos : Nat} :
    ReadsCode false depth pos [] [⟨.eof, ⟨pos, pos⟩⟩] pos []
  | close {pos : Nat} {cs : List Char} :
    ReadsCode true 0 pos ('\x7d' :: cs) [⟨.eof, ⟨pos, pos⟩⟩] (pos + 1) cs
  | string {nested : Bool} {depth pos q p : Nat} {cs mid rest : List Char} {body : StringBody}
    {ts : List Token}
    (hbody : ReadsBody (scanOpening (pos + 1) cs).value (scanOpening (pos + 1) cs).pos
      (scanOpening (pos + 1) cs).rest body q mid)
    (hmore : ReadsCode nested depth q mid ts p rest) :
    ReadsCode nested depth pos ('"' :: cs) (⟨body.kind, ⟨pos, q⟩⟩ :: ts) p rest
  | gap {nested : Bool} {depth pos q p : Nat} {c : Char} {cs mid rest : List Char} {ts : List Token}
    {r : Except ScanError (Scanned Unit cs)}
    (hclose : ¬(c = '\x7d' ∧ depth = 0 ∧ nested)) (hc : c ≠ '"')
    (hgap : scanTrivia c pos cs = some r) (hread : Reads r () q mid)
    (hmore : ReadsCode nested depth q mid ts p rest) :
    ReadsCode nested depth pos (c :: cs) ts p rest
  | token {nested : Bool} {depth pos q p : Nat} {c : Char} {cs mid rest : List Char}
    {kind : TokenKind} {ts : List Token} (hclose : ¬(c = '\x7d' ∧ depth = 0 ∧ nested)) (hc : c ≠ '"')
    (hgap : scanTrivia c pos cs = none) (htoken : Reads (scanToken c pos cs) kind q mid)
    (hmore : ReadsCode nested (braceDepth depth kind) q mid ts p rest) :
    ReadsCode nested depth pos (c :: cs) (⟨kind, ⟨pos, q⟩⟩ :: ts) p rest

/-- From offset `pos` on the inside of a string reads as `body`, up to behind its quotes. -/
inductive ReadsBody : Bool → Nat → List Char → StringBody → Nat → List Char → Prop
  | close {raw : Bool} {pos : Nat} {cs : List Char} {s : Scanned Unit cs}
    (hclose : scanClosing raw pos cs = some s) : ReadsBody raw pos cs ⟨[], []⟩ s.pos s.rest
  | code {raw : Bool} {pos q p : Nat} {cs mid rest : List Char} {ts : List Token}
    {b : StringBody} (hclose : scanClosing raw pos ('$' :: '\x7b' :: cs) = none)
    (hcode : ReadsCode true 0 (pos + 2) cs ts q mid) (hmore : ReadsBody raw q mid b p rest) :
    ReadsBody raw pos ('$' :: '\x7b' :: cs) (b.addPart ts) p rest
  | escape {raw : Bool} {pos p : Nat} {c : Char} {cs rest : List Char} {b : StringBody}
    (hclose : scanClosing raw pos ('\\' :: c :: cs) = none) (hraw : ¬ raw)
    (hmore : ReadsBody raw (pos + 1 + c.utf8Size) cs b p rest) :
    ReadsBody raw pos ('\\' :: c :: cs) (b.addChar (unescape c)) p rest
  | name {raw : Bool} {pos q p : Nat} {cs mid rest name : List Char} {b : StringBody}
    (hclose : scanClosing raw pos ('$' :: cs) = none) (hc : cs.head?.any startsName)
    (hname : (scanRun continuesName (pos + 1) cs).Is name q mid)
    (hmore : ReadsBody raw q mid b p rest) :
    ReadsBody raw pos ('$' :: cs) (b.addPart (namePart name (pos + 1) q)) p rest
  | char {raw : Bool} {pos p : Nat} {c : Char} {cs rest : List Char} {b : StringBody}
    (hclose : scanClosing raw pos (c :: cs) = none) (hc : IsPlain raw c cs)
    (hmore : ReadsBody raw (pos + c.utf8Size) cs b p rest) :
    ReadsBody raw pos (c :: cs) (b.addChar c) p rest

end

/-! ## The scanner reads so -/

section

variable {n : Nat}
  (hcode : ∀ {opened : Option Nat} {depth pos : Nat} {cs : List Char} {s : Scanned (List Token) cs},
    cs.length < n → scanCode opened depth pos cs = .ok s →
      ReadsCode opened.isSome depth pos cs s.value s.pos s.rest)
  (hbody : ∀ {raw : Bool} {start pos : Nat} {cs : List Char} {s : Scanned StringBody cs},
    cs.length < n → scanBody raw start pos cs = .ok s →
      ReadsBody raw pos cs s.value s.pos s.rest)

include hcode hbody

/-- Code reads step by step where shorter texts do. -/
theorem readsCode_of_length_le {opened : Option Nat} {depth pos : Nat} {cs : List Char}
    {s : Scanned (List Token) cs} (hn : cs.length ≤ n) (h : scanCode opened depth pos cs = .ok s) :
    ReadsCode opened.isSome depth pos cs s.value s.pos s.rest := by
  rcases cs with _ | ⟨c, cs⟩
  · rw [scanCode.eq_def] at h
    cases opened with
    | some start => cases h
    | none =>
      obtain rfl := Except.ok.inj h
      exact .done
  have hn : cs.length < n := hn
  rw [scanCode] at h
  split at h
  · next hc =>
    obtain rfl := Except.ok.inj h
    obtain ⟨rfl, rfl, ho⟩ := hc
    rw [ho]
    exact .close
  next hclose =>
  split at h
  · next hc =>
    obtain ⟨body, hb, h⟩ := exists_ok_of_bind h
    obtain ⟨more, hmore, h⟩ := exists_ok_of_bind h
    obtain rfl := Except.ok.inj h
    have hopening := (scanOpening (pos + 1) cs).rest_le
    have hle := body.rest_le
    subst hc
    exact .string (hbody (by omega) hb) (hcode (by omega) hmore)
  next hc =>
  split at h
  · next trivia hgap =>
    obtain ⟨gap, hread, h⟩ := exists_ok_of_bind h
    obtain ⟨more, hmore, h⟩ := exists_ok_of_bind h
    obtain rfl := Except.ok.inj h
    have hle := gap.rest_le
    exact .gap hclose hc hgap (reads_of_ok hread) (hcode (by omega) hmore)
  · next hgap =>
    obtain ⟨token, htoken, h⟩ := exists_ok_of_bind h
    obtain ⟨more, hmore, h⟩ := exists_ok_of_bind h
    obtain rfl := Except.ok.inj h
    have hle := token.rest_le
    exact .token hclose hc hgap (reads_of_ok htoken) (hcode (by omega) hmore)

/-- A string reads step by step where shorter texts do. -/
theorem readsBody_of_length_le {raw : Bool} {start pos : Nat} {cs : List Char}
    {s : Scanned StringBody cs} (hn : cs.length ≤ n) (h : scanBody raw start pos cs = .ok s) :
    ReadsBody raw pos cs s.value s.pos s.rest := by
  rw [scanBody.eq_def] at h
  split at h
  · next closing hclose =>
    obtain rfl := Except.ok.inj h
    exact .close hclose
  next hclose =>
  split at h
  · cases h
  · next cs =>
    obtain ⟨code, hc, h⟩ := exists_ok_of_bind h
    obtain ⟨more, hmore, h⟩ := exists_ok_of_bind h
    obtain rfl := Except.ok.inj h
    have hle := code.rest_le
    simp only [List.length_cons] at hn
    exact .code hclose (hcode (by omega) hc) (hbody (by omega) hmore)
  next c cs hbrace _ =>
  simp only [List.length_cons] at hn
  split at h
  · next hesc =>
    obtain ⟨rfl, hraw⟩ := hesc
    split at h
    · cases h
    · next e cs =>
      obtain ⟨more, hmore, h⟩ := exists_ok_of_bind h
      obtain rfl := Except.ok.inj h
      simp only [List.length_cons] at hn
      exact .escape hclose hraw (hbody (by omega) hmore)
  next hesc =>
  split at h
  · cases h
  next hnewline =>
  split at h
  · next hname =>
    obtain ⟨more, hmore, h⟩ := exists_ok_of_bind h
    obtain rfl := Except.ok.inj h
    obtain ⟨rfl, hname⟩ := hname
    have hle := (scanRun continuesName (pos + 1) cs).rest_le
    exact .name hclose hname ⟨rfl, rfl, rfl⟩ (hbody (by omega) hmore)
  · next hname =>
    obtain ⟨more, hmore, h⟩ := exists_ok_of_bind h
    obtain rfl := Except.ok.inj h
    refine .char hclose ⟨?_, hesc, hnewline, hname⟩ (hbody (by omega) hmore)
    rintro ⟨rfl, hb⟩
    obtain ⟨cs, rfl⟩ := List.head?_eq_some_iff.1 hb
    exact hbrace cs rfl rfl

end

/-- By induction on a bound for the length of the text, since the scanner goes on behind what
another one has left and not with a part of the text. -/
theorem reads_of_length_lt : ∀ n : Nat,
    (∀ {opened : Option Nat} {depth pos : Nat} {cs : List Char} {s : Scanned (List Token) cs},
      cs.length < n → scanCode opened depth pos cs = .ok s →
        ReadsCode opened.isSome depth pos cs s.value s.pos s.rest) ∧
    (∀ {raw : Bool} {start pos : Nat} {cs : List Char} {s : Scanned StringBody cs},
      cs.length < n → scanBody raw start pos cs = .ok s →
        ReadsBody raw pos cs s.value s.pos s.rest)
  | 0 => ⟨fun hn => absurd hn (Nat.not_lt_zero _), fun hn => absurd hn (Nat.not_lt_zero _)⟩
  | n + 1 =>
    have ⟨hcode, hbody⟩ := reads_of_length_lt n
    ⟨fun hn => readsCode_of_length_le hcode hbody (Nat.le_of_lt_succ hn),
      fun hn => readsBody_of_length_le hcode hbody (Nat.le_of_lt_succ hn)⟩

theorem readsCode_of_ok {opened : Option Nat} {depth pos : Nat} {cs : List Char}
    {s : Scanned (List Token) cs} (h : scanCode opened depth pos cs = .ok s) :
    ReadsCode opened.isSome depth pos cs s.value s.pos s.rest :=
  (reads_of_length_lt _).1 (Nat.lt_succ_self cs.length) h

theorem startsName_brace : startsName '\x7b' = false := by decide +kernel

/-- Reading on behind what was read. -/
theorem Reads.bind {α β : Type} {cs ds : List Char} {r : Except ScanError (Scanned α cs)}
    {s : Scanned α cs} (hs : r = .ok s) {f : Scanned α cs → Except ScanError (Scanned β ds)}
    {b : β} {pos : Nat} {rest : List Char} (h : Reads (f s) b pos rest) :
    Reads (r >>= f) b pos rest := by
  subst hs
  exact h

mutual

theorem ReadsCode.scanCode {nested : Bool} {depth pos : Nat} {cs : List Char} {ts : List Token}
    {p : Nat} {rest : List Char} : ReadsCode nested depth pos cs ts p rest →
      ∀ opened : Option Nat, opened.isSome = nested →
        Reads (scanCode opened depth pos cs) ts p rest
  | .done => fun opened ho => by
    rw [scanCode.eq_def, Option.isSome_eq_false_iff.1 ho |> Option.isNone_iff_eq_none.1]
    exact ⟨_, rfl, rfl, rfl, rfl⟩
  | .close => fun opened ho => by
    rw [FrameCheck.scanCode, if_pos ⟨rfl, rfl, ho⟩]
    exact ⟨_, rfl, rfl, rfl, rfl⟩
  | .string hbody hmore => fun opened ho => by
    have hm := hmore.scanCode opened ho
    obtain ⟨body, hb, rfl, rfl, rfl⟩ := hbody.scanBody pos
    obtain ⟨more, hm, rfl, rfl, rfl⟩ := hm
    rw [FrameCheck.scanCode, if_neg (by simp), if_pos rfl]
    exact .bind hb (.bind hm ⟨_, rfl, rfl, rfl, rfl⟩)
  | .gap hclose hc hgap hread hmore => fun opened ho => by
    obtain ⟨more, hm, rfl, rfl, rfl⟩ := hmore.scanCode opened ho
    obtain ⟨gap, rfl, -, rfl, rfl⟩ := hread
    rw [FrameCheck.scanCode, if_neg (ho ▸ hclose), if_neg hc]
    simp only [hgap]
    exact .bind rfl (.bind hm ⟨_, rfl, rfl, rfl, rfl⟩)
  | .token hclose hc hgap htoken hmore => fun opened ho => by
    obtain ⟨more, hm, rfl, rfl, rfl⟩ := hmore.scanCode opened ho
    obtain ⟨token, ht, rfl, rfl, rfl⟩ := htoken
    rw [FrameCheck.scanCode, if_neg (ho ▸ hclose), if_neg hc]
    simp only [hgap]
    exact .bind ht (.bind hm ⟨_, rfl, rfl, rfl, rfl⟩)

theorem ReadsBody.scanBody {raw : Bool} {pos : Nat} {cs : List Char} {b : StringBody}
    {p : Nat} {rest : List Char} : ReadsBody raw pos cs b p rest →
      ∀ start : Nat, Reads (scanBody raw start pos cs) b p rest
  | .close hclose => fun start => by
    rw [scanBody.eq_def]
    simp only [hclose]
    exact ⟨_, rfl, rfl, rfl, rfl⟩
  | @ReadsBody.code _ pos _ _ _ _ _ _ _ hclose hcode hmore => fun start => by
    have hm := hmore.scanBody start
    obtain ⟨code, hc, rfl, rfl, rfl⟩ := hcode.scanCode (some (pos + 2)) rfl
    obtain ⟨more, hm, rfl, rfl, rfl⟩ := hm
    rw [FrameCheck.scanBody]
    simp only [hclose]
    exact .bind hc (.bind hm ⟨_, rfl, rfl, rfl, rfl⟩)
  | .escape hclose hraw hmore => fun start => by
    obtain ⟨more, hm, rfl, rfl, rfl⟩ := hmore.scanBody start
    rw [FrameCheck.scanBody]
    · simp only [hclose]
      rw [if_pos ⟨trivial, hraw⟩]
      exact .bind hm ⟨_, rfl, rfl, rfl, rfl⟩
    · exact fun _ hc => absurd hc (by decide)
  | .name hclose hc hname hmore => fun start => by
    obtain ⟨more, hm, rfl, rfl, rfl⟩ := hmore.scanBody start
    obtain ⟨d, cs, rfl, hd⟩ := exists_cons_of_any_head hc
    obtain ⟨rfl, rfl, rfl⟩ := hname
    rw [FrameCheck.scanBody]
    · simp only [hclose]
      rw [if_neg (by simp), if_neg (by simp), if_pos ⟨trivial, hc⟩]
      exact .bind hm ⟨_, rfl, rfl, rfl, rfl⟩
    · intro cs' _ hbrace
      rw [(List.cons.inj hbrace).1, startsName_brace] at hd
      exact nomatch hd
  | @ReadsBody.char _ _ _ c cs _ _ hclose hc hmore => fun start => by
    obtain ⟨more, hm, rfl, rfl, rfl⟩ := hmore.scanBody start
    obtain ⟨hbrace, hesc, hnewline, hname⟩ := hc
    have hplain : ∀ cs', c = '$' → cs = '\x7b' :: cs' → False :=
      fun cs' hc hcs => hbrace ⟨hc, by rw [hcs]; rfl⟩
    rcases cs with _ | ⟨d, cs⟩
    · rw [FrameCheck.scanBody]
      · simp only [hclose]
        rw [if_neg hesc, if_neg hnewline, if_neg hname]
        exact .bind hm ⟨_, rfl, rfl, rfl, rfl⟩
      · exact hplain
    · rw [FrameCheck.scanBody]
      · simp only [hclose]
        rw [if_neg hesc, if_neg hnewline, if_neg hname]
        exact .bind hm ⟨_, rfl, rfl, rfl, rfl⟩
      · exact hplain

end

/-- A text splits into the tokens that its code reads as. -/
theorem Token.scan_eq_ok_iff {cs : List Char} {ts : List Token} :
    Token.scan (String.ofList cs) = .ok ts ↔ ∃ p rest, ReadsCode false 0 0 cs ts p rest := by
  rw [Token.scan_ofList rfl]
  constructor
  · intro h
    obtain ⟨s, hs, rfl⟩ := exists_ok_of_map h
    exact ⟨_, _, readsCode_of_ok hs⟩
  · rintro ⟨p, rest, h⟩
    obtain ⟨s, hs, hvalue, -, -⟩ := h.scanCode none rfl
    rw [hs]
    exact congrArg Except.ok hvalue

/-! ## The same text at another place -/

/-- All offsets greater by `n`. -/
def Relocation.shift (n : Nat) : Relocation where
  start x := x + n
  stop x := x + n
  last s := ⟨s.start + n, s.stop + n⟩
  start_mono _ _ h := Nat.add_le_add_right h n
  stop_mono _ _ h := Nat.add_le_add_right h n

namespace StringBody

def relocate (r : Relocation) (b : StringBody) : StringBody :=
  { b with parts := Token.relocateParts r b.parts }

theorem kind_relocate (r : Relocation) (b : StringBody) :
    (b.relocate r).kind = b.kind.relocate r := by
  rcases b with ⟨chars, _ | ⟨part, parts⟩⟩ <;> simp [kind, relocate, TokenKind.relocate,
    Token.relocateParts]

theorem relocate_addPart (r : Relocation) (b : StringBody) (ts : List Token) :
    (b.addPart ts).relocate r = (b.relocate r).addPart (Token.relocateAll r ts) := by
  show StringBody.mk _ (Token.relocateParts r (ts :: b.parts)) = _
  rw [Token.relocateParts]
  rfl

end StringBody

theorem scanClosing_again {raw : Bool} {pos : Nat} {cs : List Char} {s : Scanned Unit cs}
    (h : scanClosing raw pos cs = some s) :
    ∃ used, used ≠ [] ∧ cs = used ++ s.rest ∧ s.pos = pos + byteLength used ∧
      ∀ pos' ahead, ∃ s', scanClosing raw pos' (used ++ ahead) = some s' ∧
        s'.Is () (pos' + byteLength used) ahead := by
  unfold scanClosing at h
  split at h
  · obtain rfl := Option.some.inj h
    exact ⟨['"', '"', '"'], List.cons_ne_nil _ _, rfl, rfl, fun _ _ => ⟨_, rfl, rfl, rfl, rfl⟩⟩
  · obtain rfl := Option.some.inj h
    exact ⟨['"'], List.cons_ne_nil _ _, rfl, rfl, fun _ _ => ⟨_, rfl, rfl, rfl, rfl⟩⟩
  · exact nomatch h

/-- No string is closed before a text where none is closed before one that it is up to a place. -/
theorem scanClosing_eq_none {raw : Bool} {pos : Nat} {cs : List Char}
    (h : scanClosing raw pos cs = none) {cs' : List Char} (ha : UpTo cs cs') (pos' : Nat) :
    scanClosing raw pos' cs' = none := by
  unfold scanClosing
  split
  · obtain ⟨_, rfl, hb⟩ := ha.uncons (by decide)
    obtain ⟨_, rfl, hc⟩ := hb.uncons (by decide)
    obtain ⟨_, rfl, -⟩ := hc.uncons (by decide)
    exact nomatch h
  · obtain ⟨_, rfl, -⟩ := ha.uncons (by decide)
    exact nomatch h
  · rfl

theorem scanOpening_upTo {pos : Nat} {cs : List Char} (h : (scanOpening pos cs).value = false)
    {cs' : List Char} (ha : UpTo cs cs') (pos' : Nat) :
    (scanOpening pos' cs').Is false pos' cs' := by
  unfold scanOpening
  split
  · obtain ⟨_, rfl, hb⟩ := ha.uncons (by decide)
    obtain ⟨_, rfl, -⟩ := hb.uncons (by decide)
    exact nomatch h
  · exact ⟨rfl, rfl, rfl⟩

theorem IsPlain.upTo {raw : Bool} {c : Char} {cs cs' : List Char} (h : IsPlain raw c cs)
    (ha : UpTo cs cs') : IsPlain raw c cs' := by
  obtain ⟨hbrace, hesc, hnewline, hname⟩ := h
  refine ⟨fun ⟨hc, hb⟩ => hbrace ⟨hc, ?_⟩, hesc, hnewline, fun ⟨hc, hn⟩ => hname ⟨hc, ?_⟩⟩
  · obtain ⟨more, rfl⟩ := List.head?_eq_some_iff.1 hb
    obtain ⟨_, rfl, -⟩ := ha.uncons (by decide)
    rfl
  · by_contra hhead
    have hnone : cs'.head?.any startsName = false := ha.any_head (by decide +kernel)
      (Bool.eq_false_iff.2 hhead)
    rw [hnone] at hn
    exact Bool.false_ne_true hn

/-- Whether a gap comes first depends on two characters. -/
theorem scanTrivia_eq_none_of_head {c : Char} {pos : Nat} {cs : List Char}
    (h : scanTrivia c pos cs = none) {cs' : List Char} (hhead : cs'.head? = cs.head?) (pos' : Nat) :
    scanTrivia c pos' cs' = none := by
  unfold scanTrivia at h ⊢
  split at h
  · exact nomatch h
  · next hblank =>
    rw [if_neg hblank]
    split at h
    · next hc =>
      rw [if_pos hc]
      split
      · obtain ⟨_, rfl⟩ := List.head?_eq_some_iff.1 hhead.symm
        exact nomatch h
      · obtain ⟨_, rfl⟩ := List.head?_eq_some_iff.1 hhead.symm
        exact nomatch h
      · rfl
    · next hc => rw [if_neg hc]

/-- Whether a gap starts with a character that is no slash does not depend on what comes next. -/
theorem scanTrivia_eq_none_of_ne {c : Char} {pos : Nat} {cs : List Char}
    (h : scanTrivia c pos cs = none) (hc : c ≠ '/') (pos' : Nat) (cs' : List Char) :
    scanTrivia c pos' cs' = none := by
  unfold scanTrivia at h ⊢
  split at h
  · exact nomatch h
  · next hblank => rw [if_neg hblank, if_neg hc]

/-- Before a character that makes no comment with a slash no gap comes that was none before. -/
theorem scanTrivia_eq_none_of_head_ne {c : Char} {pos : Nat} {cs : List Char}
    (h : scanTrivia c pos cs = none) {cs' : List Char} (hslash : cs'.head? ≠ some '/')
    (hstar : cs'.head? ≠ some '*') (pos' : Nat) : scanTrivia c pos' cs' = none := by
  by_cases hc : c = '/'
  · subst hc
    unfold scanTrivia
    rw [if_neg (by decide), if_pos rfl]
    split
    · exact absurd rfl hslash
    · exact absurd rfl hstar
    · rfl
  · exact scanTrivia_eq_none_of_ne h hc pos' cs'

/-- Where no token starts with a gap, none does before a text that is alike. -/
theorem scanTrivia_eq_none {c : Char} {pos : Nat} {cs : List Char}
    (h : scanTrivia c pos cs = none) {cs' : List Char} (ha : Alike cs cs') (pos' : Nat) :
    scanTrivia c pos' cs' = none := by
  by_cases hslash : cs'.head? = some '/'
  · obtain ⟨_, rfl⟩ := List.head?_eq_some_iff.1 hslash
    obtain ⟨_, rfl, -⟩ := ha.symm.uncons (by decide) (by decide)
    exact scanTrivia_eq_none_of_head h (by rfl) pos'
  by_cases hstar : cs'.head? = some '*'
  · obtain ⟨_, rfl⟩ := List.head?_eq_some_iff.1 hstar
    obtain ⟨_, rfl, -⟩ := ha.symm.uncons (by decide) (by decide)
    exact scanTrivia_eq_none_of_head h (by rfl) pos'
  · exact scanTrivia_eq_none_of_head_ne h hslash hstar pos'

theorem scanOpening_again {pos : Nat} {cs inside mid : List Char}
    (h : (scanOpening pos cs).rest = inside ++ mid) :
    ∃ used, cs = used ++ mid ∧
      (scanOpening pos cs).pos + byteLength inside = pos + byteLength used ∧
      ∀ n ahead, UpTo mid ahead → (scanOpening (pos + n) (used ++ ahead)).Is
        (scanOpening pos cs).value ((scanOpening pos cs).pos + n) (inside ++ ahead) := by
  by_cases hraw : ∃ cs', cs = '"' :: '"' :: cs'
  · obtain ⟨cs, rfl⟩ := hraw
    have h : cs = inside ++ mid := h
    subst h
    refine ⟨'"' :: '"' :: inside, rfl, ?_, fun n ahead _ => ⟨rfl, ?_, rfl⟩⟩
    · show pos + 2 + byteLength inside = pos + (1 + (1 + byteLength inside))
      omega
    · show pos + n + 2 = pos + 2 + n
      omega
  · have hraw : (scanOpening pos cs).value = false := by
      unfold scanOpening
      split
      · next cs' => exact absurd ⟨cs', rfl⟩ hraw
      · rfl
    obtain ⟨-, hpos, hrest⟩ := scanOpening_upTo hraw (.refl cs) pos
    rw [hrest] at h
    subst h
    rw [hraw, hpos]
    exact ⟨inside, rfl, rfl, fun n ahead ha => scanOpening_upTo hraw (ha.append inside) _⟩

/-- A token with nothing in it: neither a string with templates nor the end. -/
def TokenKind.isPlain : TokenKind → Bool
  | .template _ | .eof => false
  | _ => true

theorem TokenKind.ne_template_of_isPlain {kind : TokenKind} (h : kind.isPlain = true)
    (parts : List (List Token)) : kind ≠ .template parts := by
  rintro rfl
  exact nomatch h

theorem TokenKind.isEof_of_isPlain {kind : TokenKind} (h : kind.isPlain = true) :
    kind.isEof = false := by
  cases kind with
  | eof => exact nomatch h
  | _ => rfl

theorem isPlain_ofWord (word : String) : (TokenKind.ofWord word).isPlain = true := by
  unfold TokenKind.ofWord
  split <;> rfl

theorem isPlain_of_scanNumber {d : Char} {pos : Nat} {cs : List Char} {s : Scanned TokenKind cs}
    (h : scanNumber d pos cs = .ok s) : s.value.isPlain = true := by
  unfold scanNumber at h
  extract_lets number single at h
  rcases number.value with ⟨whole, fraction⟩
  dsimp only at h
  split at h
  · obtain rfl := Except.ok.inj h
    rfl
  split at h
  · obtain rfl := Except.ok.inj h
    rfl
  split at h
  · obtain rfl := Except.ok.inj h
    show (if _ then _ else _ : TokenKind).isPlain = true
    split <;> rfl
  · cases h

theorem exists_mark_of_scanMark {c : Char} {pos : Nat} {cs : List Char} {s : Scanned TokenKind cs}
    (h : scanMark c pos cs = .ok s) : ∃ m, s.value = .mark m := by
  unfold scanMark at h
  split at h
  · obtain ⟨m, -, hs⟩ := scanSingleMark_eq_ok h
    exact ⟨m, hs.value⟩
  · split at h
    · obtain rfl := Except.ok.inj h
      exact ⟨_, rfl⟩
    · obtain ⟨m, -, hs⟩ := scanSingleMark_eq_ok h
      exact ⟨m, hs.value⟩

/-- The tokens that are no strings. Numbers start with a digit, and no others do. -/
theorem scanToken_cases {c : Char} {pos : Nat} {cs : List Char} {kind : TokenKind}
    {q : Nat} {mid : List Char} (h : Reads (scanToken c pos cs) kind q mid) :
    (c.isDigit = true ∧ Reads (scanNumber c (pos + 1) cs) kind q mid) ∨ kind = .newline ∨
      (∃ value, kind = .character value) ∨ (∃ name, kind = .name name) ∨
      (∃ word, kind = .ofWord word) ∨ ∃ m, kind = .mark m := by
  obtain ⟨s, h, hs⟩ := h
  have hvalue := hs.value
  unfold scanToken at h
  split at h
  · obtain rfl := Except.ok.inj h
    exact Or.inr (Or.inl hvalue.symm)
  split at h
  · refine Or.inr (Or.inr (Or.inl ?_))
    unfold scanCharacter at h
    split at h
    · cases h
    · cases h
    · obtain ⟨t, ht, rfl⟩ := exists_ok_of_map h
      obtain ⟨more, -, ht⟩ := scanQuote_eq_ok ht
      exact ⟨_, hvalue.symm.trans ht.value⟩
    · obtain ⟨t, ht, rfl⟩ := exists_ok_of_map h
      obtain ⟨more, -, ht⟩ := scanQuote_eq_ok ht
      exact ⟨_, hvalue.symm.trans ht.value⟩
  split at h
  · next hd => exact Or.inl ⟨hd, s, h, hs⟩
  refine Or.inr (Or.inr (Or.inr ?_))
  split at h
  · unfold scanBackticks at h
    extract_lets name at h
    split at h
    · cases h
    · obtain rfl := Except.ok.inj h
      exact Or.inl ⟨_, hvalue.symm⟩
  split at h
  · obtain rfl := Except.ok.inj h
    exact Or.inr (Or.inl ⟨_, hvalue.symm⟩)
  · obtain ⟨m, hm⟩ := exists_mark_of_scanMark h
    exact Or.inr (Or.inr ⟨m, hvalue.symm.trans hm⟩)

/-- A token that is no string has nothing in it. -/
theorem isPlain_of_scanToken {c : Char} {pos : Nat} {cs : List Char} {kind : TokenKind}
    {q : Nat} {mid : List Char} (h : Reads (scanToken c pos cs) kind q mid) :
    kind.isPlain = true := by
  obtain ⟨-, s, hs, rfl, -, -⟩ | rfl | ⟨_, rfl⟩ | ⟨_, rfl⟩ | ⟨word, rfl⟩ | ⟨_, rfl⟩ :=
    scanToken_cases h
  · exact isPlain_of_scanNumber hs
  · rfl
  · rfl
  · rfl
  · exact isPlain_ofWord word
  · rfl

/-- A token that is no string is read again at each place where the text behind is the same up to a
place. -/
theorem scanToken_again {c : Char} {pos : Nat} {cs : List Char} {kind : TokenKind} {q : Nat}
    {mid : List Char} (h : Reads (scanToken c pos cs) kind q mid) :
    ∃ used, cs = used ++ mid ∧ q = pos + byteLength (c :: used) ∧ ∀ pos' ahead, UpTo mid ahead →
      Reads (scanToken c pos' (used ++ ahead)) kind (pos' + byteLength (c :: used)) ahead :=
  (scanToken_lexeme c).again_upTo h

theorem TokenKind.relocate_of_isPlain (r : Relocation) {kind : TokenKind}
    (h : kind.isPlain = true) : kind.relocate r = kind := by
  rcases kind.relocate_cases r with ⟨parts, hparts⟩ | ⟨hk, -⟩
  · exact absurd hparts (TokenKind.ne_template_of_isPlain h parts)
  · exact hk

/-- A name in a string has its first character at least. -/
theorem name_ne_nil {pos q : Nat} {cs mid name : List Char} (hc : cs.head?.any startsName = true)
    (hname : (scanRun continuesName pos cs).Is name q mid) : name ≠ [] := by
  obtain ⟨d, cs, rfl, hd⟩ := exists_cons_of_any_head hc
  have hvalue : (d :: cs).takeWhile continuesName = name := hname.value
  rw [List.takeWhile_cons_of_pos (continuesName_of_startsName hd)] at hvalue
  exact hvalue ▸ List.cons_ne_nil _ _

/-- A name in a string is read again where the text behind is the same up to a place. -/
theorem scanRun_name_again {pos q : Nat} {cs mid name : List Char}
    (hc : cs.head?.any startsName = true) (hname : (scanRun continuesName pos cs).Is name q mid) :
    cs = name ++ mid ∧ q = pos + byteLength name ∧ ∀ pos' ahead, UpTo mid ahead →
      (name ++ ahead).head?.any startsName = true ∧
        (scanRun continuesName pos' (name ++ ahead)).Is name (pos' + byteLength name) ahead := by
  have hne := name_ne_nil hc hname
  obtain rfl : cs.takeWhile continuesName = name := hname.value
  obtain rfl : cs.dropWhile continuesName = mid := hname.rest
  have hcs : cs.takeWhile continuesName ++ cs.dropWhile continuesName = cs :=
    List.takeWhile_append_dropWhile
  refine ⟨hcs.symm, hname.pos.symm, fun pos' ahead ha => ⟨?_, ?_⟩⟩
  · rw [← hcs] at hc
    obtain ⟨d, more, hd⟩ := List.exists_cons_of_ne_nil hne
    rw [hd] at hc ⊢
    exact hc
  · exact scanRun_append pos' (fun c hc => List.mem_takeWhile_imp hc) (ha.any_head
      continuesName_halted (head?_dropWhile_any continuesName cs))

theorem Token.relocateAll_cons (r : Relocation) {t : Token} {ts : List Token} (h : ts ≠ []) :
    relocateAll r (t :: ts) = ⟨t.kind.relocate r, r.span t.span⟩ :: relocateAll r ts := by
  rcases t with ⟨kind, span⟩
  obtain ⟨u, us, rfl⟩ := List.exists_cons_of_ne_nil h
  rw [relocateAll, relocate]
  rfl

theorem relocateAll_namePart (r : Relocation) (name : List Char) (pos q : Nat) :
    Token.relocateAll r (namePart name pos q) = [⟨.ofWord (String.ofList name), r.span ⟨pos, q⟩⟩,
      ⟨.eof, r.last ⟨q, q⟩⟩] := by
  rw [namePart, Token.relocateAll_cons r (List.cons_ne_nil _ _),
    TokenKind.relocate_of_isPlain r (isPlain_ofWord _)]
  simp [Token.relocateAll, Token.relocate, TokenKind.relocate, TokenKind.isEof]

theorem ReadsCode.tokens_ne_nil {nested : Bool} {depth pos : Nat} {cs : List Char}
    {ts : List Token} {p : Nat} {rest : List Char} :
    ReadsCode nested depth pos cs ts p rest → ts ≠ []
  | .done | .close | .string _ _ | .token _ _ _ _ _ => List.cons_ne_nil _ _
  | .gap _ _ _ _ hmore => hmore.tokens_ne_nil

mutual

/-- Code is read again at each later offset and where the text behind is the same up to a place. Only nested
code ends before the text does. -/
theorem ReadsCode.again {nested : Bool} {depth pos : Nat} {cs : List Char} {ts : List Token}
    {p : Nat} {rest : List Char} : ReadsCode nested depth pos cs ts p rest →
      ∃ used, (nested → used ≠ []) ∧ cs = used ++ rest ∧ p = pos + byteLength used ∧
        ∀ n ahead, UpTo rest ahead → (nested = false → ahead = rest) →
          ReadsCode nested depth (pos + n) (used ++ ahead) (Token.relocateAll (.shift n) ts)
            (p + n) ahead
  | .done => by
    refine ⟨[], nofun, rfl, rfl, fun n ahead _ ha => ?_⟩
    obtain rfl := ha rfl
    simp only [Token.relocateAll, Token.relocate]
    exact .done
  | @ReadsCode.close pos cs => by
    refine ⟨['\x7d'], fun _ => List.cons_ne_nil _ _, rfl, rfl, fun n ahead _ _ => ?_⟩
    simp only [Token.relocateAll, Token.relocate, Nat.add_right_comm pos 1 n]
    exact .close
  | @ReadsCode.string nested depth pos q p cs mid rest body ts hbody hmore => by
    obtain ⟨more, -, hmid, hp, hmore'⟩ := hmore.again
    obtain ⟨inside, -, hinside, hq, hbody'⟩ := hbody.again
    obtain ⟨used, hused, hlength, hopening⟩ := scanOpening_again hinside
    refine ⟨'"' :: (used ++ more), fun _ => List.cons_ne_nil _ _, by simp [hused, hmid], ?_,
      fun n ahead ha hn => ?_⟩
    · simp only [byteLength_cons, byteLength_append, show '"'.utf8Size = 1 from rfl]
      omega
    have ha' : UpTo mid (more ++ ahead) := hmid ▸ ha.append more
    obtain ⟨hvalue, hpos, hrest⟩ := hopening n (more ++ ahead) ha'
    have hbody' := hbody' n (more ++ ahead) ha'
    rw [← hvalue, ← hpos, ← hrest, Nat.add_right_comm pos 1 n] at hbody'
    rw [Token.relocateAll_cons _ hmore.tokens_ne_nil, ← StringBody.kind_relocate,
      List.cons_append, List.append_assoc]
    exact .string hbody' (hmore' n ahead ha hn)
  | @ReadsCode.gap nested depth pos q p c cs mid rest ts r hclose hc hgap hread hmore => by
    obtain ⟨more, hne, hmid, hp, hmore'⟩ := hmore.again
    obtain ⟨used, hused, hq, hgap'⟩ := scanTrivia_again hgap hread
    refine ⟨c :: (used ++ more), fun _ => List.cons_ne_nil _ _, by simp [hused, hmid], ?_,
      fun n ahead ha hn => ?_⟩
    · simp only [byteLength_cons, byteLength_append] at hq ⊢
      omega
    have hhead : (more ++ ahead).head? = mid.head? := by
      cases nested with
      | false => rw [hn rfl, hmid]
      | true =>
        obtain ⟨d, more, rfl⟩ := List.exists_cons_of_ne_nil (hne rfl)
        rw [hmid]
        rfl
    obtain ⟨r', hgap', hread'⟩ := hgap' (pos + n) (more ++ ahead) hhead
    rw [Nat.add_right_comm, ← hq] at hread'
    rw [List.cons_append, List.append_assoc]
    exact .gap hclose hc hgap' hread' (hmore' n ahead ha hn)
  | @ReadsCode.token nested depth pos q p c cs mid rest kind ts hclose hc hgap htoken hmore => by
    obtain ⟨more, hne, hmid, hp, hmore'⟩ := hmore.again
    obtain ⟨used, hused, hq, htoken'⟩ := scanToken_again htoken
    refine ⟨c :: (used ++ more), fun _ => List.cons_ne_nil _ _, by simp [hused, hmid], ?_,
      fun n ahead ha hn => ?_⟩
    · simp only [byteLength_cons, byteLength_append] at hq ⊢
      omega
    have ha' : UpTo mid (more ++ ahead) := hmid ▸ ha.append more
    have htoken' := htoken' (pos + n) (more ++ ahead) ha'
    rw [Nat.add_right_comm, ← hq] at htoken'
    rw [Token.relocateAll_cons _ hmore.tokens_ne_nil,
      TokenKind.relocate_of_isPlain _ (isPlain_of_scanToken htoken), List.cons_append,
      List.append_assoc]
    have hhead : (used ++ (more ++ ahead)).head? = cs.head? := by
      rw [hused, hmid]
      cases nested with
      | false => rw [hn rfl]
      | true =>
        obtain ⟨d, more, rfl⟩ := List.exists_cons_of_ne_nil (hne rfl)
        cases used <;> rfl
    exact .token hclose hc (scanTrivia_eq_none_of_head hgap hhead _) htoken' (hmore' n ahead ha hn)

/-- A string is read again at each later offset and where the text behind is the same up to a place. -/
theorem ReadsBody.again {raw : Bool} {pos : Nat} {cs : List Char} {b : StringBody}
    {p : Nat} {rest : List Char} : ReadsBody raw pos cs b p rest →
      ∃ used, used ≠ [] ∧ cs = used ++ rest ∧ p = pos + byteLength used ∧
        ∀ n ahead, UpTo rest ahead →
          ReadsBody raw (pos + n) (used ++ ahead) (b.relocate (.shift n)) (p + n) ahead
  | @ReadsBody.close raw pos cs s hclose => by
    obtain ⟨used, hne, hcs, hp, hclose'⟩ := scanClosing_again hclose
    refine ⟨used, hne, hcs, hp, fun n ahead _ => ?_⟩
    obtain ⟨s', hs', -, hp', hrest⟩ := hclose' (pos + n) ahead
    have hread := ReadsBody.close hs'
    rwa [hp', hrest, Nat.add_right_comm, ← hp] at hread
  | @ReadsBody.code raw pos q p cs mid rest ts b hclose hcode hmore => by
    obtain ⟨more, -, hmid, hp, hmore'⟩ := hmore.again
    obtain ⟨inside, -, hcs, hq, hcode'⟩ := hcode.again
    refine ⟨'$' :: '\x7b' :: (inside ++ more), List.cons_ne_nil _ _, by simp [hcs, hmid], ?_,
      fun n ahead ha => ?_⟩
    · show p = pos + (1 + (1 + byteLength (inside ++ more)))
      rw [byteLength_append]
      omega
    have ha' : UpTo mid (more ++ ahead) := hmid ▸ ha.append more
    have hcode' := hcode' n (more ++ ahead) ha' nofun
    rw [Nat.add_right_comm pos 2 n] at hcode'
    have hclose' := scanClosing_eq_none hclose
      (hcs ▸ ((ha'.append inside).cons '\x7b').cons '$') (pos + n)
    rw [List.cons_append, List.cons_append, List.append_assoc]
    exact .code hclose' hcode' (hmore' n ahead ha)
  | @ReadsBody.escape raw pos p c cs rest b hclose hraw hmore => by
    obtain ⟨more, -, hcs, hp, hmore'⟩ := hmore.again
    refine ⟨'\\' :: c :: more, List.cons_ne_nil _ _, by rw [hcs]; rfl, ?_, fun n ahead ha => ?_⟩
    · show p = pos + (1 + (c.utf8Size + byteLength more))
      omega
    have hmore' := hmore' n ahead ha
    rw [show pos + 1 + c.utf8Size + n = pos + n + 1 + c.utf8Size by omega] at hmore'
    have hclose' := scanClosing_eq_none hclose
      (hcs ▸ ((ha.append more).cons c).cons '\\') (pos + n)
    exact .escape hclose' hraw hmore'
  | @ReadsBody.name raw pos q p cs mid rest name b hclose hc hname hmore => by
    obtain ⟨more, -, hmid, hp, hmore'⟩ := hmore.again
    obtain ⟨hcs, hq, hname'⟩ := scanRun_name_again hc hname
    refine ⟨'$' :: (name ++ more), List.cons_ne_nil _ _, by simp [hcs, hmid], ?_,
      fun n ahead ha => ?_⟩
    · show p = pos + (1 + byteLength (name ++ more))
      rw [byteLength_append]
      omega
    have ha' : UpTo mid (more ++ ahead) := hmid ▸ ha.append more
    have hcs' : UpTo cs (name ++ (more ++ ahead)) := hcs ▸ ha'.append name
    obtain ⟨hc', hname'⟩ := hname' (pos + 1 + n) (more ++ ahead) ha'
    rw [Nat.add_right_comm (pos + 1), ← hq, Nat.add_right_comm pos 1 n] at hname'
    have hpart : (b.addPart (namePart name (pos + 1) q)).relocate (.shift n)
        = (b.relocate (.shift n)).addPart (namePart name (pos + n + 1) (q + n)) := by
      rw [StringBody.relocate_addPart, relocateAll_namePart, Nat.add_right_comm pos n 1]
      rfl
    rw [hpart, List.cons_append, List.append_assoc]
    exact .name (scanClosing_eq_none hclose (hcs'.cons '$') _) hc' hname' (hmore' n ahead ha)
  | @ReadsBody.char raw pos p c cs rest b hclose hc hmore => by
    obtain ⟨more, -, hcs, hp, hmore'⟩ := hmore.again
    refine ⟨c :: more, List.cons_ne_nil _ _, by rw [hcs]; rfl, ?_, fun n ahead ha => ?_⟩
    · rw [byteLength_cons]
      omega
    have hmore' := hmore' n ahead ha
    rw [Nat.add_right_comm] at hmore'
    have ha' : UpTo cs (more ++ ahead) := hcs ▸ ha.append more
    exact .char (scanClosing_eq_none hclose (ha'.cons c) _) (hc.upTo ha') hmore'

end

end FrameCheck
