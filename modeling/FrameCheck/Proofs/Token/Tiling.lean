import FrameCheck.Proofs.Text.Lines
import FrameCheck.Proofs.Token.Places

/-!
# Tokens tile the text

A text is the lexemes of its tokens, one behind the other, with gaps of blanks and comments
between them (`Token.Tiles`). The tokens of a template tile the part of the string that they were
read from (`Token.PartsIn`). So the spans of tokens are known from the lengths of what stands
before them: they rise, lie apart and on the bounds of characters (`Token.Apart`).

* `IsGap` : what stands between two tokens.
* `ReadsCode.tiles` : what is read tiles.
* `Token.Tiles.apart` : tokens that tile a text lie apart, and so do those of their templates.
-/

namespace FrameCheck

/-! ## Gaps -/

/-- A block comment from behind its opening mark on. What opens in it closes in it. -/
inductive IsComment : List Char → Prop
  | close : IsComment ['*', '/']
  | nested {inner more : List Char} (hinner : IsComment inner) (hmore : IsComment more) :
    IsComment ('/' :: '*' :: (inner ++ more))
  | char {c : Char} {more : List Char} (hopen : ¬['/', '*'] <+: c :: more)
    (hclose : ¬['*', '/'] <+: c :: more) (hmore : IsComment more) : IsComment (c :: more)

/-- What may stand between two tokens, where `behind` is the text behind it: blanks, line comments
up to a line break or the end of the text, and block comments. -/
inductive IsGap : List Char → List Char → Prop
  | nil {behind : List Char} : IsGap [] behind
  | blank {c : Char} {gap behind : List Char} (hc : c = ' ' ∨ c = '\t' ∨ c = '\r')
    (hmore : IsGap gap behind) : IsGap (c :: gap) behind
  | line {note gap behind : List Char} (hnote : '\n' ∉ note)
    (hend : Text.EndsLine (gap ++ behind)) (hmore : IsGap gap behind) :
    IsGap ('/' :: '/' :: (note ++ gap)) behind
  | block {comment gap behind : List Char} (hcomment : IsComment comment)
    (hmore : IsGap gap behind) : IsGap ('/' :: '*' :: (comment ++ gap)) behind

theorem IsComment.ne_nil {comment : List Char} (h : IsComment comment) : comment ≠ [] := by
  cases h <;> exact List.cons_ne_nil _ _

/-- A comment is read up to the end of all that are open. -/
theorem scanComment_comments {start depth pos : Nat} {cs : List Char} {p : Nat} {rest : List Char}
    (h : Reads (scanComment start depth pos cs) () p rest) :
    ∃ comments : List (List Char), comments.length = depth + 1 ∧
      (∀ comment ∈ comments, IsComment comment) ∧ cs = comments.flatten ++ rest := by
  fun_induction scanComment start depth pos cs with
  | case1 => cases h.choose_spec.1
  | case2 depth pos more ih =>
    obtain ⟨comments, hlength, hall, rfl⟩ := ih ((reads_widen _).1 h)
    obtain ⟨inner, comments, rfl⟩ := List.exists_cons_of_length_eq_add_one hlength
    obtain ⟨outer, comments, rfl⟩ := List.exists_cons_of_length_eq_add_one (Nat.succ.inj hlength)
    simp only [List.forall_mem_cons] at hall
    refine ⟨('/' :: '*' :: (inner ++ outer)) :: comments, Nat.succ.inj hlength, ?_, by simp⟩
    simp only [List.forall_mem_cons]
    exact ⟨.nested hall.1 hall.2.1, hall.2.2⟩
  | case3 pos more =>
    obtain rfl : more = rest := (h.of_ok rfl).rest
    exact ⟨[['*', '/']], rfl, by simpa using IsComment.close, rfl⟩
  | case4 pos more depth ih =>
    obtain ⟨comments, hlength, hall, rfl⟩ := ih ((reads_widen _).1 h)
    refine ⟨['*', '/'] :: comments, congrArg Nat.succ hlength, ?_, rfl⟩
    simp only [List.forall_mem_cons]
    exact ⟨.close, hall⟩
  | case5 depth pos c more hopened hclosed ih =>
    obtain ⟨comments, hlength, hall, rfl⟩ := ih ((reads_widen (Nat.le_of_lt (by simp))).1 h)
    obtain ⟨comment, comments, rfl⟩ := List.exists_cons_of_length_eq_add_one hlength
    simp only [List.forall_mem_cons] at hall
    refine ⟨(c :: comment) :: comments, hlength, ?_, rfl⟩
    simp only [List.forall_mem_cons]
    refine ⟨.char ?_ ?_ hall.1, hall.2⟩
    -- a mark of two characters in the comment is one in the text
    · intro hmark
      obtain ⟨after, hafter⟩ := hmark
      injection hafter with hc hafter
      exact hopened (after ++ (comments.flatten ++ rest)) hc.symm (by simp [← hafter])
    · intro hmark
      obtain ⟨after, hafter⟩ := hmark
      injection hafter with hc hafter
      exact hclosed (after ++ (comments.flatten ++ rest)) hc.symm (by simp [← hafter])

/-- A blank or a comment makes a gap longer. -/
theorem scanTrivia_gap {c : Char} {pos : Nat} {cs : List Char}
    {r : Except ScanError (Scanned Unit cs)} {q : Nat} {mid : List Char}
    (h : scanTrivia c pos cs = some r) (hr : Reads r () q mid) :
    ∃ used, c :: cs = used ++ mid ∧ q = pos + byteLength used ∧
      ∀ gap behind, mid = gap ++ behind → IsGap gap behind → IsGap (used ++ gap) behind := by
  obtain ⟨used, hused, hq, -⟩ := scanTrivia_again h hr
  refine ⟨c :: used, by rw [hused]; rfl, hq, fun gap behind hmid hgap => ?_⟩
  unfold scanTrivia at h
  split at h
  · next hc =>
    obtain rfl := Option.some.inj h
    obtain rfl : cs = mid := (hr.of_ok rfl).rest
    obtain rfl : used = [] := by simpa using hused
    exact .blank hc hgap
  split at h
  · next hc =>
    subst hc
    split at h
    · next more =>
      obtain rfl := Option.some.inj h
      have hmid' : more.dropWhile (· != '\n') = mid := (hr.of_ok rfl).rest
      have hnote : '\n' ∉ more.takeWhile (· != '\n') := fun hmem => by
        simpa using List.mem_takeWhile_imp (p := (· != '\n')) hmem
      have hend : Text.EndsLine mid := by
        intro d hd
        have hstop := head?_dropWhile_any (· != '\n') more
        rw [hmid', hd] at hstop
        simpa using hstop
      have hmore : '/' :: more.takeWhile (· != '\n') ++ mid = used ++ mid := by
        rw [← hused, ← hmid', List.cons_append, List.takeWhile_append_dropWhile]
      obtain rfl := List.append_cancel_right hmore
      exact .line hnote (hmid ▸ hend) hgap
    · next more =>
      obtain rfl := Option.some.inj h
      obtain ⟨comments, hlength, hall, hmore⟩ :=
        scanComment_comments ((reads_widen (Nat.le_of_lt (by simp))).1 hr)
      match comments, hlength with
      | [comment], _ =>
        simp only [List.flatten_cons, List.flatten_nil, List.append_nil] at hmore
        rw [hmore, ← List.cons_append] at hused
        obtain rfl := List.append_cancel_right hused
        exact .block (hall comment (List.mem_singleton_self _)) hgap
    · exact nomatch h
  · exact nomatch h

/-! ## Tiles -/

/-- The tokens of the templates of a string. -/
def TokenKind.parts : TokenKind → List (List Token)
  | .template parts => parts
  | _ => []

theorem TokenKind.parts_of_isPlain {kind : TokenKind} (h : kind.isPlain = true) :
    kind.parts = [] := by
  cases kind with
  | template parts => exact nomatch h
  | _ => rfl

theorem StringBody.parts_kind (b : StringBody) : b.kind.parts = b.parts := by
  rcases b with ⟨chars, _ | ⟨part, parts⟩⟩ <;> rfl

theorem StringBody.isEof_kind (b : StringBody) : b.kind.isEof = false := by
  rcases b with ⟨chars, _ | ⟨part, parts⟩⟩ <;> rfl

namespace Token

mutual

/-- The text from offset `pos` on is a gap, the lexeme of the first token, a gap, the lexeme of the
next, and so on up to `rest`, where the end stands. -/
inductive Tiles : Nat → List Char → List Token → List Char → Prop
  | eof {pos : Nat} {gap rest : List Char} (hgap : IsGap gap rest) :
    Tiles pos (gap ++ rest) [⟨.eof, ⟨pos + byteLength gap, pos + byteLength gap⟩⟩] rest
  | token {pos : Nat} {gap lexeme behind rest : List Char} {kind : TokenKind} {ts : List Token}
    (hgap : IsGap gap (lexeme ++ behind)) (hlexeme : lexeme ≠ []) (hkind : kind.isEof = false)
    (hparts : PartsIn (pos + byteLength gap) (lexeme ++ behind) kind.parts behind)
    (hmore : Tiles (pos + byteLength gap + byteLength lexeme) behind ts rest) :
    Tiles pos (gap ++ (lexeme ++ behind))
      (⟨kind, ⟨pos + byteLength gap, pos + byteLength gap + byteLength lexeme⟩⟩ :: ts) rest

/-- The text from offset `pos` on has the templates in it, one behind the other, before `rest`.
Something stands before the first and behind the last. -/
inductive PartsIn : Nat → List Char → List (List Token) → List Char → Prop
  | nil {pos : Nat} {used rest : List Char} (hused : used ≠ []) : PartsIn pos (used ++ rest) [] rest
  | cons {pos : Nat} {before code behind rest : List Char} {ts : List Token}
    {parts : List (List Token)} (hbefore : before ≠ [])
    (htiles : Tiles (pos + byteLength before) (code ++ behind) ts behind)
    (hmore : PartsIn (pos + byteLength before + byteLength code) behind parts rest) :
    PartsIn pos (before ++ (code ++ behind)) (ts :: parts) rest

end

section

variable {pos : Nat} {cs rest : List Char} {ts : List Token} {parts : List (List Token)}

/-- A gap may stand before tokens. -/
theorem Tiles.gap {used : List Char}
    (hused : ∀ gap behind, cs = gap ++ behind → IsGap gap behind → IsGap (used ++ gap) behind)
    (h : Tiles (pos + byteLength used) cs ts rest) : Tiles pos (used ++ cs) ts rest := by
  cases h with
  | eof hgap =>
    rw [← List.append_assoc, Nat.add_assoc, ← byteLength_append]
    exact .eof (hused _ _ rfl hgap)
  | token hgap hlexeme hkind hparts hmore =>
    rw [Nat.add_assoc pos, ← byteLength_append] at hparts hmore ⊢
    rw [← List.append_assoc]
    exact .token (hused _ _ rfl hgap) hlexeme hkind hparts hmore

/-- Anything may stand before templates. -/
theorem PartsIn.behind (front : List Char) (h : PartsIn (pos + byteLength front) cs parts rest) :
    PartsIn pos (front ++ cs) parts rest := by
  cases h with
  | nil hused =>
    rw [← List.append_assoc]
    exact .nil (List.append_ne_nil_of_right_ne_nil _ hused)
  | cons hbefore htiles hmore =>
    rw [Nat.add_assoc pos, ← byteLength_append] at htiles hmore
    rw [← List.append_assoc]
    exact .cons (List.append_ne_nil_of_right_ne_nil _ hbefore) htiles hmore

theorem Tiles.exists_append {pos : Nat} {cs rest : List Char} {ts : List Token} :
    Tiles pos cs ts rest → ∃ used, cs = used ++ rest
  | .eof _ => ⟨_, rfl⟩
  | @Tiles.token _ gap lexeme _ _ _ _ _ _ _ _ hmore => by
    obtain ⟨used, rfl⟩ := hmore.exists_append
    exact ⟨gap ++ (lexeme ++ used), by simp⟩

end

end Token

/-- The rest of a string stands behind what opens it. -/
theorem exists_append_scanOpening (pos : Nat) (cs : List Char) :
    ∃ front, cs = front ++ (scanOpening pos cs).rest ∧
      (scanOpening pos cs).pos = pos + byteLength front := by
  unfold scanOpening
  split
  · exact ⟨['"', '"'], rfl, rfl⟩
  · exact ⟨[], rfl, rfl⟩

mutual

/-- Only nested code ends before the text does. -/
theorem ReadsCode.rest_eq_nil {nested : Bool} {depth pos : Nat} {cs : List Char} {ts : List Token}
    {p : Nat} {rest : List Char} : ReadsCode nested depth pos cs ts p rest → nested = false →
      rest = []
  | .done => fun _ => rfl
  | .close => nofun
  | .string _ hmore | .gap _ _ _ _ hmore | .token _ _ _ _ hmore => hmore.rest_eq_nil

/-- The tokens that are read tile what they are read from. Nested code ends before its brace. -/
theorem ReadsCode.tiles {nested : Bool} {depth pos : Nat} {cs : List Char} {ts : List Token}
    {p : Nat} {rest : List Char} : ReadsCode nested depth pos cs ts p rest →
      Token.Tiles pos cs ts (if nested then '\x7d' :: rest else rest)
  | .done => .eof .nil
  | .close => .eof .nil
  | @ReadsCode.string nested depth pos q p cs mid rest body ts hbody hmore => by
    obtain ⟨front, hfront, hpos⟩ := exists_append_scanOpening (pos + 1) cs
    obtain ⟨inside, -, hinside, hq, -⟩ := hbody.again
    have hcs : '"' :: cs = '"' :: (front ++ inside) ++ mid := by
      rw [hfront, hinside, List.cons_append, List.append_assoc]
    have hq : q = pos + byteLength ('"' :: (front ++ inside)) := by
      rw [byteLength_cons, byteLength_append, show '"'.utf8Size = 1 from rfl]
      omega
    have hparts := hbody.partsIn
    rw [hpos, hinside] at hparts
    have hstring : Token.PartsIn pos ('"' :: (front ++ inside) ++ mid) body.kind.parts mid := by
      rw [body.parts_kind, List.cons_append, List.append_assoc]
      exact .behind ['"'] (.behind front hparts)
    have htiles := hmore.tiles
    rw [hcs, hq]
    rw [hq] at htiles
    exact .token .nil (List.cons_ne_nil _ _) body.isEof_kind hstring htiles
  | @ReadsCode.gap nested depth pos q p c cs mid rest ts r hclose hc hgap hread hmore => by
    obtain ⟨used, hused, hq, hgap⟩ := scanTrivia_gap hgap hread
    have htiles := hmore.tiles
    rw [hq] at htiles
    rw [hused]
    exact htiles.gap hgap
  | @ReadsCode.token nested depth pos q p c cs mid rest kind ts hclose hc hgap htoken hmore => by
    have htiles := hmore.tiles
    obtain ⟨used, rfl, rfl, -⟩ := (scanToken_lexeme c).again htoken
    have hkind := isPlain_of_scanToken htoken
    have hparts : Token.PartsIn pos (c :: used ++ mid) kind.parts mid := by
      rw [TokenKind.parts_of_isPlain hkind]
      exact .nil (List.cons_ne_nil _ _)
    exact .token .nil (List.cons_ne_nil _ _) (TokenKind.isEof_of_isPlain hkind) hparts htiles

/-- The templates of a string stand in it, before its closing quotes. -/
theorem ReadsBody.partsIn {raw : Bool} {pos : Nat} {cs : List Char} {b : StringBody}
    {p : Nat} {rest : List Char} : ReadsBody raw pos cs b p rest →
      Token.PartsIn pos cs b.parts rest
  | @ReadsBody.close raw pos cs s hclose => by
    obtain ⟨used, hne, hcs, -⟩ := scanClosing_again hclose
    have hparts : Token.PartsIn pos (used ++ s.rest) [] s.rest := .nil hne
    rwa [← hcs] at hparts
  | @ReadsBody.code raw pos q p cs mid rest ts b hclose hcode hmore => by
    have htiles := hcode.tiles
    have hparts := hmore.partsIn
    obtain ⟨inside, -, hinside, hq, -⟩ := hcode.again
    obtain ⟨code, hcode'⟩ := htiles.exists_append
    obtain rfl : inside = code ++ ['\x7d'] :=
      List.append_cancel_right (hinside.symm.trans (by simpa using hcode'))
    rw [hq, byteLength_append, ← Nat.add_assoc] at hparts
    rw [hcode'] at htiles ⊢
    exact .cons (List.cons_ne_nil '$' ['\x7b']) htiles (.behind ['\x7d'] hparts)
  | @ReadsBody.escape raw pos p c cs rest b hclose hraw hmore => by
    refine .behind ['\\', c] ?_
    have hparts := hmore.partsIn
    rwa [Nat.add_assoc] at hparts
  | @ReadsBody.name raw pos q p cs mid rest name b hclose hc hname hmore => by
    have hne := name_ne_nil hc hname
    have hparts := hmore.partsIn
    obtain rfl : cs.takeWhile continuesName = name := hname.value
    obtain rfl : cs.dropWhile continuesName = mid := hname.rest
    obtain rfl : pos + 1 + byteLength (cs.takeWhile continuesName) = q := hname.pos
    have hkind := isPlain_ofWord (String.ofList (cs.takeWhile continuesName))
    have htiles : Token.Tiles (pos + 1) (cs.takeWhile continuesName ++ cs.dropWhile continuesName)
        (namePart (cs.takeWhile continuesName) (pos + 1)
          (pos + 1 + byteLength (cs.takeWhile continuesName))) (cs.dropWhile continuesName) := by
      refine .token .nil hne (TokenKind.isEof_of_isPlain hkind) ?_ (.eof .nil)
      rw [TokenKind.parts_of_isPlain hkind]
      exact .nil hne
    have hparts := Token.PartsIn.cons (List.cons_ne_nil '$' []) htiles hparts
    rwa [List.takeWhile_append_dropWhile] at hparts
  | @ReadsBody.char raw pos p c cs rest b hclose hc hmore => .behind [c] hmore.partsIn

end

/-! ## Spans -/

namespace Token

/-- The spans of the tokens of a list lie one behind the other, on the bounds of characters. None
is empty but that of the end, which comes last, at offset `stop`. The templates of a token lie
inside of it, one behind the other. -/
structure Apart (text : List Char) (stop : Nat) (ts : List Token) : Prop where
  ends : ∃ init, ts = init ++ [⟨.eof, ⟨stop, stop⟩⟩] ∧
    ∀ t ∈ init, t.kind.isEof = false ∧ t.span.start < t.span.stop
  ordered : ts.Pairwise fun t u => t.span.stop ≤ u.span.start
  bounds : ∀ t ∈ ts, Text.IsBound text t.span.start ∧ Text.IsBound text t.span.stop
  inside : ∀ t ∈ ts, ∀ part ∈ t.kind.parts, ∀ u ∈ part,
    t.span.start < u.span.start ∧ u.span.stop < t.span.stop
  parts : ∀ t ∈ ts, t.kind.parts.Pairwise fun part later =>
    ∀ u ∈ part, ∀ v ∈ later, u.span.stop ≤ v.span.start

/-- The list is `ts`, or belongs to a template of a token in such a list. -/
inductive Within (ts : List Token) : List Token → Prop
  | self : Within ts ts
  | part {us part : List Token} {t : Token} (h : Within ts us) (ht : t ∈ us)
    (hpart : part ∈ t.kind.parts) : Within ts part

theorem Within.trans {ts us vs : List Token} (h : Within ts us) (h' : Within us vs) :
    Within ts vs := by
  induction h' with
  | self => exact h
  | part _ ht hpart ih => exact ih.part ht hpart

/-- The spans lie between the offsets of the text. -/
theorem Tiles.between {pos : Nat} {cs rest : List Char} {ts : List Token} :
    Tiles pos cs ts rest → ∀ t ∈ ts, pos ≤ t.span.start ∧ t.span.start ≤ t.span.stop ∧
      t.span.stop + byteLength rest ≤ pos + byteLength cs
  | @Tiles.eof pos gap rest _ => by
    intro t ht
    obtain rfl := List.mem_singleton.1 ht
    rw [byteLength_append, Nat.add_assoc]
    exact ⟨Nat.le_add_right _ _, Nat.le_refl _, Nat.le_refl _⟩
  | @Tiles.token pos gap lexeme behind rest kind ts _ _ _ _ hmore => by
    have hbehind := hmore.between
    obtain ⟨used, hused⟩ := hmore.exists_append
    have hlength : byteLength behind = byteLength used + byteLength rest := by
      rw [hused, byteLength_append]
    simp only [byteLength_append]
    intro t ht
    rcases List.mem_cons.1 ht with rfl | ht
    · exact ⟨Nat.le_add_right _ _, Nat.le_add_right _ _, by simp only; omega⟩
    · obtain ⟨h1, h2, h3⟩ := hbehind t ht
      exact ⟨by omega, h2, by omega⟩

/-- Something stands behind the last template. -/
theorem PartsIn.byteLength_lt {pos : Nat} {cs rest : List Char} {parts : List (List Token)} :
    PartsIn pos cs parts rest → byteLength rest < byteLength cs
  | .nil hused => by
    have := byteLength_pos hused
    rw [byteLength_append]
    omega
  | .cons _ _ hmore => by
    have := hmore.byteLength_lt
    rw [byteLength_append, byteLength_append]
    omega

/-- Templates lie strictly between the offsets of the text. -/
theorem PartsIn.between {pos : Nat} {cs rest : List Char} {parts : List (List Token)} :
    PartsIn pos cs parts rest → ∀ part ∈ parts, ∀ t ∈ part,
      pos < t.span.start ∧ t.span.stop + byteLength rest < pos + byteLength cs
  | .nil _ => nofun
  | .cons hbefore htiles hmore => by
    intro part hpart t ht
    have hpos := byteLength_pos hbefore
    have hlt := hmore.byteLength_lt
    simp only [byteLength_append]
    rcases List.mem_cons.1 hpart with rfl | hpart
    · obtain ⟨h1, -, h3⟩ := htiles.between t ht
      rw [byteLength_append] at h3
      exact ⟨by omega, by omega⟩
    · obtain ⟨h1, h2⟩ := hmore.between part hpart t ht
      exact ⟨by omega, by omega⟩

theorem PartsIn.pairwise {pos : Nat} {cs rest : List Char} {parts : List (List Token)} :
    PartsIn pos cs parts rest → parts.Pairwise fun part later =>
      ∀ u ∈ part, ∀ v ∈ later, u.span.stop ≤ v.span.start
  | .nil _ => .nil
  | .cons _ htiles hmore => by
    refine .cons (fun later hlater u hu v hv => ?_) hmore.pairwise
    obtain ⟨-, -, h3⟩ := htiles.between u hu
    obtain ⟨h1, -⟩ := hmore.between later hlater v hv
    rw [byteLength_append] at h3
    omega

/-- Tokens that tile what stands behind `before` lie apart in the text. -/
theorem Tiles.apart {text : List Char} {pos : Nat} {cs rest : List Char} {ts : List Token} :
    Tiles pos cs ts rest → ∀ before stop, text = before ++ cs → byteLength before = pos →
      stop + byteLength rest = pos + byteLength cs → Apart text stop ts
  | @Tiles.eof pos gap rest _ => by
    intro before stop htext hpos hstop
    rw [byteLength_append] at hstop
    obtain rfl : stop = pos + byteLength gap := by omega
    have hbound : Text.IsBound text (pos + byteLength gap) :=
      ⟨before ++ gap, rest, by rw [htext, List.append_assoc], by rw [byteLength_append, hpos]⟩
    exact ⟨⟨[], rfl, nofun⟩, List.pairwise_singleton _ _,
      List.forall_mem_singleton.2 ⟨hbound, hbound⟩, List.forall_mem_singleton.2 nofun,
      List.forall_mem_singleton.2 .nil⟩
  | @Tiles.token pos gap lexeme behind rest kind ts _ hlexeme hkind hparts hmore => by
    intro before stop htext hpos hstop
    have hmid : text = before ++ gap ++ (lexeme ++ behind) := by
      rw [htext, List.append_assoc]
    have hbehind : text = before ++ gap ++ lexeme ++ behind := by
      rw [hmid, ← List.append_assoc]
    have hlt := byteLength_pos hlexeme
    have happ := hmore.apart (before ++ gap ++ lexeme) stop hbehind
      (by rw [byteLength_append, byteLength_append, hpos])
      (by rw [byteLength_append, byteLength_append] at hstop; omega)
    obtain ⟨init, hinit, hne⟩ := happ.ends
    refine ⟨⟨_ :: init, by rw [hinit]; rfl, ?_⟩, ?_, ?_, ?_, ?_⟩
    · exact List.forall_mem_cons.2 ⟨⟨hkind, Nat.lt_add_of_pos_right hlt⟩, hne⟩
    · exact .cons (fun u hu => (hmore.between u hu).1) happ.ordered
    · refine List.forall_mem_cons.2 ⟨⟨?_, ?_⟩, happ.bounds⟩
      · exact ⟨_, _, hmid, by rw [byteLength_append, hpos]⟩
      · exact ⟨_, _, hbehind, by rw [byteLength_append, byteLength_append, hpos]⟩
    · refine List.forall_mem_cons.2 ⟨fun part hpart u hu => ?_, happ.inside⟩
      obtain ⟨h1, h2⟩ := hparts.between part hpart u hu
      rw [byteLength_append] at h2
      exact ⟨h1, by simp only; omega⟩
    · exact List.forall_mem_cons.2 ⟨hparts.pairwise, happ.parts⟩

/-! ## Templates at any depth -/

/-- The tokens of a template tile a part of the text. -/
theorem PartsIn.exists_tiles {pos : Nat} {cs rest : List Char} {parts : List (List Token)} :
    PartsIn pos cs parts rest → ∀ part ∈ parts, ∃ before code behind,
      cs = before ++ (code ++ behind) ∧ Tiles (pos + byteLength before) (code ++ behind) part behind
  | .nil _ => nofun
  | @PartsIn.cons _ before code _ _ _ _ _ htiles hmore => by
    intro part hpart
    rcases List.mem_cons.1 hpart with rfl | hpart
    · exact ⟨_, _, _, rfl, htiles⟩
    · obtain ⟨front, code', behind', rfl, hlater⟩ := hmore.exists_tiles part hpart
      refine ⟨before ++ (code ++ front), code', behind', by simp, ?_⟩
      rwa [byteLength_append, byteLength_append, ← Nat.add_assoc, ← Nat.add_assoc]

theorem Tiles.exists_part {pos : Nat} {cs rest : List Char} {ts : List Token} :
    Tiles pos cs ts rest → ∀ t ∈ ts, ∀ part ∈ t.kind.parts, ∃ before code behind,
      cs = before ++ (code ++ behind) ∧ Tiles (pos + byteLength before) (code ++ behind) part behind
  | .eof _ => List.forall_mem_singleton.2 nofun
  | @Tiles.token _ gap lexeme _ _ _ _ _ _ _ hparts hmore => by
    intro t ht part hpart
    rcases List.mem_cons.1 ht with rfl | ht
    · obtain ⟨before, code, behind, hcs, htiles⟩ := hparts.exists_tiles part hpart
      refine ⟨gap ++ before, code, behind, by rw [hcs, List.append_assoc], ?_⟩
      rwa [byteLength_append, ← Nat.add_assoc]
    · obtain ⟨before, code, behind, rfl, htiles⟩ := hmore.exists_part t ht part hpart
      refine ⟨gap ++ (lexeme ++ before), code, behind, by simp, ?_⟩
      rwa [byteLength_append, byteLength_append, ← Nat.add_assoc, ← Nat.add_assoc]

theorem Tiles.within {text : List Char} {ts us : List Token} (h : Tiles 0 text ts [])
    (hus : Within ts us) :
    ∃ before cs rest, text = before ++ cs ∧ Tiles (byteLength before) cs us rest := by
  induction hus with
  | self => exact ⟨[], text, [], rfl, h⟩
  | part _ ht hpart ih =>
    obtain ⟨before, cs, rest, rfl, htiles⟩ := ih
    obtain ⟨front, code, behind, rfl, htiles⟩ := htiles.exists_part _ ht _ hpart
    refine ⟨before ++ front, code ++ behind, behind, by rw [List.append_assoc], ?_⟩
    rwa [byteLength_append]

/-! ## Texts -/

theorem tiles_of_scan {text : String} {ts : List Token} (h : scan text = .ok ts) :
    Tiles 0 text.toList ts [] := by
  obtain ⟨s, hs, rfl⟩ := exists_ok_of_map h
  have hrest : s.rest = [] := (readsCode_of_ok hs).rest_eq_nil rfl
  have htiles := (readsCode_of_ok hs).tiles
  rwa [hrest] at htiles

/-- The tokens of a text lie apart, and so do those of its templates. -/
theorem apart_of_scan {text : String} {ts us : List Token} (h : scan text = .ok ts)
    (hus : Within ts us) : ∃ stop, Apart text.toList stop us := by
  obtain ⟨before, cs, rest, htext, hpart⟩ := (tiles_of_scan h).within hus
  obtain ⟨used, hused⟩ := hpart.exists_append
  refine ⟨byteLength before + byteLength used, hpart.apart before _ htext rfl ?_⟩
  rw [hused, byteLength_append, Nat.add_assoc]

/-- The tokens of a text tile it, those of its templates tile their parts of it, and all of them
lie apart. -/
theorem tiled_of_scan {text : String} {ts : List Token} (h : scan text = .ok ts) :
    Tiles 0 text.toList ts [] ∧ Apart text.toList (byteLength text.toList) ts ∧
      ∀ us, Within ts us → ∃ stop, Apart text.toList stop us := by
  have htiles := tiles_of_scan h
  exact ⟨htiles, htiles.apart [] _ rfl rfl (by simp), fun us hus => apart_of_scan h hus⟩

/-- Comments in a comment and behind a line, a letter of two bytes, and a string with a name, code
and a string in the code. -/
def templatesText : String :=
  "val \u00e9 = /* a /* b */ */ \"$x $\x7b \"y\" + z /* c */ \x7d\" // d"

theorem tiled_of_scan_templatesText : ∃ ts, scan templatesText = .ok ts ∧
    (∃ t ∈ ts, t.kind.parts.length = 2) ∧ Tiles 0 templatesText.toList ts [] ∧
      Apart templatesText.toList (byteLength templatesText.toList) ts ∧
        ∀ us, Within ts us → ∃ stop, Apart templatesText.toList stop us := by
  obtain ⟨ts, hts, hparts⟩ : ∃ ts, scan templatesText = .ok ts ∧
      (ts.any fun t => t.kind.parts.length == 2) = true := by
    refine exists_scan rfl ?_
    decide +kernel
  obtain ⟨t, ht, hlength⟩ := List.any_eq_true.1 hparts
  exact ⟨ts, hts, ⟨t, ht, eq_of_beq hlength⟩, tiled_of_scan hts⟩

end Token

end FrameCheck
