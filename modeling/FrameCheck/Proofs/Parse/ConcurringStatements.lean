import FrameCheck.Proofs.Parse.ConcurringExpressions

/-!
# Statements before a frontier

Statements, and the statements of a block up to the brace that closes it. A statement that does not
parse is skipped up to the same place in both runs, for it ends before that brace at the latest. Only
the type parameters of a function are passed over without regard to brackets, so they have to end
before the frontier, too.

* `Concurs.statement` : statements, which may go on in a later line.
* `Concurs.statements` : the statements of a block.
-/

namespace FrameCheck

open Erasable

namespace Erasable

theorem Alike.entry {args args' : List Argument} (h : Alike args args') (name : String)
    (span : Span) : Alike (AnnotationEntry.mk name (args.map Argument.value) span)
      (AnnotationEntry.mk name (args'.map Argument.value) span) := by
  have hvalue (a : Argument) : a.value.unnumbered = a.unnumbered.value := by
    obtain ⟨n, e⟩ := a
    rw [Argument.unnumbered]
  have hvalues (args : List Argument) : (args.map Argument.value).map Expr.unnumbered
      = (args.map Argument.unnumbered).map Argument.value := by
    rw [List.map_map, List.map_map]
    exact List.map_congr_left fun a _ => hvalue a
  show AnnotationEntry.mk _ _ _ = AnnotationEntry.mk _ _ _
  rw [hvalues, hvalues, h.arguments]

/-- Getters of declarations that are the same up to ids. -/
theorem Alike.getterFunction {v v' : ValDecl} (h : Alike v v') :
    v'.receiver = v.receiver ∧ v'.getterFunction.unnumbered = v.getterFunction.unnumbered := by
  obtain ⟨d, mutable, receiver, name, nameSpan, type, init, b, span⟩ := v
  obtain ⟨d', mutable', receiver', name', nameSpan', type', init', b', span'⟩ := v'
  have h : ValDecl.unnumbered _ = ValDecl.unnumbered _ := h
  rw [ValDecl.unnumbered, ValDecl.unnumbered] at h
  obtain ⟨-, -, rfl, rfl, -, rfl, -, hb, rfl⟩ := ValDecl.mk.inj h
  unfold ValDecl.getterFunction
  exact ⟨rfl, by rw [FunDecl.unnumbered, FunDecl.unnumbered, hb]⟩

end Erasable

namespace Parser

variable {α : Type}

/-! ## Type parameters -/

theorem Rounds.skipTypeParameters_eq {s : ParseState} {t : Token} {ts : List Token} (depth : Nat)
    (h : s.cursor.rest = t :: ts) : Rounds.skipTypeParameters depth s
      = (if t.kind.isEof then fail
        else if t.kind.isMark .less then pure (.next (depth + 1))
        else if t.kind.isMark .greater then
          if depth = 0 then pure (.stop ()) else pure (.next (depth - 1))
        else pure (.next depth) : Parser (Round Nat Unit)) { s with cursor := s.cursor.advance } := by
  rw [← (List.cons.inj h).1]
  rfl

/-- Type parameters are passed over up to the angle bracket that closes them. -/
theorem rounds_skipTypeParameters {params more : List Token} {depth : Nat}
    (hparams : Token.Angles depth params) (hmore : more ≠ []) : ∀ {n : Nat} {s : ParseState},
      params.length ≤ n → s.cursor.rest = params ++ more →
        rounds Rounds.skipTypeParameters n depth s
          = .done () { s with cursor := s.cursor.past params } := by
  have hgreater {k : TokenKind} (h : k.isMark .greater = true) :
      ¬k.isEof = true ∧ ¬k.isMark .less = true := by
    rw [TokenKind.isMark_iff.1 h]
    exact ⟨Bool.false_ne_true, Bool.false_ne_true⟩
  have hless {k : TokenKind} (h : k.isMark .less = true) : ¬k.isEof = true := by
    rw [TokenKind.isMark_iff.1 h]
    exact Bool.false_ne_true
  induction hparams with
  | @stop t ht =>
    intro n s hn h
    obtain ⟨n, rfl⟩ := Nat.exists_eq_succ_of_ne_zero (Nat.pos_iff_ne_zero.1 hn)
    have hstop := Rounds.skipTypeParameters_eq 0 h
    rw [if_neg (hgreater ht).1, if_neg (hgreater ht).2, if_pos ht, if_pos rfl] at hstop
    exact bind_of_done hstop
  | @greater depth t ts ht _ ih =>
    intro n s hn h
    obtain ⟨n, rfl⟩ := Nat.exists_eq_succ_of_ne_zero (Nat.pos_iff_ne_zero.1 (Nat.zero_lt_of_lt hn))
    have hnext := Rounds.skipTypeParameters_eq (depth + 1) h
    rw [if_neg (hgreater ht).1, if_neg (hgreater ht).2, if_pos ht,
      if_neg (Nat.succ_ne_zero depth)] at hnext
    exact (bind_of_done hnext).trans (ih (Nat.le_of_succ_le_succ hn)
      (Cursor.rest_advance h (List.append_ne_nil_of_right_ne_nil ts hmore)))
  | @less depth t ts ht _ ih =>
    intro n s hn h
    obtain ⟨n, rfl⟩ := Nat.exists_eq_succ_of_ne_zero (Nat.pos_iff_ne_zero.1 (Nat.zero_lt_of_lt hn))
    have hnext := Rounds.skipTypeParameters_eq depth h
    rw [if_neg (hless ht), if_pos ht] at hnext
    exact (bind_of_done hnext).trans (ih (Nat.le_of_succ_le_succ hn)
      (Cursor.rest_advance h (List.append_ne_nil_of_right_ne_nil ts hmore)))
  | @other depth t ts ht hend _ ih =>
    intro n s hn h
    obtain ⟨n, rfl⟩ := Nat.exists_eq_succ_of_ne_zero (Nat.pos_iff_ne_zero.1 (Nat.zero_lt_of_lt hn))
    have hnext := Rounds.skipTypeParameters_eq depth h
    rw [if_neg (Bool.eq_false_iff.1 hend), if_neg (Bool.eq_false_iff.1 ht.1),
      if_neg (Bool.eq_false_iff.1 ht.2)] at hnext
    exact (bind_of_done hnext).trans (ih (Nat.le_of_succ_le_succ hn)
      (Cursor.rest_advance h (List.append_ne_nil_of_right_ne_nil ts hmore)))

/-! ## Names -/

/-- No property has a name there. -/
theorem propertyName_failed (g : Grammar) {s : ParseState} (hname : s.cursor.kind.asName? = none)
    (hstar : s.cursor.kind.isMark .star = false) :
    ∃ t, propertyName g s = .failed t ∧ t.skipped = s.skipped := by
  have htype : typeRef g s = .failed { s with cursor := s.cursor.advance } := by
    have heat : eat .star s = .done false s := if_neg (Bool.eq_false_iff.1 hstar)
    exact (bind_of_done heat).trans (bind_of_failed (expectName_failed hname))
  refine ⟨{ s with cursor := s.cursor.advance }, ?_, rfl⟩
  unfold propertyName
  rw [bind_of_done (rfl : cursor s = .done s.cursor s)]
  dsimp only
  split
  · exact bind_of_failed htype
  · exact bind_of_failed (expectName_failed hname)

theorem unparsedVal_eq_none (g : Grammar) {c : Cursor}
    (h : (c.kind.isKeyword .valKw || c.kind.isKeyword .varKw) = false) :
    unparsedVal g c = pure none := by
  unfold unparsedVal
  extract_lets mutable
  split
  · split
    · next hval _ => exact absurd (h.symm.trans hval) Bool.false_ne_true
    · rfl
  · rfl

namespace Concurs

variable {may : Prop} {base : List Span} {F F₁ : Frontier} {s s' : ParseState}

/-- Type parameters of a function end at the same place. -/
theorem skipTypeParameters {c c' : Cursor} (h : F.Places c c')
    (hfun : c.kind.isKeyword .funKw = true) (hless : c.advance.kind.isMark .less = true)
    (hs : s.cursor = c.advance) (hs' : s'.cursor = c'.advance)
    (hskipped : s'.skipped = s.skipped ++ base) :
    Concurs may base (Read F base) skipTypeParameters skipTypeParameters s s' := by
  rw [skipTypeParameters_eq_loop]
  rcases h.typeParameters hfun hless with
    ⟨rfl, rfl⟩ | ⟨params, more, more', hparams, hmore, hmore', hr, hr', hplaces⟩
  · have hsame : Frontier.none.Aligned base s s' := ⟨by rw [hs, hs']; exact .same _, hskipped⟩
    refine next (expect hsame rfl) fun _ _ t t' _ _ ht => ?_
    refine loop (fun depth depth' s s' hdepth hs => ?_) Progresses.skipTypeParameters rfl ht.2
    obtain rfl := hdepth.eq
    refine next (advanceSame hs) fun token token' t t' _ _ ht => ?_
    obtain rfl := ht.1.eq
    refine ite Iff.rfl (fun _ => fail ht.2) fun _ => ?_
    refine ite Iff.rfl (fun _ => done ⟨rfl, ht.2⟩) fun _ => ?_
    refine ite Iff.rfl (fun _ => ?_) fun _ => done ⟨rfl, ht.2⟩
    exact ite Iff.rfl (fun _ => done ⟨rfl, ht.2⟩) fun _ => done ⟨rfl, ht.2⟩
  · have hskip {s : ParseState} {d : Cursor} {more : List Token} (hs : s.cursor = d.advance)
        (hd : d.advance.kind.isMark .less = true) (hmore : more ≠ [])
        (hr : d.advance.advance.rest = params ++ more) :
        (Parser.expect .less >>= fun _ => Parser.loop Rounds.skipTypeParameters 0) s
          = .done () { s with cursor := d.advance.advance.past params } := by
      have hexpect : Parser.expect .less s
          = .done s.cursor.here { s with cursor := s.cursor.advance } := if_pos (by rwa [hs])
      have hlength := congrArg List.length hr
      simp only [Cursor.rest, List.length_cons, List.length_append] at hlength
      rw [bind_of_done hexpect, hs]
      refine rounds_skipTypeParameters hparams hmore ?_ hr
      have := List.length_pos_of_ne_nil hmore
      show params.length ≤ d.advance.advance.ahead.length + 1
      omega
    have hplain := Token.isUnbracketed_of_isKeyword hfun
    have hless' : c'.advance.kind.isMark .less = true := by
      rwa [(h.advance hplain).kind_eq (TokenKind.isMark .less) fun _ => rfl]
    unfold Concurs
    rw [hskip hs hless hmore hr, hskip hs' hless' hmore' hr']
    exact ⟨rfl, hplaces, hskipped⟩

/-! ## Parts of declarations -/

theorem annotationName : Confined annotationName := by
  intro may base F s s' hs
  rw [annotationName_eq_loop]
  refine next (expectName hs) fun first first' t t' _ _ ht => ?_
  obtain rfl := ht.1.eq
  refine next (eat ht.2 rfl) fun sited sited' u u' _ _ hu => ?_
  obtain rfl := hu.1.eq
  have hloop (name : String) {t t'} (ht : F.Aligned base t t') : Concurs may base (Read F base)
      (Parser.loop Rounds.annotationName name) (Parser.loop Rounds.annotationName name) t t' := by
    refine loop (fun n n' s s' hn hs => ?_) Progresses.annotationName rfl ht
    obtain rfl := hn.eq
    refine next (eat hs rfl) fun more more' t t' _ _ ht => ?_
    obtain rfl := ht.1.eq
    refine ite Iff.rfl (fun _ => ?_) fun _ => done ⟨rfl, ht.2⟩
    refine next (expectName ht.2) fun name name' u u' _ _ hu => ?_
    obtain rfl := hu.1.eq
    exact done ⟨rfl, hu.2⟩
  refine ite Iff.rfl (fun _ => ?_) fun _ => ?_
  · refine next (Q := Read F base) (map (expectName hu.2) fun a b t t' h => ?_)
      fun name name' v v' _ _ hv => ?_
    · obtain rfl := h.1.eq
      exact ⟨rfl, h.2⟩
    · obtain rfl := hv.1.eq
      exact hloop name' hv.2
  · rw [pure_bind]
    exact hloop _ hu.2

section

variable (g : Grammar) [hforward : g.Forward] [hg : g.Local]

include hg

theorem annotations (hs : F.Aligned base s s') (hF : ¬F.IsLine) :
    Concurs may base (Read F base) (annotations g) (annotations g) s s' := by
  rw [annotations_eq_loop]
  refine loop (fun seen seen' s s' hseen hs => ?_) (Progresses.annotations g) rfl hs
  refine next (atMark hs .at) fun marked marked' t t' hd _ ht => ?_
  cases hd
  obtain ⟨rfl, -, ht⟩ := ht
  refine ite Iff.rfl (fun hat => ?_) fun _ => done ⟨hseen, ht⟩
  have hplain := TokenKind.isUnbracketed_of_isMark hat rfl
  refine next (advance ht hplain) fun start start' u u' _ _ hu => ?_
  obtain rfl := hu.1.eq
  refine next (annotationName hu.2) fun name name' v v' _ _ hv => ?_
  obtain rfl := hv.1.eq
  refine next (atMark hv.2 .leftParen) fun opened opened' w w' _ _ hw => ?_
  obtain ⟨rfl, -, hw⟩ := hw
  extract_lets entry entry'
  have hentry {args args'} (hargs : Erasable.Alike args args') {t t'} (ht : F.Aligned base t t') :
      Concurs may base (RoundPost F base (Read F base)) (entry args) (entry' args') t t' := by
    refine lastSpan_next ht fun last => ?_
    refine skipNewlines_next ht (fun u u' hu => done ⟨hseen.append ?_, hu⟩)
      fun hline => absurd hline hF
    exact hargs.entry name' _
  refine ite Iff.rfl (fun _ => ?_) fun _ => ?_
  · exact next (arguments g hw) fun args args' x x' _ _ hx => hentry hx.1 hx.2
  · rw [pure_bind, pure_bind]
    exact hentry rfl hw

theorem initializer : Local (initializer g) := by
  intro base F s s' hs
  refine next (eat hs rfl) fun given given' t t' _ _ ht => ?_
  obtain rfl := ht.1.eq
  refine ite Iff.rfl (fun _ => ?_) fun _ => done ⟨rfl, ht.2⟩
  exact skipNewlines_next ht.2 (fun u u' hu => some (expression g hu)) fun hline =>
    ⟨hline, (Refuses.expression rfl g).next⟩

theorem typeMark : Confined (typeMark g) := by
  intro may base F s s' hs
  refine next (eat hs rfl) fun given given' t t' _ _ ht => ?_
  obtain rfl := ht.1.eq
  exact ite Iff.rfl (fun _ => some (typeRef g hg.type ht.2)) fun _ => done ⟨rfl, ht.2⟩

theorem param (hs : F.Aligned base s s') (hF : ¬F.IsLine) :
    Concurs may base (Read F base) (param g) (param g) s s' := by
  refine next (annotations g hs hF) fun _ _ t t' _ _ ht => ?_
  refine next (expectName ht.2) fun named named' u u' _ _ hu => ?_
  obtain rfl := hu.1.eq
  refine next (typeMark g hu.2) fun type type' v v' _ _ hv => ?_
  obtain rfl := hv.1.eq
  refine next ((initializer g hv.2).weaken fun hline => absurd hline hF) fun e e' w w' _ _ he => ?_
  refine next (newDecl he.2) fun d d' x x' _ _ hx => lastSpan_next hx fun last => done ⟨?_, hx⟩
  show Param.unnumbered _ = Param.unnumbered _
  rw [Param.unnumbered, Param.unnumbered, Expr.unnumbered?_eq_map, Expr.unnumbered?_eq_map,
    he.1.expr?]

/-- The parameters of a function. -/
theorem params : Confined (Parser.declared fun seen => do return seen ++ [← Parser.param g]) := by
  intro may base F s s' hs
  rw [declared_eq_loop]
  refine next (expectOpening hs rfl) fun _ _ t t' _ _ ht => ?_
  obtain ⟨-, F₁, hin, ht⟩ := ht
  refine loop (fun seen seen' s s' hseen hs => ?_) (Progresses.declared inferInstance) rfl ht
  refine skipNewlines_next hs (fun t t' ht => ?_) fun hline => absurd hline hin.not_line
  refine next (eatClosing ht hin) fun closed closed' u u' _ _ hu => ?_
  obtain ⟨rfl, hu⟩ := hu
  refine ite Iff.rfl (fun hclosed => ?_) fun hclosed => ?_
  · rw [if_pos hclosed] at hu
    exact done ⟨hseen, hu⟩
  rw [if_neg hclosed] at hu
  simp only [bind_assoc, pure_bind]
  refine next (param g hu.2 hin.not_line) fun p p' v v' _ _ hv => ?_
  have hseen := hseen.append hv.1
  refine skipNewlines_next hv.2 (fun w w' hw => ?_) fun hline => absurd hline hin.not_line
  refine next (eat hw rfl) fun more more' x x' _ _ hx => ?_
  obtain rfl := hx.1.eq
  refine ite Iff.rfl (fun _ => done ⟨hseen, hx.2⟩) fun _ => ?_
  exact next (expectClosing hx.2 hin) fun _ _ y y' _ _ hy => done ⟨hseen, hy⟩

theorem body : Local (body g) := by
  intro base F s s' hs
  refine next (eat hs rfl) fun given given' t t' _ _ ht => ?_
  obtain rfl := ht.1.eq
  refine ite Iff.rfl (fun _ => ?_) fun _ => ?_
  · refine skipNewlines_next ht.2 (fun u u' hu => ?_)
      fun hline => ⟨hline, (Refuses.expression rfl g).next⟩
    exact map (expression g hu) fun e e' v v' he => ⟨congrArg Body.expr he.1.expr, he.2⟩
  · exact map (block g ht.2) fun b b' v v' hb => ⟨congrArg Body.block hb.1.body, hb.2⟩

/-! ## Functions and properties -/

theorem functionName : Confined (functionName g) := by
  intro may base F s s' hs
  refine next (typeRef g hg.type hs) fun head head' t t' _ _ ht => ?_
  obtain rfl := ht.1.eq
  refine next (eat ht.2 rfl) fun dotted dotted' u u' _ _ hu => ?_
  obtain rfl := hu.1.eq
  refine ite Iff.rfl (fun _ => ?_) fun _ => ?_
  · refine next (expectName hu.2) fun name name' v v' _ _ hv => ?_
    obtain rfl := hv.1.eq
    exact done ⟨rfl, hv.2⟩
  · split <;> exact done ⟨rfl, hu.2⟩

theorem funDecl (hs : F.Aligned base s s') (hk : s.cursor.kind.isKeyword .funKw = true) :
    Concurs F.IsLine base (Read F base) (funDecl g) (funDecl g) s s' := by
  have hplain := Token.isUnbracketed_of_isKeyword hk
  refine next (advance hs hplain) fun start start' t t' ht ht' h => ?_
  obtain rfl := h.1.eq
  refine next (newDecl h.2) fun d d' u u' hu hu' h => ?_
  refine next (atMark h .less) fun generic generic' v v' hv hv' h => ?_
  cases hv
  cases hv'
  obtain ⟨heq, -, h⟩ := h
  have hcursor : u.cursor = s.cursor.advance := by cases ht; cases hu; rfl
  have hcursor' : u'.cursor = s'.cursor.advance := by cases ht'; cases hu'; rfl
  extract_lets rest rest'
  have hrest {t t'} (ht : F.Aligned base t t') :
      Concurs F.IsLine base (Read F base) (rest ()) (rest' ()) t t' := by
    refine next (functionName g ht) fun named named' u u' _ _ hu => ?_
    obtain rfl := hu.1.eq
    refine next (params g hu.2) fun ps ps' v v' _ _ hv => ?_
    refine next (typeMark g hv.2) fun type type' w w' _ _ hw => kind_next ?_
    obtain rfl := hw.1.eq
    extract_lets made made'
    have hmade {b b' : Body} (hb : Erasable.Alike b b') {t t'} (ht : F.Aligned base t t') :
        Concurs F.IsLine base (Read F base) (made b) (made' b') t t' := by
      refine lastSpan_next ht fun last => done ⟨?_, ht⟩
      have hps : ps'.map Param.unnumbered = ps.map Param.unnumbered := hv.1
      have hb : b'.unnumbered = b.unnumbered := hb
      show FunDecl.unnumbered _ = FunDecl.unnumbered _
      rw [FunDecl.unnumbered, FunDecl.unnumbered, Param.unnumberedAll_eq_map,
        Param.unnumberedAll_eq_map, hps, hb]
    rw [hw.2.places.kind_eq (fun k => k.isMark .equal || k.isMark .leftBrace) fun _ => rfl]
    refine ite Iff.rfl (fun _ => ?_) fun _ => ?_
    · exact next (body g hw.2) fun b b' x x' _ _ hx => hmade hx.1 hx.2
    · rw [pure_bind, pure_bind]
      exact hmade rfl hw.2
  refine ite (by rw [heq]) (fun hless => ?_) fun _ => hrest h
  rw [hcursor] at hless
  exact next (skipTypeParameters hs.places hk hless hcursor hcursor' h.skipped)
    fun _ _ w w' _ _ hw => hrest hw.2

theorem propertyName : Confined (propertyName g) := by
  intro may base F s s' hs
  by_cases hk : s.cursor.kind.isUnbracketed = true
  · refine cursor_next ?_
    extract_lets behind behind'
    have hbehind : (behind'.isMark .dot || behind'.isMark .less)
        = (behind.isMark .dot || behind.isMark .less) :=
      hs.places.kindAt_one_eq hk (fun k => k.isMark .dot || k.isMark .less) rfl
    refine ite (by rw [hbehind]) (fun _ => ?_) fun _ => ?_
    · refine next (typeRef g hg.type hs) fun head head' t t' _ _ ht => ?_
      obtain rfl := ht.1.eq
      refine next (eat ht.2 rfl) fun dotted dotted' u u' _ _ hu => ?_
      obtain rfl := hu.1.eq
      refine ite Iff.rfl (fun _ => ?_) fun _ => ?_
      · refine next (expectName hu.2) fun named named' v v' _ _ hv => ?_
        obtain rfl := hv.1.eq
        exact done ⟨rfl, hv.2⟩
      · split
        · exact lastSpan_next hu.2 fun last => done ⟨rfl, hu.2⟩
        · exact fail hu.2
    · refine next (expectName hs) fun named named' v v' _ _ hv => ?_
      obtain rfl := hv.1.eq
      exact done ⟨rfl, hv.2⟩
  · -- A bracket, or the end, begins no name, and no line break does.
    have hnone {k : TokenKind} (h : ¬k.isUnbracketed = true ∨ k = .newline) :
        k.asName? = none ∧ k.isMark .star = false := by
      rcases h with h | rfl
      · refine ⟨?_, Bool.eq_false_iff.2 fun hstar => h (TokenKind.isUnbracketed_of_isMark hstar rfl)⟩
        cases hname : k.asName? with
        | none => rfl
        | some n => exact absurd (TokenKind.isUnbracketed_of_asName? hname) h
      · exact ⟨rfl, rfl⟩
    have hk' : ¬s'.cursor.kind.isUnbracketed = true ∨ s'.cursor.kind = .newline := by
      rcases hs.places.kind_cases with h | ⟨-, -, h, -⟩
      · exact Or.inl (by rwa [h])
      · exact Or.inr h
    obtain ⟨t, ht, hskipped⟩ := propertyName_failed g (hnone (Or.inl hk)).1 (hnone (Or.inl hk)).2
    obtain ⟨t', ht', hskipped'⟩ := propertyName_failed g (hnone hk').1 (hnone hk').2
    unfold Concurs
    rw [ht, ht']
    exact Or.inr (by rw [hskipped', hskipped, hs.skipped])

theorem getter : Local (getter g) := by
  intro base F s s' hs
  have hnone {t t' : ParseState} (ht : F.Aligned base t t') : Concurs F.IsLine base (Read F base)
      (pure Body.absent : Parser Body) (pure Body.absent) t t' := done ⟨rfl, ht⟩
  refine cursor_next ?_
  rcases hs.places.pastNewlines with hplaces | ⟨-, heof, hstops⟩
  · obtain ⟨heq, hmove⟩ := hplaces.isGetter
    refine ite (by rw [heq]) (fun hgetter => ?_) fun _ => hnone hs
    refine moveTo_next (hmove hgetter) hs.skipped fun t t' ht => ?_
    exact next (typeMark g ht) fun _ _ u u' _ _ hu => body g hu.2
  · have hnot {c : Cursor} (h : c.kind.isName "get" = false) : ¬isGetter c = true := by
      simp [isGetter, h]
    have hget : s'.cursor.pastNewlines.kind.isName "get" = false := by
      cases hk : s'.cursor.pastNewlines.kind with
      | name n => rwa [hk] at hstops
      | _ => rfl
    rw [if_neg (hnot (by rw [heof]; rfl)), if_neg (hnot hget)]
    exact hnone hs

theorem valDecl (hs : F.Aligned base s s') (hk : s.cursor.kind.isUnbracketed = true) :
    Concurs F.IsLine base (Read F base) (valDecl g) (valDecl g) s s' := by
  refine next (advance hs hk) fun keyword keyword' t t' _ _ ht => ?_
  obtain rfl := ht.1.eq
  refine next (propertyName g ht.2) fun named named' u u' _ _ hu => ?_
  obtain rfl := hu.1.eq
  refine next (typeMark g hu.2) fun type type' v v' _ _ hv => ?_
  obtain rfl := hv.1.eq
  refine next (initializer g hv.2) fun init init' w w' _ _ hw => ?_
  refine next (getter g hw.2) fun b b' x x' _ _ hx => ?_
  refine next (newDecl hx.2) fun d d' y y' _ _ hy => lastSpan_next hy fun last => done ⟨?_, hy⟩
  have hb : b'.unnumbered = b.unnumbered := hx.1
  show ValDecl.unnumbered _ = ValDecl.unnumbered _
  rw [ValDecl.unnumbered, ValDecl.unnumbered, Expr.unnumbered?_eq_map, Expr.unnumbered?_eq_map,
    hw.1.expr?, hb]

/-! ## Statements -/

theorem returned (hs : F.Aligned base s s') (hk : s.cursor.kind.isUnbracketed = true) :
    Concurs F.IsLine base (Read F base) (returned g) (returned g) s s' := by
  refine next (advance hs hk) fun start start' t t' _ _ ht => ?_
  obtain rfl := ht.1.eq
  refine kind_next ?_
  rw [ht.2.places.kind_eq TokenKind.endsStatement fun _ => rfl]
  extract_lets made
  have hmade {e e'} (he : Erasable.Alike e e') {t t'} (ht : F.Aligned base t t') :
      Concurs F.IsLine base (Read F base) (made e) (made e') t t' := by
    refine lastSpan_next ht fun last => done ⟨?_, ht⟩
    show Stmt.unnumbered _ = Stmt.unnumbered _
    rw [Stmt.unnumbered, Stmt.unnumbered, Expr.unnumbered?_eq_map, Expr.unnumbered?_eq_map, he.expr?]
  refine ite Iff.rfl (fun _ => ?_) fun _ => ?_
  · rw [pure_bind]
    exact hmade rfl ht.2
  · exact next (some (expression g ht.2)) fun e e' u u' _ _ hu => hmade hu.1 hu.2

theorem assignment : Local (assignment g) := by
  intro base F s s' hs
  refine next (expression g hs) fun target target' t t' _ _ ht => ?_
  refine next (eat ht.2 rfl) fun assigned assigned' u u' _ _ hu => ?_
  obtain rfl := hu.1.eq
  refine ite Iff.rfl (fun _ => ?_) fun _ => done ⟨?_, hu.2⟩
  · refine skipNewlines_next hu.2 (fun v v' hv => ?_)
      fun hline => ⟨hline, (Refuses.expression rfl g).next⟩
    refine next (expression g hv) fun value value' w w' _ _ hw => done ⟨?_, hw.2⟩
    show Stmt.unnumbered _ = Stmt.unnumbered _
    rw [Stmt.unnumbered, Stmt.unnumbered, ht.1.expr, hw.1.expr, ht.1.span_eq, hw.1.span_eq]
  · show Stmt.unnumbered _ = Stmt.unnumbered _
    rw [Stmt.unnumbered, Stmt.unnumbered, ht.1.expr]

theorem statement : Local (statement g) := by
  intro base F s s' hs
  have hdeclared (hk : s.cursor.kind.isUnbracketed = true) :
      Concurs F.IsLine base (Read F base) (Parser.valDecl g >>= fun v =>
        if v.receiver.isSome then pure (Stmt.function v.getterFunction) else pure (Stmt.val v))
        (Parser.valDecl g >>= fun v =>
        if v.receiver.isSome then pure (Stmt.function v.getterFunction)
        else pure (Stmt.val v)) s s' := by
    refine next (valDecl g hs hk) fun v v' t t' _ _ hv => ?_
    obtain ⟨hreceiver, hgetter⟩ := hv.1.getterFunction
    refine ite (by rw [hreceiver]) (fun _ => done ⟨?_, hv.2⟩) fun _ => done ⟨?_, hv.2⟩
    · show Stmt.unnumbered _ = Stmt.unnumbered _
      rw [Stmt.unnumbered, Stmt.unnumbered, hgetter]
    · have hv : v'.unnumbered = v.unnumbered := hv.1
      show Stmt.unnumbered _ = Stmt.unnumbered _
      rw [Stmt.unnumbered, Stmt.unnumbered, hv]
  refine kind_next ?_
  rcases hs.places.kind_cases with hk | ⟨-, heof, hline, -⟩
  · rw [hk]
    split
    · next hval => exact hdeclared (by rw [hval]; rfl)
    · next hvar => exact hdeclared (by rw [hvar]; rfl)
    · next hfun =>
      refine map (funDecl g hs (by rw [hfun]; rfl)) fun f f' t t' hf => ⟨?_, hf.2⟩
      have hf : f'.unnumbered = f.unnumbered := hf.1
      show Stmt.unnumbered _ = Stmt.unnumbered _
      rw [Stmt.unnumbered, Stmt.unnumbered, hf]
    · next hreturn => exact returned g hs (by rw [hreturn]; rfl)
    · exact assignment g hs
  · rw [heof, hline]
    exact assignment g hs

omit hg hforward in
theorem statementEnd (hs : F.Aligned base s s') (hF : ¬F.IsLine) :
    Concurs may base (Read F base) statementEnd statementEnd s s' := by
  refine kind_next ?_
  rw [hs.places.kind_eq_of_not_line hF]
  refine ite Iff.rfl (fun hseparator => ?_) fun _ => ?_
  · have hplain := Frontier.Places.isUnbracketed_of_isSeparator _ hseparator
    exact next (advance hs hplain) fun _ _ t t' _ _ ht => done ⟨rfl, ht.2⟩
  · exact ite Iff.rfl (fun _ => done ⟨rfl, hs⟩) fun _ => fail hs

omit hg hforward in
theorem declared {make : DeclId → ValDecl}
    (hmake : ∀ d d', (make d').unnumbered = (make d).unnumbered)
    (hskipped : s'.skipped = s.skipped ++ base) :
    Concurs may base (fun a b t t' => Erasable.Alike a b ∧ t'.skipped = t.skipped ++ base)
      (Parser.newDecl >>= fun d => pure (Option.some (make d)))
      (Parser.newDecl >>= fun d => pure (Option.some (make d))) s s' :=
  ⟨congrArg Option.some (hmake _ _), hskipped⟩

/-- What a `val` declares that did not parse is read alike, wherever the attempts stopped. -/
theorem unparsedVal {c c' : Cursor} (h : F.Places c c') (hF : ¬F.IsLine)
    (hskipped : s'.skipped = s.skipped ++ base) :
    Concurs False base (fun a b t t' => Erasable.Alike a b ∧ t'.skipped = t.skipped ++ base)
      (unparsedVal g c) (unparsedVal g c') s s' := by
  have hvar := h.kind_eq (TokenKind.isKeyword .varKw) fun _ => rfl
  have hval := h.kind_eq (TokenKind.isKeyword .valKw) fun _ => rfl
  cases hk : c.kind.isKeyword .valKw || c.kind.isKeyword .varKw with
  | false =>
    rw [unparsedVal_eq_none g hk, unparsedVal_eq_none g (by rw [hval, hvar, hk])]
    exact done ⟨rfl, hskipped⟩
  | true =>
    have hplain : c.kind.isUnbracketed = true :=
      (Bool.or_eq_true_iff.1 hk).elim Token.isUnbracketed_of_isKeyword Token.isUnbracketed_of_isKeyword
    have hhere := h.here_eq (TokenKind.isUnbracketed_iff.1 hplain).2
    have hnil := h.ahead_eq_nil_iff hplain
    have hplaces := h.advance hplain
    obtain ⟨here, ahead, last⟩ := c
    obtain ⟨here', ahead', last'⟩ := c'
    obtain rfl : here' = here := hhere
    cases ahead with
    | nil =>
      obtain rfl : ahead' = [] := hnil.2 rfl
      exact done ⟨rfl, hskipped⟩
    | cons token rest =>
      cases ahead' with
      | nil => exact absurd (hnil.1 rfl) (List.cons_ne_nil _ _)
      | cons token' rest' =>
        have hkind : token'.kind = token.kind := hplaces.kind_eq_of_not_line hF
        unfold Parser.unparsedVal
        dsimp only [Cursor.kind] at hk ⊢
        rw [hk, hkind]
        cases hname : token.kind with
        | name name =>
          dsimp only
          have hplain' : token.kind.isUnbracketed = true := by rw [hname]; rfl
          obtain rfl : token' = token := hplaces.here_eq (TokenKind.isUnbracketed_iff.1 hplain').2
          have hbehind (m : Mark) : (rest'.head?.map Token.kind).any (TokenKind.isMark m)
              = (rest.head?.map Token.kind).any (TokenKind.isMark m) := by
            rw [List.head?_eq_getElem?, List.head?_eq_getElem?]
            exact @Frontier.Places.any_kindAt?_one _ _ _ hplaces hplain' (TokenKind.isMark m) rfl
          rw [hbehind, hbehind, hbehind]
          refine ite Iff.rfl (fun _ => done ⟨rfl, hskipped⟩) fun _ => ?_
          refine ite Iff.rfl (fun hcolon => ?_) fun _ => ?_
          · have hnext : F.Places (Cursor.mk here' (token' :: rest) last).advance.advance.advance
                (Cursor.mk here' (token' :: rest') last').advance.advance.advance := by
              refine (hplaces.advance hplain').advance ?_
              cases rest with
              | nil => exact nomatch hcolon
              | cons u rest => exact TokenKind.isUnbracketed_of_isMark hcolon rfl
            refine moveTo_next hnext hskipped fun t t' ht => ?_
            refine attempt_next (typeRef g hg.type ht) (fun type type' u u' _ hu => ?_)
              fun u u' hu => ?_
            · obtain rfl := hu.1.eq
              exact declared (fun _ _ => rfl) hu.2.skipped
            · exact declared (fun _ _ => rfl) hu
          · rw [pure_bind]
            exact declared (fun _ _ => rfl) hskipped
        | _ => exact done ⟨rfl, hskipped⟩

/-- A statement that did not parse is skipped in both runs, with what it declares. -/
theorem skippedStatement {stmts stmts' : List Stmt} (hstmts : Erasable.Alike stmts stmts')
    {c c' : Cursor} (h : F₁.Places c c') (hin : F₁.Inside .rightBrace F)
    (hc : Token.Ends c.rest → c.kind.endsStatement = false)
    (hskipped : s'.skipped = s.skipped ++ base) :
    Concurs may base (RoundPost F₁ base (Read F base (α := List Stmt)))
      (Parser.unparsedVal g c >>= fun d => skipUnparsed c >>= fun _ =>
        pure (.next (stmts ++ (d.map Stmt.val).toList)))
      (Parser.unparsedVal g c' >>= fun d => skipUnparsed c' >>= fun _ =>
        pure (.next (stmts' ++ (d.map Stmt.val).toList))) s s' := by
  refine next ((unparsedVal g h hin.not_line hskipped).weaken False.elim)
    fun d d' t t' _ _ ht => ?_
  obtain ⟨hplaces, hspan⟩ := h.skipStop hin hc
  unfold Concurs
  rw [bind_of_done (skipUnparsed_eq c t), bind_of_done (skipUnparsed_eq c' t')]
  refine ⟨?_, hplaces, ?_⟩
  · rcases d with _ | d <;> rcases d' with _ | d'
    · simpa using hstmts
    · cases ht.1
    · cases ht.1
    · have hd : d'.unnumbered = d.unnumbered := Option.some.inj ht.1
      refine hstmts.append ?_
      show Stmt.unnumbered _ = Stmt.unnumbered _
      rw [Stmt.unnumbered, Stmt.unnumbered, hd]
  · show skipSpan c' :: t'.skipped = _
    rw [hspan, ht.2]
    rfl

/-- The statements of a block are read alike, up to the brace that closes it. -/
theorem statements (hs : F₁.Aligned base s s') (hin : F₁.Inside .rightBrace F) :
    Concurs may base (Read F base) (statements g) (statements g) s s' := by
  rw [statements_eq_loop]
  refine loop (fun stmts stmts' s s' hstmts hs => ?_) (Progresses.statements g) rfl hs
  refine next (skipSeparators hs hin.not_line) fun _ _ t t' _ _ ht => ?_
  obtain ⟨hcursor, ht⟩ := ht
  refine next (eatClosing ht hin) fun closed closed' u u' hd _ hu => ?_
  obtain ⟨rfl, hu⟩ := hu
  refine ite Iff.rfl (fun hclosed => ?_) fun hclosed => ?_
  · rw [if_pos hclosed] at hu
    exact done ⟨hstmts, hu⟩
  rw [if_neg hclosed] at hu
  obtain ⟨rfl, hu⟩ := hu
  refine kind_next ?_
  rw [hu.places.kind_eq_of_not_line hin.not_line]
  refine ite Iff.rfl (fun _ => next (Q := Read F base) (fail hu) fun _ _ _ _ hd => nomatch hd)
    fun heof => ?_
  have hstarts (hends : Token.Ends u.cursor.rest) : u.cursor.kind.endsStatement = false := by
    have hseparator : u.cursor.kind.isSeparator = false := by
      rw [hcursor] at hends ⊢
      exact Cursor.kind_skipWhile rfl hends
    have hbrace : u.cursor.kind.isMark .rightBrace = false := by
      refine Bool.eq_false_iff.2 fun hbrace => hclosed ?_
      have heat : Parser.eat .rightBrace u = .done true { u with cursor := u.cursor.advance } :=
        if_pos hbrace
      rw [heat] at hd
      exact (Outcome.done.inj hd).1.symm
    simp [TokenKind.endsStatement, hseparator, hbrace, heof]
  refine cursor_next (attempt_next (Q := Read F₁ base) ?_ ?_ ?_)
  · refine next ((statement g).inside hu hin) fun stmt stmt' v v' _ _ hv => ?_
    exact next (statementEnd hv.2 hin.not_line) fun _ _ w w' _ _ hw => done ⟨hv.1, hw.2⟩
  · exact fun stmt stmt' v v' _ hv => done ⟨hstmts.append hv.1, hv.2⟩
  · exact fun v v' hv => skippedStatement g hstmts hu.places hin hstarts hv

end

end Concurs

instance local_ofDepth (n : Nat) : (Grammar.ofDepth n).Local := by
  induction n with
  | zero =>
    exact ⟨fun _ _ _ _ _ h => Concurs.fail h, fun _ _ _ _ h => Concurs.fail h, fun _ _ => rfl,
      fun h _ => Concurs.fail h⟩
  | succ n ih =>
    exact ⟨Concurs.typeRef _ ih.type, Concurs.expression _, Refuses.expression rfl _,
      fun h hin => Concurs.statements _ h hin⟩

end Parser

end FrameCheck
