import FrameCheck.Proofs.Parse.Concurring

/-!
# Types before a frontier

Types are read without looking past a line break. So whatever stands behind the frontier, both runs
read the same type or fail. That also decides in both runs alike whether an angle bracket opens type
arguments.

* `Concurs.typeRef`, `Concurs.callTypeArgs` : types, and the type arguments of a call.
-/

namespace FrameCheck

namespace Frontier.Places

variable {F : Frontier} {c c' : Cursor}

/-- The token behind one that is no bracket. -/
theorem kindAt_one_eq {γ : Sort*} (h : F.Places c c') (hk : c.kind.isUnbracketed = true)
    (f : TokenKind → γ) (hf : f .newline = f .eof) : f (c'.kindAt 1) = f (c.kindAt 1) := by
  rw [Cursor.kindAt_succ, Cursor.kindAt_succ]
  exact (h.advance hk).kind_eq f fun _ => hf

theorem name_behind_eq (h : F.Places c c') {test : TokenKind → Bool}
    (htest : ∀ k, test k = true → k.isUnbracketed = true) (hline : test .newline = false) :
    (test c'.kind && (c'.kindAt 1).plainName?.isSome)
      = (test c.kind && (c.kindAt 1).plainName?.isSome) := by
  have heof : test .eof = false := Bool.eq_false_iff.2 fun he => nomatch htest _ he
  rw [h.kind_eq test fun _ => hline.trans heof.symm]
  cases hk : test c.kind with
  | false => rfl
  | true => rw [h.kindAt_one_eq (htest _ hk) (fun k => k.plainName?.isSome) rfl]

/-- Whether a dot goes on with a segment of a type. -/
theorem segment_eq (h : F.Places c c') :
    (c'.kind.isMark .dot && (c'.kindAt 1).plainName?.isSome && !(c'.kindAt 2).isMark .leftParen)
      = (c.kind.isMark .dot && (c.kindAt 1).plainName?.isSome
          && !(c.kindAt 2).isMark .leftParen) := by
  rw [h.name_behind_eq (fun k hk => TokenKind.isUnbracketed_of_isMark hk rfl) rfl]
  cases hn : c.kind.isMark .dot && (c.kindAt 1).plainName?.isSome with
  | false => rfl
  | true =>
    obtain ⟨hdot, hname⟩ := Bool.and_eq_true_iff.1 hn
    rw [Cursor.kindAt_succ] at hname
    rw [Cursor.kindAt_succ c', Cursor.kindAt_succ c,
      (h.advance (TokenKind.isUnbracketed_of_isMark hdot rfl)).kindAt_one_eq
        (TokenKind.isUnbracketed_of_plainName? hname) (TokenKind.isMark .leftParen) rfl]

end Frontier.Places

namespace Parser

/-- The parser does not look past the tokens before a frontier. -/
def Confined {α : Type} [Erasable α] (p : Parser α) : Prop :=
  ∀ ⦃may base F s s'⦄, F.Aligned base s s' → Concurs may base (Read F base) p p s s'

namespace Concurs

variable {may : Prop} {base : List Span} {F : Frontier} {s s' : ParseState}

theorem typeSegments (n : String) : Confined (typeSegments n) := by
  intro may base F s s' h
  refine loop (fun n n' s s' hn h => ?_) (fun n => .cursor_next fun d => ?_) rfl h
  · obtain rfl := hn.eq
    refine cursor_next (ite (by rw [h.places.segment_eq]) (fun hcond => ?_) fun _ => done ⟨rfl, h⟩)
    have hdot := (Bool.and_eq_true_iff.1 (Bool.and_eq_true_iff.1 hcond).1).1
    refine next (advance h (TokenKind.isUnbracketed_of_isMark hdot rfl)) fun _ _ t t' _ _ ht => ?_
    refine next (expectName ht.2) fun name name' u u' _ _ hu => ?_
    obtain rfl := hu.1.eq
    exact done ⟨rfl, hu.2⟩
  · split
    · next hcond =>
      have hdot := (Bool.and_eq_true_iff.1 (Bool.and_eq_true_iff.1 hcond).1).1
      exact (ConsumesAt.advance (TokenKind.isEof_of_isMark hdot)).next
    · exact (Progresses.stop _).at

theorem skipVariance : Confined skipVariance := by
  intro may base F s s' h
  have htest : ∀ k : TokenKind, (k.isName "out" || k.isName "in") = true → k.isUnbracketed = true :=
    fun k hk => (Bool.or_eq_true_iff.1 hk).elim TokenKind.isUnbracketed_of_isName
      TokenKind.isUnbracketed_of_isName
  refine cursor_next (ite (by rw [h.places.name_behind_eq htest rfl]) (fun hcond => ?_)
    fun _ => done ⟨rfl, h⟩)
  have hvariance := htest _ (Bool.and_eq_true_iff.1 hcond).1
  exact next (advance h hvariance) fun _ _ t t' _ _ ht => done ⟨rfl, ht.2⟩

section

variable (g : Grammar) [g.Forward] (hg : Confined g.type)

include hg

theorem typeArgs : Confined (typeArgs g) := by
  intro may base F s s' h
  rw [typeArgs_eq_loop]
  refine next (R := Read F base) (Q := Read F base) (loop (fun args args' s s' hargs h => ?_)
    (Progresses.typeArgs g) rfl h) fun args args' t t' _ _ ht => ?_
  · refine next (skipVariance h) fun _ _ t t' _ _ ht => ?_
    refine next (hg ht.2) fun type type' u u' _ _ hu => ?_
    refine next (eat hu.2 rfl) fun more more' v v' _ _ hv => ?_
    obtain rfl := hv.1.eq
    have hargs := hargs.append hu.1
    exact ite Iff.rfl (fun _ => done ⟨hargs, hv.2⟩) fun _ => done ⟨hargs, hv.2⟩
  · exact next (expect ht.2 rfl) fun _ _ u u' _ _ hu => done ⟨ht.1, hu.2⟩

theorem typeRef : Confined (typeRef g) := by
  intro may base F s s' h
  refine next (eat h rfl) fun star star' t t' _ _ ht => ?_
  obtain rfl := ht.1.eq
  refine ite Iff.rfl (fun _ => done ⟨rfl, ht.2⟩) fun _ => ?_
  refine next (expectName ht.2) fun first first' u u' _ _ hu => ?_
  obtain rfl := hu.1.eq
  refine next (typeSegments _ hu.2) fun name name' v v' _ _ hv => ?_
  obtain rfl := hv.1.eq
  refine next (eat hv.2 rfl) fun more more' w w' _ _ hw => ?_
  obtain rfl := hw.1.eq
  have hmade (args t t') (ht : F.Aligned base t t') : Concurs may base (Read F base)
      (Parser.eat .question >>= fun nullable => pure (TypeRef.mk name' args nullable))
      (Parser.eat .question >>= fun nullable => pure (TypeRef.mk name' args nullable)) t t' := by
    refine next (eat ht rfl) fun nullable nullable' u u' _ _ hu => ?_
    obtain rfl := hu.1.eq
    exact done ⟨rfl, hu.2⟩
  refine ite Iff.rfl (fun _ => ?_) fun _ => hmade [] w w' hw.2
  refine next (typeArgs g hg hw.2) fun args args' x x' _ _ hx => ?_
  obtain rfl := hx.1.eq
  exact hmade args' x x' hx.2

/-- In both runs an angle bracket opens type arguments, or it is put back. -/
theorem callTypeArgs (h : F.Aligned base s s') (hk : s.cursor.kind.isMark .less = true) :
    Concurs may base (Read F base) (callTypeArgs g) (callTypeArgs g) s s' := by
  rw [callTypeArgs_eq_loop]
  refine cursor_next (attempt_next (Q := Read F base) ?_ ?_ ?_)
  · refine next (advance h (TokenKind.isUnbracketed_of_isMark hk rfl)) fun _ _ t t' _ _ ht => ?_
    refine loop (fun args args' s s' hargs h => ?_) (Progresses.callTypeArgs g) rfl ht.2
    refine next (typeRef g hg h) fun type type' t t' _ _ ht => ?_
    refine next (eat ht.2 rfl) fun more more' u u' _ _ hu => ?_
    obtain rfl := hu.1.eq
    have hargs := hargs.append ht.1
    refine ite Iff.rfl (fun _ => done ⟨hargs, hu.2⟩) fun _ => ?_
    refine next (expect hu.2 rfl) fun _ _ v v' _ _ hv => kind_next ?_
    have hcall :=
      hv.2.places.kind_eq (fun k => k.isMark .leftParen || k.isMark .leftBrace) fun _ => rfl
    exact ite (by rw [hcall]) (fun _ => done ⟨hargs, hv.2⟩) fun _ => fail hv.2
  · exact fun args args' t t' _ ht => done ⟨congrArg some ht.1, ht.2⟩
  · exact fun t t' ht => moveTo_next h.places ht fun u u' hu => done ⟨rfl, hu⟩

end

end Concurs

end Parser

end FrameCheck
