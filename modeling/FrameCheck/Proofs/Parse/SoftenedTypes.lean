import FrameCheck.Proofs.Parse.Rounds
import FrameCheck.Proofs.Parse.Softening

namespace FrameCheck

namespace Parser

open Named

variable {σ : Softening} {α β τ : Type} [Named α] [Named β] [Named τ]

/-! ## Parsers that lag behind -/

/-- After the replacement the parser does the same, or it has stopped early: then what was read has
the name in a place where no soft keyword does, and it stands as `S` says. -/
def Lags (σ : Softening) (S : α → TokenKind → Prop) (p p' : Parser α) (s : ParseState) : Prop :=
  ∀ s', s.Softens σ s' → match p s, p' s' with
    | .done a t, .done b t' => (Same σ a b ∧ t.Softens σ t') ∨ (¬Clean σ a ∧ S b t'.cursor.kind)
    | .done a _, .failed _ => ¬Clean σ a
    | .failed _, .done b t' => S b t'.cursor.kind
    | .failed _, .failed _ => True

/-- From a place as `S` says the parser goes to one as `S'` says, if it does not fail. -/
def Stuck (S : TokenKind → Prop) (S' : β → TokenKind → Prop) (p : Parser β) : Prop :=
  ∀ s, S s.cursor.kind → match p s with
    | .done b t => S' b t.cursor.kind
    | .failed _ => True

/-- What the parser returns has the name in a place where no soft keyword does. -/
def Spoils (σ : Softening) (p : Parser α) : Prop := ∀ s a t, p s = .done a t → ¬Clean σ a

namespace Spoils

variable {p q : Parser α} {f : α → Parser β}

omit [Named α] in
theorem next (hf : ∀ a, Spoils σ (f a)) : Spoils σ (p >>= f) := by
  intro s b u hd
  obtain ⟨a, t, -, hd⟩ := bind_eq_done.1 hd
  exact hf a t b u hd

theorem done {a : α} (h : ¬Clean σ a) : Spoils σ (pure a) := by
  intro s b t hd
  cases hd
  exact h

theorem fail : Spoils σ (Parser.fail : Parser α) := fun _ _ _ hd => nomatch hd

theorem ite {c : Prop} [Decidable c] (h : Spoils σ p) (h' : Spoils σ q) :
    Spoils σ (if c then p else q) := by
  split
  · exact h
  · exact h'

end Spoils

namespace Lags

variable {S : α → TokenKind → Prop} {S' : β → TokenKind → Prop} {p p' : Parser α}
  {f f' : α → Parser β} {s : ParseState}

theorem fail : Lags σ S (Parser.fail : Parser α) Parser.fail s := fun _ _ => trivial

theorem done {a b : α} (h : Same σ a b) : Lags σ S (pure a) (pure b) s :=
  fun _ hs' => Or.inl ⟨h, hs'⟩

theorem ite {c c' : Prop} [Decidable c] [Decidable c'] {q q' : Parser α} (hc : c' ↔ c)
    (h : c → Lags σ S p p' s) (h' : ¬c → Lags σ S q q' s) :
    Lags σ S (if c then p else q) (if c' then p' else q') s :=
  rel_ite (R := fun p p' => Lags σ S p p' s) hc h h'

/-- A parser that may lag behind, and then one that goes on. -/
theorem next (hp : Lags σ S p p' s)
    (hf : ∀ a b t, p s = .done a t → Same σ a b → Lags σ S' (f a) (f' b) t)
    (hspoils : ∀ a, ¬Clean σ a → Spoils σ (f a)) (hstuck : ∀ b, Stuck (S b) S' (f' b)) :
    Lags σ S' (p >>= f) (p' >>= f') s := by
  intro s' hs'
  have hboth := hp s' hs'
  cases hd : p s with
  | done a t =>
    rw [hd] at hboth
    have hdirty (h : ¬Clean σ a) : match f a t with
        | .done c _ => ¬Clean σ c
        | .failed _ => True := by
      cases hfa : f a t with
      | done c u => exact hspoils a h t c u hfa
      | failed u => trivial
    rw [bind_of_done hd]
    cases hd' : p' s' with
    | done b t' =>
      rw [hd'] at hboth
      rw [bind_of_done hd']
      rcases hboth with ⟨hab, ht'⟩ | ⟨hclean, hS⟩
      · exact hf a b t hd hab t' ht'
      · have hstop := hstuck b t' hS
        have hdirty := hdirty hclean
        cases hfa : f a t <;> cases hfb : f' b t' <;> rw [hfa] at hdirty <;> rw [hfb] at hstop
        · exact Or.inr ⟨hdirty, hstop⟩
        · exact hdirty
        · exact hstop
        · trivial
    | failed t' =>
      rw [hd'] at hboth
      rw [bind_of_failed hd']
      have hdirty := hdirty hboth
      cases hfa : f a t <;> rw [hfa] at hdirty
      · exact hdirty
      · trivial
  | failed t =>
    rw [hd] at hboth
    rw [bind_of_failed hd]
    cases hd' : p' s' with
    | done b t' =>
      rw [hd'] at hboth
      rw [bind_of_done hd']
      have hstop := hstuck b t' hboth
      cases hfb : f' b t' <;> rw [hfb] at hstop
      · exact hstop
      · trivial
    | failed t' =>
      rw [bind_of_failed hd']
      trivial

/-- A parser that cannot tell, and then one that may lag behind. -/
theorem after (hp : Exact σ p p' s)
    (hf : ∀ a b t, p s = .done a t → Same σ a b → Lags σ S' (f a) (f' b) t) :
    Lags σ S' (p >>= f) (p' >>= f') s := by
  intro s' hs'
  have hboth := hp s' hs'
  cases hd : p s <;> cases hd' : p' s' <;> rw [hd, hd'] at hboth
  case done.done a t b t' =>
    rw [bind_of_done hd, bind_of_done hd']
    exact hf a b t hd hboth.1 t' hboth.2
  case failed.failed t t' =>
    rw [bind_of_failed hd, bind_of_failed hd']
    trivial
  all_goals exact hboth.elim

theorem newDecl_next {f f' : DeclId → Parser β}
    (hf : ∀ d d' t, t.cursor = s.cursor → Lags σ S' (f d) (f' d') t) :
    Lags σ S' (Parser.newDecl >>= f) (Parser.newDecl >>= f') s := fun s' hs' =>
  hf s.nextDecl s'.nextDecl { s with nextDecl := s.nextDecl + 1 } rfl
    { s' with nextDecl := s'.nextDecl + 1 } ⟨hs'.suited, hs'.cursor, hs'.skipped⟩

/-- A round that lags behind is the last one. -/
def LastRound (S : β → TokenKind → Prop) : Round τ β → TokenKind → Prop
  | .next _, _ => False
  | .stop b, k => S b k

theorem spoils_rounds {step : τ → Parser (Round τ β)}
    (h : ∀ a, ¬Clean σ a → Spoils σ (step a)) :
    ∀ n a, ¬Clean σ a → Spoils σ (rounds step n a)
  | 0, _, _, _, _, _, hd => nomatch hd
  | n + 1, a, ha, s, b, u, hd => by
    obtain ⟨round, t, hround, hd⟩ := bind_eq_done.1 hd
    have hdirty := h a ha s round t hround
    cases round with
    | next c => exact spoils_rounds h n c hdirty t b u hd
    | stop c =>
      cases hd
      exact hdirty

/-- A loop from states as `I` says. -/
theorem rounds {I : ParseState → Prop} {step step' : τ → Parser (Round τ β)}
    (h : ∀ a b s, I s → Same σ a b → Lags σ (LastRound S') (step a) (step' b) s)
    (hI : ∀ a c s t, I s → step a s = .done (.next c) t → I t)
    (hspoils : ∀ a, ¬Clean σ a → Spoils σ (step a)) :
    ∀ n a b s, I s → Same σ a b → Lags σ S' (rounds step n a) (rounds step' n b) s
  | 0, _, _, _, _, _ => fail
  | n + 1, a, b, s, hs, hab => by
    refine next (h a b s hs hab) (fun round round' t hround hsame => ?_) (fun round hround => ?_)
      fun round => ?_
    · cases round <;> cases round'
      case next.next c d => exact rounds h hI hspoils n c d t (hI a c s t hs hround) (Round.next.inj hsame)
      case stop.stop c d => exact done (Round.stop.inj hsame)
      all_goals exact nomatch hsame
    · cases round with
      | next c => exact spoils_rounds hspoils n c hround
      | stop c => exact .done hround
    · cases round with
      | next c => exact fun _ h => h.elim
      | stop c => exact fun _ h => h

theorem loop {I : ParseState → Prop} {step step' : τ → Parser (Round τ β)}
    (h : ∀ a b s, I s → Same σ a b → Lags σ (LastRound S') (step a) (step' b) s)
    (hI : ∀ a c s t, I s → step a s = .done (.next c) t → I t)
    (hspoils : ∀ a, ¬Clean σ a → Spoils σ (step a)) {a b : τ} (hs : I s) (hab : Same σ a b) :
    Lags σ S' (loop step a) (loop step' b) s := by
  intro s' hs'
  have hn : s'.cursor.ahead.length = s.cursor.ahead.length := by
    rw [hs'.cursor, Cursor.length_ahead_soften]
  unfold Parser.loop
  rw [hn]
  exact rounds h hI hspoils _ a b s hs hab s' hs'

/-- What is read with the name in no place that matters is read after the replacement. -/
theorem carries [hsteady : Steady p] [hp : Forward p] (h : Lags σ S p p' s) :
    Carries σ True p p' s := by
  intro hs a t hd
  refine ⟨hs.of_suffix (hp.reaches_of_done hd).rest_suffix, fun hskipped hclean => ⟨?_, trivial, ?_⟩⟩
  · have hsame := hsteady.skipped_eq s
    rw [hd] at hsame
    exact hsame.symm.trans hskipped
  · intro s' hs'
    have hboth := h s' hs'
    rw [hd] at hboth
    cases hd' : p' s' with
    | failed t' =>
      rw [hd'] at hboth
      exact absurd hclean hboth
    | done b t' =>
      rw [hd'] at hboth
      rcases hboth with hboth | ⟨hdirty, -⟩
      · exact ⟨b, t', rfl, hboth⟩
      · exact absurd hclean hdirty

end Lags

/-! ## Types -/

section

variable {α β : Type}

/-- After a segment the parser may stand on the dot behind it. -/
def AtDot (_ : α) (k : TokenKind) : Prop := k.isMark .dot = true

namespace Stuck

variable {S : β → TokenKind → Prop}

theorem done {S' : TokenKind → Prop} {b : β} (h : ∀ k, S' k → S b k) : Stuck S' S (pure b) :=
  fun _ hs => h _ hs

variable {m : Mark} {a : α}

theorem isMark (hm : m ≠ .dot) {k : TokenKind} (h : AtDot a k) : k.isMark m ≠ true := by
  cases k with
  | mark n =>
    obtain rfl : n = .dot := beq_iff_eq.1 h
    exact fun hdot => hm (beq_iff_eq.1 hdot).symm
  | _ => exact Bool.false_ne_true

/-- On a dot other marks are not found. -/
theorem eat (hm : m ≠ .dot) {f : Bool → Parser β} (hf : Stuck (AtDot a) S (f false)) :
    Stuck (AtDot a) S (Parser.eat m >>= f) := by
  intro s hs
  rw [bind_of_done (show Parser.eat m s = .done false s from if_neg (isMark hm hs))]
  exact hf s hs

theorem newDecl {S' : TokenKind → Prop} {f : DeclId → Parser β} (hf : ∀ d, Stuck S' S (f d)) :
    Stuck S' S (Parser.newDecl >>= f) :=
  fun s hs => hf s.nextDecl { s with nextDecl := s.nextDecl + 1 } hs

theorem expect (hm : m ≠ .dot) {f : Token → Parser β} :
    Stuck (AtDot a) S (Parser.expect m >>= f) := by
  intro s hs
  rw [bind_of_failed (show Parser.expect m s = .failed s from if_neg (isMark hm hs))]
  trivial

end Stuck

end

namespace Lags

variable {S : α → TokenKind → Prop} {S' : β → TokenKind → Prop} {s : ParseState}

theorem cursor_next {f f' : Cursor → Parser β}
    (hf : σ.Suited s.cursor.rest → Lags σ S' (f s.cursor) (f' (s.cursor.soften σ)) s) :
    Lags σ S' (Parser.cursor >>= f) (Parser.cursor >>= f') s := by
  intro s' hs'
  have h := hf hs'.suited s' hs'
  rw [← hs'.cursor] at h
  exact h

theorem of_suited {p p' : Parser α} (h : σ.Suited s.cursor.rest → Lags σ S p p' s) :
    Lags σ S p p' s := fun s' hs' => h hs'.suited s' hs'

/-- After the replacement the parser stops at once. -/
theorem stopped {p : Parser α} {b : α} (hp : ∀ a t, p s = .done a t → ¬Clean σ a)
    (hS : S b (s.cursor.kind.soften σ)) : Lags σ S p (pure b) s := by
  intro s' hs'
  have hb : S b s'.cursor.kind := by rwa [hs'.cursor, Cursor.kind_soften]
  cases hd : p s with
  | done a t => exact Or.inr ⟨hp a t hd, hb⟩
  | failed t => exact hb

omit [Named β] in
/-- After the replacement the parser fails. -/
theorem failed {p : Parser α} {f : β → Parser α} (hp : Spoils σ p) :
    Lags σ S p (Parser.fail >>= f) s := by
  intro s' _
  rw [bind_of_failed (rfl : (Parser.fail : Parser β) s' = .failed s')]
  cases hd : p s with
  | done a t => exact hp s a t hd
  | failed t => trivial

end Lags

/-- A dotted name. -/
instance : Named String where
  rename σ n := renameFirst σ.on n
  strict n := innerSegments n.toList

theorem expectName_eq_done {s t : ParseState} {n : String} {span : Span}
    (h : Parser.expectName s = .done (n, span) t) : s.cursor.kind.asName? = some n := by
  obtain ⟨token, u, hadvance, h⟩ := bind_eq_done.1 h
  cases hadvance
  show s.cursor.here.kind.asName? = _
  cases hn : s.cursor.here.kind.asName? with
  | none =>
    rw [hn] at h
    cases h
  | some m =>
    rw [hn] at h
    cases h
    rfl

/-- Names have no dots in them. -/
theorem undotted_of_expectName {s t : ParseState} {n : String} {span : Span}
    (hs : σ.Suited s.cursor.rest) (h : Parser.expectName s = .done (n, span) t) :
    '.' ∉ n.toList := by
  have hname := expectName_eq_done h
  cases hk : s.cursor.kind <;> rw [hk] at hname
  case name m =>
    obtain rfl := Option.some.inj hname
    exact hs.head.undotted m hk
  case keyword w =>
    have hlexeme (w : Keyword) : '.' ∉ w.lexeme.toList := by cases w <;> decide +kernel
    rw [TokenKind.asName?] at hname
    split at hname
    · obtain rfl := Option.some.inj hname
      exact hlexeme w
    · cases hname
  all_goals cases hname

namespace Lags

variable {s : ParseState}

theorem clean_dotted {a b : String} (h : Clean σ (a ++ "." ++ b)) :
    Clean σ a ∧ ('.' ∉ b.toList → b ≠ σ.name) := by
  have hsegments : innerSegments (a ++ "." ++ b).toList
      = innerSegments a.toList ++ String.ofList (b.toList.takeWhile (· != '.'))
        :: innerSegments b.toList := by
    rw [toList_dotted, innerSegments_dotted]
  have hnot : σ.name ∉ innerSegments (a ++ "." ++ b).toList := h
  rw [hsegments, List.mem_append, List.mem_cons, not_or, not_or] at hnot
  refine ⟨hnot.1, fun hb heq => hnot.2.1 ?_⟩
  rw [takeWhile_of_undotted hb, String.ofList_toList, heq]

/-- What follows the dot of a segment is the segment. -/
theorem expectName_advance {s t u : ParseState} {n : String} {span : Span} {token : Token}
    (hadvance : Parser.advance s = .done token t) (h : Parser.expectName t = .done (n, span) u) :
    (s.cursor.kindAt 1).asName? = some n := by
  cases hadvance
  rw [Cursor.kindAt_succ]
  exact expectName_eq_done h

theorem same_dotted {a a' b : String} (h : Same σ a a') : Same σ (a ++ "." ++ b) (a' ++ "." ++ b) := by
  show a' ++ "." ++ b = renameFirst σ.on (a ++ "." ++ b)
  rw [renameFirst_dotted, show a' = renameFirst σ.on a from h]

theorem typeSegments {n n' : String} (h : Same σ n n') (s : ParseState) :
    Lags σ AtDot (typeSegments n) (typeSegments n') s := by
  refine loop (I := fun _ => True) (fun a b s _ hab => ?_) (fun _ _ _ _ _ _ => trivial)
    (fun a ha => .next fun c => .ite (.next fun _ => .next fun _ => .done ?_) (.done ha))
    trivial h
  · refine cursor_next fun hs => ?_
    simp only [Cursor.kind_soften, Cursor.kindAt_soften, TokenKind.isMark_soften,
      TokenKind.plainName?_soften]
    by_cases hx : (s.cursor.kindAt 1).isName σ.name = true
    · -- the segment is the name
      simp only [hx, if_true, Option.isSome_none, Bool.and_false, Bool.false_and, Bool.false_eq_true,
        if_false]
      split
      · next hcond =>
        refine stopped (fun round t hd => ?_) ?_
        · obtain ⟨token, u, hadvance, hd⟩ := bind_eq_done.1 hd
          obtain ⟨⟨segment, span⟩, v, hname, hd⟩ := bind_eq_done.1 hd
          have hsegment := expectName_advance hadvance hname
          cases hd
          rw [TokenKind.asName?_of_isName hx] at hsegment
          obtain rfl := Option.some.inj hsegment
          exact fun hclean => (clean_dotted hclean).2 σ.undotted rfl
        · show (s.cursor.kind.soften σ).isMark .dot = true
          rw [TokenKind.isMark_soften]
          exact (Bool.and_eq_true_iff.1 (Bool.and_eq_true_iff.1 hcond).1).1
      · exact done (congrArg Round.stop hab)
    · simp only [Bool.eq_false_iff.2 hx, Bool.false_eq_true, if_false]
      refine ite Iff.rfl (fun hcond => ?_) fun _ => done (congrArg Round.stop hab)
      refine after (Exact.advance s) fun token token' t hadvance _ => ?_
      refine after (Exact.expectName t) fun name name' u hname hsame => ?_
      obtain ⟨segment, span⟩ := name
      obtain rfl : name' = (σ.on segment, span) := hsame
      have hne : segment ≠ σ.name := by
        rintro rfl
        exact hx (TokenKind.isName_of_plainName?
          (Bool.and_eq_true_iff.1 (Bool.and_eq_true_iff.1 hcond).1).2
          (expectName_advance hadvance hname))
      rw [Softening.on_of_ne hne]
      exact done (congrArg Round.next (same_dotted hab))
  · exact fun hclean => ha (clean_dotted hclean).1

/-- No variance mark stands before the name. -/
def Invariant (σ : Softening) (s : ParseState) : Prop :=
  s.cursor.kind.isName "out" = true ∨ s.cursor.kind.isName "in" = true →
    (s.cursor.kindAt 1).isName σ.name = false

/-- Behind an angle bracket or a comma no variance mark stands before the name. -/
theorem invariant_of_eat {s t : ParseState} {m : Mark} (hs : σ.Suited s.cursor.rest)
    (hm : m = .less ∨ m = .comma) (h : Parser.eat m s = .done true t) : Invariant σ t := by
  unfold Parser.eat Parser.eatIf at h
  split at h
  · next hmark =>
    cases h
    obtain ⟨⟨here, ahead, last⟩, nextExpr, nextDecl, skipped⟩ := s
    have hhere : here.kind.isMark .less = true ∨ here.kind.isMark .comma = true := by
      rcases hm with rfl | rfl
      · exact Or.inl hmark
      · exact Or.inr hmark
    have hinvariant := hs.head.invariant hhere
    intro hvariance
    match ahead, hinvariant, hvariance with
    | [], _, hvariance =>
      have hkind : here.kind.isName "out" = true ∨ here.kind.isName "in" = true := hvariance
      cases hk : here.kind <;> simp [hk, TokenKind.isName, TokenKind.isMark] at hkind hhere
    | [u], _, hvariance =>
      refine Bool.eq_false_iff.2 fun hname => σ.ordinary ?_
      have hkind : u.kind.isName "out" = true ∨ u.kind.isName "in" = true := hvariance
      have hname : u.kind.isName σ.name = true := hname
      cases hk : u.kind <;> simp [hk, TokenKind.isName] at hkind hname
      rcases hkind with rfl | rfl <;> simp [← hname]
    | u :: v :: more, hinvariant, hvariance => exact hinvariant u v more rfl hvariance
  · cases h

theorem skipVariance {s : ParseState} (hs : Invariant σ s) :
    Exact σ skipVariance skipVariance s := by
  refine Exact.cursor_next ?_
  simp only [Cursor.kind_soften, Cursor.kindAt_soften, TokenKind.plainName?_soften,
    TokenKind.isName_soften (show "out" ∈ ["is", "in", "out", "get", "*"] by simp),
    TokenKind.isName_soften (show "in" ∈ ["is", "in", "out", "get", "*"] by simp)]
  by_cases hvariance : s.cursor.kind.isName "out" = true ∨ s.cursor.kind.isName "in" = true
  · rw [hs hvariance, if_neg Bool.false_ne_true]
    refine Exact.ite Iff.rfl ?_ (Exact.done rfl)
    exact Exact.seq (Exact.advance s) fun _ _ t _ _ => Exact.done rfl
  · have hnone : (s.cursor.kind.isName "out" || s.cursor.kind.isName "in") = false := by
      simpa using hvariance
    rw [hnone, Bool.false_and, Bool.false_and]
    exact Exact.done rfl

omit [Named α] in
theorem suited_of_done {p : Parser α} [hp : Forward p] {s t : ParseState} {a : α}
    (hs : σ.Suited s.cursor.rest) (hd : p s = .done a t) : σ.Suited t.cursor.rest :=
  hs.of_suffix (hp.reaches_of_done hd).rest_suffix

theorem clean_typeRef {n : String} {args : List TypeRef} {nullable : Bool} :
    Clean σ (TypeRef.mk n args nullable) ↔ Clean σ n ∧ Clean σ args := by
  simp [Clean, strict, TypeRef.strictNames]

theorem clean_lambdaParam {d : DeclId} {n : String} {type : Option TypeRef} :
    Clean σ (LambdaParam.mk d n type) ↔ n ≠ σ.name ∧ Clean σ type := by
  simp [Clean, strict, LambdaParam.strictNames, eq_comm]

theorem same_lambdaParam {d d' : DeclId} {n : String} {type type' : Option TypeRef}
    (hn : n ≠ σ.name) (h : Same σ type type') :
    Same σ (LambdaParam.mk d n type) (LambdaParam.mk d' n type') := by
  have h : type'.map (fun t => t) = (type.map (TypeRef.renamed σ.on)).map fun t => t := h
  rw [Option.map_id', Option.map_id'] at h
  show LambdaParam.unnumbered _ = (LambdaParam.renamed σ.on _).unnumbered
  rw [LambdaParam.unnumbered, LambdaParam.renamed, LambdaParam.unnumbered, h, Softening.on_of_ne hn]

theorem same_typeRef {n n' : String} {args args' : List TypeRef} {nullable : Bool}
    (hn : Same σ n n') (hargs : Same σ args args') :
    Same σ (TypeRef.mk n args nullable) (TypeRef.mk n' args' nullable) := by
  show TypeRef.mk n' args' nullable = (TypeRef.mk n args nullable).renamed σ.on
  have hargs : args'.map (fun t => t) = (args.map fun t => t.renamed σ.on).map fun t => t := hargs
  rw [List.map_id', List.map_id'] at hargs
  rw [TypeRef.renamed, TypeRef.renamedAll_eq_map, hargs, show n' = renameFirst σ.on n from hn]

section

variable (g : Grammar) [hforward : g.Forward] (hg : ∀ s, Lags σ AtDot g.type g.type s)

include hg

theorem typeArgs {s : ParseState} (hs : σ.Suited s.cursor.rest) (hinvariant : Invariant σ s) :
    Lags σ (fun _ _ => False) (typeArgs g) (typeArgs g) s := by
  rw [typeArgs_eq_loop]
  have hnot {args : List TypeRef} {type : TypeRef} (h : ¬Clean σ args ∨ ¬Clean σ type) :
      ¬Clean σ (args ++ [type]) := fun hclean =>
    h.elim (fun h => h (clean_append.1 hclean).1) fun h => h (clean_append.1 hclean).2
  refine next (S := AtDot) (loop (I := fun s => σ.Suited s.cursor.rest ∧ Invariant σ s)
    (fun args args' s hs hargs => ?_) (fun args more s t hs hd => ?_)
    (fun args hargs => .next fun _ => .next fun type => .next fun more =>
      .ite (.done (hnot (Or.inl hargs))) (.done (hnot (Or.inl hargs)))) ⟨hs, hinvariant⟩ rfl)
    (fun args args' t _ hargs => after (Exact.expect t .greater) fun _ _ u _ _ => done hargs)
    (fun args hargs => .next fun _ => .done hargs) fun args => .expect (by decide)
  · -- a type that lags behind ends the round
    refine after (skipVariance hs.2) fun _ _ t _ _ => next (hg t) (fun type type' u _ htype => ?_)
      (fun type htype => .next fun more =>
        .ite (.done (hnot (Or.inr htype))) (.done (hnot (Or.inr htype))))
      fun type => .eat (by decide) (.done fun _ h => h)
    refine after (Exact.eat u .comma) fun more more' v _ hmore => ?_
    obtain rfl : more' = more := hmore
    have hsame := same_append hargs htype
    exact ite Iff.rfl (fun _ => done (congrArg Round.next hsame))
      fun _ => done (congrArg Round.stop hsame)
  · obtain ⟨_, u, hvariance, hd⟩ := bind_eq_done.1 hd
    obtain ⟨type, v, htype, hd⟩ := bind_eq_done.1 hd
    obtain ⟨comma, w, hcomma, hd⟩ := bind_eq_done.1 hd
    split at hd
    · next htrue =>
      subst htrue
      cases hd
      have hv := suited_of_done (suited_of_done hs.1 hvariance) htype
      exact ⟨suited_of_done hv hcomma, invariant_of_eat hv (Or.inr rfl) hcomma⟩
    · cases hd

theorem typeRef (s : ParseState) : Lags σ AtDot (typeRef g) (typeRef g) s := by
  refine after (Exact.eat s .star) fun star star' t hstar hsame => ?_
  obtain rfl : star' = star := hsame
  refine ite Iff.rfl (fun _ => done ?_) fun _ => of_suited fun ht => ?_
  · show TypeRef.star = TypeRef.star.renamed σ.on
    have hstar : σ.on "*" = "*" := Softening.on_of_ne fun h => σ.ordinary (by simp [← h])
    rw [TypeRef.star, TypeRef.simple, TypeRef.renamed, renameFirst_of_undotted (by decide), hstar,
      TypeRef.renamedAll]
  refine after (Exact.expectName t) fun name name' u hname hsame => ?_
  obtain ⟨first, span⟩ := name
  obtain rfl : name' = (σ.on first, span) := hsame
  have hfirst : Same σ first (σ.on first) := by
    show σ.on first = renameFirst σ.on first
    rw [renameFirst_of_undotted (undotted_of_expectName ht hname)]
  have hspoils {n : String} {args : List TypeRef} (h : ¬Clean σ n ∨ ¬Clean σ args) :
      Spoils σ (Parser.eat .question >>= fun nullable => pure (TypeRef.mk n args nullable)) := by
    refine .next fun nullable => .done fun hclean => ?_
    rw [clean_typeRef] at hclean
    exact h.elim (fun h => h hclean.1) fun h => h hclean.2
  refine next (typeSegments hfirst u) (fun n n' v hn hsame => of_suited fun hv => ?_)
    (fun n hn => .next fun more => .ite (.next fun _ => hspoils (Or.inl hn))
      (.next fun _ => hspoils (Or.inl hn)))
    fun n => .eat (by decide) (.eat (by decide) (.done fun _ h => h))
  refine after (Exact.eat v .less) fun more more' w hmore hsame' => ?_
  obtain rfl : more' = more := hsame'
  have hmade {args args'} (w) (hargs : Same σ args args') :
      Lags σ AtDot (Parser.eat .question >>= fun nullable => pure (TypeRef.mk n args nullable))
        (Parser.eat .question >>= fun nullable => pure (TypeRef.mk n' args' nullable)) w := by
    refine after (Exact.eat w .question) fun nullable nullable' x _ hsame'' => ?_
    obtain rfl : nullable' = nullable := hsame''
    exact done (same_typeRef hsame hargs)
  refine ite Iff.rfl (fun htrue => ?_) fun _ => after (Exact.done rfl) fun _ _ x _ h => hmade x h
  subst htrue
  exact next (typeArgs g hg (suited_of_done hv hmore) (invariant_of_eat hv (Or.inl rfl) hmore))
    (fun args args' x _ hargs => hmade x hargs) (fun args hargs => hspoils (Or.inr hargs))
    fun _ _ h => h.elim

omit hforward hg in
theorem some {p p' : Parser α} {s : ParseState} (hp : Lags σ AtDot p p' s) :
    Lags σ AtDot (Option.some <$> p) (Option.some <$> p') s :=
  next hp (fun _ _ _ _ hab => done (congrArg Option.some hab))
    (fun _ ha => .done fun h => ha (clean_some.1 h)) fun _ => .done fun _ h => h

theorem callTypeArgs_inner (s : ParseState) :
    Lags σ (fun _ _ => False)
      (Parser.advance >>= fun _ => Parser.loop (Rounds.callTypeArgs g) [])
      (Parser.advance >>= fun _ => Parser.loop (Rounds.callTypeArgs g) []) s := by
  have hspoils {args : List TypeRef} {type : TypeRef} (h : ¬Clean σ args ∨ ¬Clean σ type) :
      Spoils σ (Parser.eat .comma >>= fun more =>
        if more then pure (.next (args ++ [type])) else Parser.expect .greater >>= fun _ =>
          Parser.kind >>= fun k => if k.isMark .leftParen || k.isMark .leftBrace then
            pure (Round.stop (args ++ [type])) else Parser.fail) := by
    have hnot : ¬Clean σ (args ++ [type]) := fun hclean =>
      h.elim (fun h => h (clean_append.1 hclean).1) fun h => h (clean_append.1 hclean).2
    exact .next fun more => .ite (.done hnot) (.next fun _ => .next fun k => .ite (.done hnot) .fail)
  refine after (Exact.advance s) fun _ _ t _ _ => ?_
  refine loop (I := fun _ => True) (fun args args' s _ hargs => ?_) (fun _ _ _ _ _ _ => trivial)
    (fun args hargs => .next fun type => hspoils (Or.inl hargs)) trivial rfl
  refine next (typeRef g hg s) (fun type type' u _ htype => ?_)
    (fun type htype => hspoils (Or.inr htype)) fun type => .eat (by decide) (.expect (by decide))
  refine after (Exact.eat u .comma) fun more more' v _ hmore => ?_
  obtain rfl : more' = more := hmore
  have hsame := same_append hargs htype
  refine ite Iff.rfl (fun _ => done (congrArg Round.next hsame)) fun _ => ?_
  refine after (Exact.expect v .greater) fun _ _ w _ _ => after (Exact.kind w) fun k k' x _ hk => ?_
  obtain rfl : k' = k.soften σ := hk
  exact ite (by simp) (fun _ => done (congrArg Round.stop hsame)) fun _ => fail

omit hforward hg in
/-- The name of a parameter of a lambda is no soft keyword. -/
theorem spoils_lambdaParam {params : List LambdaParam} {name : String}
    (h : ¬Clean σ params ∨ name = σ.name) : Spoils σ (Rounds.lambdaParam g params name) := by
  refine .next fun _ => .next fun typed => ?_
  extract_lets made
  have hmade (type) : Spoils σ (made type) := by
    refine .next fun d => .next fun more => ?_
    have hdirty : ¬Clean σ (params ++ [⟨d, name, type⟩]) := fun hclean =>
      h.elim (fun h => h (clean_append.1 hclean).1)
        fun h => (clean_lambdaParam.1 (clean_append.1 hclean).2).1 h
    exact .ite (.done hdirty) (.next fun _ => .done hdirty)
  exact .ite (.next hmade) (.next hmade)

theorem lambdaParam {params params' : List LambdaParam} (hparams : Same σ params params')
    {name : String} (hname : name ≠ σ.name) (s : ParseState) :
    Lags σ (LastRound fun _ _ => False) (Rounds.lambdaParam g params name)
      (Rounds.lambdaParam g params' name) s := by
  refine after (Exact.advance s) fun _ _ t _ _ => after (Exact.eat t .colon) fun typed typed' t _ htyped => ?_
  obtain rfl : typed' = typed := htyped
  extract_lets made made'
  have hmade (type type' t) (htype : Same σ type type') :
      Lags σ (LastRound fun _ _ => False) (made type) (made' type') t := by
    refine newDecl_next fun d d' t _ => after (Exact.eat t .comma) fun more more' t _ hmore => ?_
    obtain rfl : more' = more := hmore
    have hsame : Same σ (params ++ [⟨d, name, type⟩]) (params' ++ [⟨d', name, type'⟩]) :=
      same_append hparams (same_lambdaParam hname htype)
    refine ite Iff.rfl (fun _ => done (congrArg Round.next hsame)) fun _ => ?_
    exact after (Exact.expect t .arrow) fun _ _ t _ _ => done (congrArg Round.stop hsame)
  have hspoils (type) (htype : ¬Clean σ type) : Spoils σ (made type) := by
    refine .next fun d => .next fun more => ?_
    have hdirty : ¬Clean σ (params ++ [⟨d, name, type⟩]) := fun hclean =>
      htype (clean_lambdaParam.1 (clean_append.1 hclean).2).2
    exact .ite (.done hdirty) (.next fun _ => .done hdirty)
  refine ite Iff.rfl (fun _ => ?_) fun _ => after (Exact.done rfl) fun type type' t _ => hmade type type' t
  exact next (typeRef g hg t).some (fun type type' t _ => hmade type type' t) hspoils
    fun type => .newDecl fun d => .eat (by decide) (.expect (by decide))

theorem lambdaParams_inner (s : ParseState) :
    Lags σ (fun _ _ => False)
      (Parser.skipNewlines >>= fun _ => Parser.loop (Rounds.lambdaParams g) [])
      (Parser.skipNewlines >>= fun _ => Parser.loop (Rounds.lambdaParams g) []) s := by
  refine after (Exact.skipNewlines s) fun _ _ t _ _ => ?_
  refine loop (I := fun _ => True) (fun params params' s _ hparams => ?_) (fun _ _ _ _ _ _ => trivial)
    (fun params hparams => .next fun k => .next fun name => spoils_lambdaParam g (Or.inl hparams))
    trivial rfl
  refine after (Exact.kind s) fun k k' t _ hk => ?_
  obtain rfl : k' = k.soften σ := hk
  rw [TokenKind.plainName?_soften]
  cases k with
  | name n =>
    by_cases hn : n = σ.name
    · subst hn
      rw [if_pos (TokenKind.isName_name _)]
      exact failed fun s a t hd => spoils_lambdaParam g (Or.inr rfl) s a t hd
    · rw [if_neg fun h : TokenKind.isName σ.name (.name n) = true => hn (beq_iff_eq.1 h)]
      exact lambdaParam g hg hparams hn t
  | _ => exact failed fun s a t hd => nomatch (hd : Outcome.failed s = .done a t)

end

end Lags

end Parser

end FrameCheck
