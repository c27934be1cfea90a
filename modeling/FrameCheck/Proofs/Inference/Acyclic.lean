import FrameCheck.Proofs.Inference.Settled

/-!
# What was asked before does not matter where nothing leads back

On a unit whose expressions and markers do not lead back to themselves, every question has an
answer, and it is that of a fresh memo, whatever was asked before. The failures that are recorded
once all expressions were asked for do not depend on the order either : those of calls are those
of the fresh answers, and those of markers are the conflicts of what was built.

The markers that a marker leads to are those that its class mentions. For a property of type
`AnyFrame` this includes the marker named `*`, since the type is that of frames over `*`.

* `Program.ask_of_acyclic` : answers and failures behind any questions.
-/

namespace FrameCheck

/-! ## Questions from outside -/

/-- The expressions of the question are expressions of the unit. -/
def Question.Within (u : SourceUnit) : Question → Prop
  | .binding e | .type e => e ∈ u.exprs
  | .marker _ | .written _ => True

theorem Question.Within.asks {u : SourceUnit} {q : Question} (h : q.Within u) :
    q.Asks (· ∈ u.exprs) := by
  cases q <;> exact h

namespace Program

variable (p : Program)

/-- A fresh memo has the answer `a`. -/
def Answers (q : Question) (a : Answer) : Prop := ∃ m, p.ask q Memo.empty = some (a, m)

/-- A fresh memo builds the marker `n` for the answer. -/
def Needs (q : Question) (n : String) : Prop :=
  ∃ a m, p.ask q Memo.empty = some (a, m) ∧ n ∈ m.markers

end Program

namespace Acyclic

variable {p : Program} {u : SourceUnit} (h : Acyclic p u)

include h

/-- A question from outside is settled, at the depth that questions have. -/
theorem exists_settled {q : Question} (hq : q.Within u) : ∃ x, x p.depth = p.ask q ∧
    Query.Settled p u p.depth (· = []) (fun _ => False) Answer x := by
  have hc := Query.Settled.compositional p u p.depth (· = []) fun _ => False
  have hawaited : ∀ {e : Expr} (o : List ExprId), o = [] → e.Awaited p u o := by
    rintro e _ rfl x _ hx
    simp at hx
  have hdepth := SourceUnit.rank_le_depth h.ids h.names
  cases q with
  | binding e =>
    refine ⟨_, rfl, hc.map ((h.settled e hq).1.mono ?_ hawaited fun _ _ _ => False.elim) _⟩
    have := hdepth e
    omega
  | type e =>
    exact ⟨_, rfl, hc.map ((h.settled e hq).2.mono (hdepth e) hawaited
      fun _ _ _ => False.elim) _⟩
  | marker n => exact ⟨fun _ => p.ask (.marker n), rfl, hc.map (h.markerSchema ..) _⟩
  | written type =>
    have hadmits : Admits (Query.Settled p u p.depth (· = []) fun _ => False) p
        (Queries.ofDepth p) fun _ => False :=
      { hc with
        binding := False.elim
        type := False.elim
        schema := h.markerSchema _ _ _ }
    exact ⟨fun _ => p.ask (.written type), rfl, hc.map (hadmits.bindingOfType type) _⟩

/-- A question has the answer of a fresh memo, and builds the same markers. -/
theorem ask {q : Question} (hq : q.Within u) : ∃ a, p.Answers q a ∧
    ∀ m, m.Fresh p u → m.inProgress = [] → ∃ m', p.ask q m = some (a, m') ∧
      Effect p u (fun _ => False) none (p.Needs q) m m' := by
  obtain ⟨x, hx, a, f, N, hsettled⟩ := h.exists_settled hq
  have hrun := fun m => hsettled p.depth m (Nat.le_refl _)
  rw [hx] at hrun
  obtain ⟨m₀, hrun₀, heffect₀⟩ := hrun Memo.empty (Memo.Justified.empty ..) rfl
  have hneeds : ∀ n, p.Needs q n ↔ N n := fun n => by
    have hbuilt : n ∈ m₀.markers ↔ N n := (heffect₀.built n).trans (by simp [Memo.empty])
    constructor
    · rintro ⟨a', m', hrun', hn⟩
      cases hrun₀.symm.trans hrun'
      exact hbuilt.1 hn
    · exact fun hN => ⟨a, m₀, hrun₀, hbuilt.2 hN⟩
  refine ⟨a, ⟨m₀, hrun₀⟩, fun m hm ho => ?_⟩
  obtain ⟨m', hrun', heffect⟩ := hrun m hm ho
  exact ⟨m', hrun', heffect.fresh, heffect.grown, fun _ => False.elim,
    fun n => by rw [heffect.built, hneeds]⟩

/-- All of several questions have the answers of fresh memos. -/
theorem askAll : ∀ {qs : List Question}, (∀ q ∈ qs, q.Within u) → ∀ {m}, m.Fresh p u →
    m.inProgress = [] → ∃ answers m', p.askAll qs m = some (answers, m') ∧
      List.Forall₂ p.Answers qs answers ∧
      Effect p u (fun _ => False) none (fun n => ∃ q ∈ qs, p.Needs q n) m m' ∧
      ∀ e, Question.binding e ∈ qs → e.id ∈ m'.bindings
  | [], _, m, hm, _ => ⟨[], m, rfl, List.Forall₂.nil, ⟨hm, Extends.refl _ _, fun _ => False.elim,
      by simp⟩, by simp⟩
  | q :: qs, hq, m, hm, ho => by
    obtain ⟨a, ha, hrun⟩ := h.ask (hq q (by simp))
    obtain ⟨m₁, hrun, heffect⟩ := hrun m hm ho
    obtain ⟨answers, m₂, hruns, hanswers, heffects, hbound⟩ :=
      askAll (fun q hq' => hq q (List.mem_cons_of_mem _ hq')) heffect.fresh
        (heffect.grown.inProgress.trans ho)
    refine ⟨a :: answers, m₂, Program.askAll_cons hrun hruns, hanswers.cons ha,
      ⟨heffects.fresh, heffect.grown.trans heffects.grown, fun _ => False.elim, fun n => ?_⟩,
      fun e he => ?_⟩
    · rw [heffects.built, heffect.built, or_assoc]
      simp
    · rcases List.mem_cons.1 he with rfl | he
      · obtain ⟨b, m', hb, hrun⟩ := Query.bind_eq_some.1 hrun
        cases hrun
        exact heffects.grown.mem_bindings (Std.TreeMap.mem_iff_isSome_getElem?.2
          (Option.isSome_of_eq_some (Queries.bindings_of_binding hb (by simp [ho]))))
      · exact hbound e he

/-! ## Failures -/

/-- With all expressions remembered, the failures of calls are those of fresh memos. -/
theorem callFailures_values_eq {m m' : Memo} (hm : m.Fresh p u) (hm' : m'.Fresh p u)
    (ho : m.inProgress = []) (ho' : m'.inProgress = []) (hb : ∀ e ∈ u.exprs, e.id ∈ m.bindings)
    (hb' : ∀ e ∈ u.exprs, e.id ∈ m'.bindings) :
    m.callFailures.values = m'.callFailures.values := by
  refine (Std.TreeMap.Equiv.of_forall_constGet?_eq fun id => ?_).values_eq
  by_cases hid : ∃ e ∈ u.exprs, e.id = id
  · obtain ⟨e, he, rfl⟩ := hid
    obtain ⟨x, hx, hxe, m₀, hrun, hf, -⟩ :=
      hm.cached (Std.TreeMap.getElem?_eq_some_getElem (hb e he))
    obtain ⟨y, hy, hye, m₀', hrun', hf', -⟩ :=
      hm'.cached (Std.TreeMap.getElem?_eq_some_getElem (hb' e he))
    obtain rfl := SourceUnit.eq_of_id_eq h.ids hx hy (hxe.trans hye.symm)
    have heq := Option.some.inj (hrun.symm.trans hrun')
    rw [hf, hf', (Prod.mk.inj heq).2]
  · have hnone : ∀ {m : Memo}, m.Fresh p u → m.inProgress = [] → m.callFailures[id]? = none :=
      fun hm ho => Std.TreeMap.getElem?_eq_none <| hm.not_mem_callFailures (fun hidm => by
        obtain ⟨e, he, heid, -⟩ := hm.cached (Std.TreeMap.getElem?_eq_some_getElem hidm)
        exact hid ⟨e, he, heid⟩) (by simp [ho])
    rw [hnone hm ho, hnone hm' ho']

/-- Two lists of questions with the same members, which ask for all expressions, leave the same
failures. -/
theorem failures_perm {qs qs' : List Question} {m m' : Memo} (hqs : ∀ q, q ∈ qs ↔ q ∈ qs')
    (hall : ∀ e ∈ u.exprs, Question.binding e ∈ qs)
    (he : Effect p u (fun _ => False) none (fun n => ∃ q ∈ qs, p.Needs q n) Memo.empty m)
    (he' : Effect p u (fun _ => False) none (fun n => ∃ q ∈ qs', p.Needs q n) Memo.empty m')
    (hb : ∀ e, Question.binding e ∈ qs → e.id ∈ m.bindings)
    (hb' : ∀ e, Question.binding e ∈ qs' → e.id ∈ m'.bindings) :
    m.failures.Perm m'.failures := by
  obtain ⟨A, hA⟩ := he.fresh.steady.builds
  obtain ⟨A', hA'⟩ := he'.fresh.steady.builds
  refine (hA.markerFailures_perm hA' he'.fresh.steady.openMarkers h.not_mutual fun n => ?_).append
    (List.Perm.of_eq ?_)
  · rw [he.built, he'.built]
    simp only [hqs]
  · exact h.callFailures_values_eq he.fresh he'.fresh he.grown.inProgress he'.grown.inProgress
      (fun e hu => hb e (hall e hu)) fun e hu => hb' e ((hqs _).1 (hall e hu))

end Acyclic

/-! ## Markers that classes mention -/

/-- The first type argument, where `AnyFrame` is the type of frames over `*`. -/
def TypeRef.rows? (t : TypeRef) : Option TypeRef :=
  if t.simpleName = "AnyFrame" then some .star else t.arg? 0

/-- The class of marker `a` lists marker `b` as a supertype or has a property of a type that names
marker `b`, by itself or by its first argument, which `first?` gives. -/
def Resolution.Mentions (names : Resolution) (first? : TypeRef → Option TypeRef) (a b : String) :
    Prop :=
  (names.marker? b).isSome ∧ ∃ c, names.marker? a = some c ∧
    ((∃ t ∈ c.supertypes, t.simpleName = b) ∨
      ∃ q ∈ c.properties, ∃ t, q.type = some t ∧
        (t.simpleName = b ∨ ∃ r, first? t = some r ∧ r.simpleName = b))

theorem Resolution.Asks.mentions {names : Resolution} {a b : String} (h : names.Asks a b) :
    names.Mentions TypeRef.rows? a b := by
  obtain ⟨c, hc, ⟨part, hpart, ha⟩, hb⟩ := h
  refine ⟨hb, c, hc, ?_⟩
  simp only [ClassDecl.parts, List.mem_append, List.mem_map] at hpart
  rcases hpart with ⟨t, ht, rfl⟩ | ⟨q, hq, rfl⟩
  · exact Or.inl ⟨t, ht, Option.some.inj ha⟩
  · obtain ⟨-, type, kind, marker, htype, hnested, -, rfl⟩ := ClassPart.asked?_property.1 ha
    refine Or.inr ⟨q, hq, type, htype, ?_⟩
    unfold MarkerQuery.nested at hnested
    unfold TypeRef.rows?
    split at hnested
    · rename_i hgroup
      have hne : type.simpleName ≠ "AnyFrame" := by
        rintro heq
        simp [heq] at hgroup
      exact Or.inr ⟨marker, by rw [if_neg hne, (Prod.mk.inj hnested).2], rfl⟩
    · split at hnested
      · rename_i hframe
        have hne : type.simpleName ≠ "AnyFrame" := by
          rintro heq
          simp [heq] at hframe
        exact Or.inr ⟨marker, by rw [if_neg hne, (Prod.mk.inj hnested).2], rfl⟩
      · split at hnested
        · rename_i heq
          exact Or.inr ⟨marker, by rw [if_pos heq, (Prod.mk.inj hnested).2], rfl⟩
        · cases hnested
          exact Or.inl rfl

/-! ## The result -/

namespace Program

/-- On a unit that splits into tokens, and whose expressions and markers do not lead back to
themselves, all questions have answers, which are those of fresh memos. And once all expressions
of the unit were asked for, for their bindings and their types in any order, the failures are the
same up to their order. -/
theorem ask_of_acyclic (operations : Catalog) (text : String) (u : SourceUnit)
    (hu : SourceUnit.ofText text = .ok u)
    (hexprs : ∀ e ∈ u.exprs, ¬e.Reaches (Resolution.ofUnit u) e)
    (hmarkers : ∀ n, ¬Relation.TransGen ((Resolution.ofUnit u).Mentions TypeRef.rows?) n n) :
    (∀ qs : List Question, (∀ q ∈ qs, q.Within u) → ∃ answers m,
      (Program.mk (Resolution.ofUnit u) operations).askAll qs Memo.empty = some (answers, m) ∧
      List.Forall₂ (Program.mk (Resolution.ofUnit u) operations).Answers qs answers) ∧
    ∃ failures : List Failure, ∀ qs : List Question,
      (∀ q, q ∈ qs ↔ ∃ e ∈ u.exprs, q = .binding e ∨ q = .type e) → ∃ answers m,
        (Program.mk (Resolution.ofUnit u) operations).askAll qs Memo.empty = some (answers, m) ∧
        m.failures.Perm failures := by
  have h : Acyclic ⟨Resolution.ofUnit u, operations⟩ u :=
    ⟨rfl, SourceUnit.nodup_ids_of_ofText hu, hexprs, fun n hn =>
      hmarkers n (hn.lift id fun _ _ => Resolution.Asks.mentions)⟩
  have hempty : Memo.empty.Fresh ⟨Resolution.ofUnit u, operations⟩ u := Memo.Justified.empty ..
  refine ⟨fun qs hqs => ?_, ?_⟩
  · obtain ⟨answers, m, hrun, hanswers, -⟩ := h.askAll hqs hempty rfl
    exact ⟨answers, m, hrun, hanswers⟩
  · have hwithin : ∀ qs : List Question,
        (∀ q, q ∈ qs ↔ ∃ e ∈ u.exprs, q = .binding e ∨ q = .type e) → ∀ q ∈ qs, q.Within u := by
      intro qs hqs q hq
      obtain ⟨e, he, rfl | rfl⟩ := (hqs q).1 hq
      · exact he
      · exact he
    let all : List Question := u.exprs.flatMap fun e => [.binding e, .type e]
    have hall : ∀ q, q ∈ all ↔ ∃ e ∈ u.exprs, q = .binding e ∨ q = .type e := by
      simp [all, List.mem_flatMap]
    obtain ⟨_, m₀, -, -, heffect₀, hb₀⟩ := h.askAll (hwithin all hall) hempty rfl
    refine ⟨m₀.failures, fun qs hqs => ?_⟩
    obtain ⟨answers, m, hrun, -, heffect, hb⟩ := h.askAll (hwithin qs hqs) hempty rfl
    exact ⟨answers, m, hrun, h.failures_perm (fun q => (hqs q).trans (hall q).symm)
      (fun e he => (hqs _).2 ⟨e, he, Or.inl rfl⟩) heffect heffect₀ hb hb₀⟩

/-- A frame of a marker, with a name for a call on it that fails. -/
def selectText : String :=
  "@DataSchema\ninterface Person \x7b\n    val name: String\n\x7d\n" ++
  "fun f(df: DataFrame<Person>) \x7b\n    val a = df.select(\"nam\")\n    val b = a\n\x7d\n"

/-- There every expression comes behind those that it depends on, and all is answered. -/
theorem ask_of_acyclic_selectText : ∃ u, SourceUnit.ofText selectText = .ok u ∧ u.exprs ≠ [] ∧
    (∀ e ∈ u.exprs, ¬e.Reaches (Resolution.ofUnit u) e) ∧
    (∀ n, ¬Relation.TransGen ((Resolution.ofUnit u).Mentions TypeRef.rows?) n n) ∧
    ∀ e ∈ u.exprs, ∃ answers m, (Program.mk (Resolution.ofUnit u) Catalog.standard).askAll
      [.type e, .binding e] Memo.empty = some (answers, m) := by
  obtain ⟨u, hu, h⟩ : ∃ u, SourceUnit.ofText selectText = .ok u ∧
      (((Resolution.ofUnit u).expr? 0).isSome && (Resolution.ofUnit u).descends &&
      (Resolution.ofUnit u).markers.toList.all fun r => r.1 == "Person" &&
        r.2.supertypes.isEmpty && r.2.properties.all fun q => q.type == some (.simple "String")) =
      true := by
    refine SourceUnit.exists_ofText (Token.eq_ofList_append rfl rfl) ?_
    decide +kernel
  have hids := SourceUnit.nodup_ids_of_ofText hu
  simp only [Bool.and_eq_true, List.all_eq_true, beq_iff_eq, List.isEmpty_iff] at h
  obtain ⟨⟨hsome, hdescends⟩, hmarkers⟩ := h
  have hne : u.exprs ≠ [] := fun hnil => by
    obtain ⟨x, hx⟩ := Option.isSome_iff_exists.1 hsome
    simpa [hnil] using SourceUnit.mem_exprs_of_expr? hids hx
  have hreach := SourceUnit.not_reaches_of_descends hids hdescends
  have hmentions : ∀ n, ¬Relation.TransGen
      ((Resolution.ofUnit u).Mentions TypeRef.rows?) n n := by
    intro n hn
    obtain ⟨b, ⟨hb, c, hc, hmention⟩, -⟩ := Relation.TransGen.head'_iff.1 hn
    obtain ⟨d, hd⟩ := Option.isSome_iff_exists.1 hb
    have hperson := (hmarkers (b, d) (Std.TreeMap.mem_toList_iff_getElem?_eq_some.2 hd)).1.1
    obtain ⟨⟨-, hsuper⟩, htypes⟩ :=
      hmarkers (n, c) (Std.TreeMap.mem_toList_iff_getElem?_eq_some.2 hc)
    rcases hmention with ⟨t, ht, -⟩ | ⟨q, hq, t, ht, hname⟩
    · replace hsuper : c.supertypes = [] := hsuper
      simp [hsuper] at ht
    · obtain rfl := Option.some.inj (ht.symm.trans (htypes q hq))
      rcases hname with hname | ⟨r, hr, -⟩
      · have hstring : (TypeRef.simple "String").simpleName ≠ "Person" := by decide +kernel
        exact hstring (hname.trans hperson)
      · have hnone : TypeRef.rows? (.simple "String") = none := by decide +kernel
        simp [hnone] at hr
  refine ⟨u, hu, hne, hreach, hmentions, fun e he => ?_⟩
  obtain ⟨answers, m, hrun, -⟩ := (ask_of_acyclic Catalog.standard selectText u hu hreach
    hmentions).1 [.type e, .binding e] (by simpa [Question.Within] using he)
  exact ⟨answers, m, hrun⟩

/-- A property of type `AnyFrame`, and a marker named `*` with a property over the first. -/
def starText : String :=
  "@DataSchema\ninterface A \x7b\n    val x: AnyFrame\n\x7d\n" ++
  "@DataSchema\ninterface `*` \x7b\n    val a: A\n\x7d\n"

/-- The first type argument that is written leads no marker back there, and yet the marker `*` has
another schema behind `A` than in a fresh memo. -/
theorem not_answers_starText : ∃ u, SourceUnit.ofText starText = .ok u ∧
    (∀ e ∈ u.exprs, ¬e.Reaches (Resolution.ofUnit u) e) ∧
    (∀ n, ¬Relation.TransGen ((Resolution.ofUnit u).Mentions (TypeRef.arg? · 0)) n n) ∧
    ∃ answers m, (ofUnit u).askAll [.marker "A", .marker "*"] Memo.empty = some (answers, m) ∧
      ¬List.Forall₂ (ofUnit u).Answers [.marker "A", .marker "*"] answers := by
  obtain ⟨u, hu, h⟩ : ∃ u, SourceUnit.ofText starText = .ok u ∧
      ((ofUnit u).names.exprs.isEmpty &&
      (ofUnit u).names.markers.toList.all (fun r => (r.1 == "A" || r.1 == "*") &&
        r.2.supertypes.isEmpty && r.2.properties.all fun q =>
          q.type == some (.simple (if r.1 == "*" then "A" else "AnyFrame"))) &&
      ((ofUnit u).markerSchema "A" Memo.empty).any fun a =>
        ((ofUnit u).markerSchema "*" a.2).any fun b =>
          decide (((ofUnit u).markerSchema "*" Memo.empty).map Prod.fst ≠ some b.1)) = true := by
    refine SourceUnit.exists_ofText (Token.eq_ofList_append rfl rfl) ?_
    decide +kernel
  have hids := SourceUnit.nodup_ids_of_ofText hu
  simp only [Bool.and_eq_true, Bool.or_eq_true, List.all_eq_true, Option.any_eq_true,
    decide_eq_true_eq, beq_iff_eq, List.isEmpty_iff] at h
  obtain ⟨⟨hempty, hmarkers⟩, ⟨s, m₁⟩, ha, ⟨t, m₂⟩, hb, hne⟩ := h
  have hanswers : (ofUnit u).askAll [.marker "A", .marker "*"] Memo.empty =
      some ([.marker s, .marker t], m₂) :=
    askAll_cons (ask_marker ha) (askAll_cons (ask_marker hb) rfl)
  refine ⟨u, hu, fun e he => ?_, fun n hn => ?_, _, m₂, hanswers, fun hall => ?_⟩
  · have hfind := (Resolution.expr?_eq_some_iff hids).2 ⟨he, rfl⟩
    have hmem : e.id ∈ (ofUnit u).names.exprs :=
      Std.TreeMap.mem_iff_isSome_getElem?.2 (Option.isSome_of_eq_some hfind)
    exact absurd hmem (Std.TreeMap.not_mem_of_isEmpty hempty)
  · have hmentions : ∀ a b, (Resolution.ofUnit u).Mentions (TypeRef.arg? · 0) a b →
        a = "*" ∧ b = "A" := by
      rintro a b ⟨hb, c, hc, hmention⟩
      obtain ⟨d, hd⟩ := Option.isSome_iff_exists.1 hb
      obtain ⟨⟨hname, -⟩, -⟩ := hmarkers (b, d) (Std.TreeMap.mem_toList_iff_getElem?_eq_some.2 hd)
      obtain ⟨⟨-, hsuper⟩, htypes⟩ :=
        hmarkers (a, c) (Std.TreeMap.mem_toList_iff_getElem?_eq_some.2 hc)
      replace hsuper : c.supertypes = [] := hsuper
      rcases hmention with ⟨t, ht, -⟩ | ⟨q, hq, t, ht, htb⟩
      · simp [hsuper] at ht
      · obtain rfl := Option.some.inj (ht.symm.trans (htypes q hq))
        replace hname : b = "A" ∨ b = "*" := hname
        replace htb : (TypeRef.simple (if a = "*" then "A" else "AnyFrame")).simpleName = b := by
          simpa [TypeRef.simple, TypeRef.arg?] using htb
        have hsimple : (TypeRef.simple "A").simpleName = "A" ∧
            (TypeRef.simple "AnyFrame").simpleName = "AnyFrame" := by decide +kernel
        split at htb
        · exact ⟨‹_›, htb.symm.trans hsimple.1⟩
        · rw [← htb, hsimple.2] at hname
          simp at hname
    obtain ⟨b, hb, -⟩ := Relation.TransGen.head'_iff.1 hn
    obtain ⟨c, -, hc⟩ := Relation.TransGen.tail'_iff.1 hn
    have hstar := (hmentions n b hb).1
    rw [(hmentions c n hc).2] at hstar
    simp at hstar
  · simp only [List.forall₂_cons] at hall
    obtain ⟨-, ⟨m, hm⟩, -⟩ := hall
    obtain ⟨t', m', ht', h⟩ := Query.bind_eq_some.1 hm
    cases h
    exact hne (by rw [ht']; rfl)

end Program

end FrameCheck
