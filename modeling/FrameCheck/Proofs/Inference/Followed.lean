import FrameCheck.Proofs.Inference.Acyclic
import FrameCheck.Proofs.Inference.Failing
import FrameCheck.Proofs.Resolution.Assigned
import FrameCheck.Proofs.Resolution.Found

/-!
# Names that stand for initializers

A name with no written type is followed to the initializer of its declaration, unless the unit has
an assignment whose target is a name of the same declaration. Then nothing is known of it, whatever
was asked before. Only names count as targets : an assignment to a member of `this` leaves the
property of the class as it is, and so does what was left out by the parser.

* `SourceUnit.Assigned` : a declaration that some assignment of the unit is made to.
* `Queries.ofDepth_mono` : an answer at some depth is the answer at all greater depths.
* `Program.followed_unless_assigned` : what the references to a declaration stand for.
-/

namespace FrameCheck

/-- Some assignment of the unit has a name of the declaration as its target. -/
def SourceUnit.Assigned (u : SourceUnit) (d : Declaration) : Prop :=
  ∃ t ∈ u.targets, t.isName ∧ (Resolution.ofUnit u).declaration? t = some d

namespace Resolution

variable {u : SourceUnit}

theorem references_of_declaration? {e : Expr} {d : Declaration}
    (h : (ofUnit u).declaration? e = some d) :
    (ofUnit u).references[e.id]? = some d.id ∧ (ofUnit u).declarations[d.id]? = some d := by
  obtain ⟨id, hid, hd⟩ := Option.bind_eq_some_iff.1 h
  obtain ⟨rfl, -⟩ := exists_declarer hd
  exact ⟨hid, hd⟩

/-- What is referred to keeps the value of its initializer exactly if it is not assigned. -/
theorem isStable_iff (hu : (u.exprs.map Expr.id).Nodup) {e : Expr} {d : Declaration}
    (hd : (ofUnit u).declaration? e = some d) : (ofUnit u).isStable d = true ↔ ¬u.Assigned d := by
  have hdecl := (references_of_declaration? hd).2
  rw [← Bool.not_eq_false, isStable_eq_false_iff hu, SourceUnit.Assigned]
  refine not_congr (exists_congr fun t => and_congr_right fun _ => and_congr_right fun _ => ?_)
  refine ⟨fun ht => ?_, fun ht => (references_of_declaration? ht).1⟩
  rw [declaration?, ht]
  exact hdecl

end Resolution

/-! ## Deeper questions -/

/-- Two questions, of which the second has every answer of the first. -/
def Query.Deepens (α : Type) (x : Bool → Query α) : Prop :=
  ∀ m r, x false m = some r → x true m = some r

theorem Query.Deepens.compositional : Compositional Query.Deepens where
  answer _ _ _ h := h
  next hx hf := by
    rintro m ⟨b, m''⟩ h
    obtain ⟨a, m', h, h'⟩ := Query.bind_eq_some.1 h
    exact Query.bind_eq_some.2 ⟨a, m', hx m _ h, hf a m' _ h'⟩

namespace Queries

variable {p : Program}

theorem bindingRule_deepens {q : Bool → Queries} {e : Expr}
    (h : Query.Deepens _ fun i => (q i).newBinding p e) :
    Query.Deepens _ fun i => (q i).bindingRule p e := by
  intro m r hr
  simp only [bindingRule_run] at hr ⊢
  cases hb : m.bindings[e.id]? with
  | some b => simpa only [hb] using hr
  | none =>
    simp only [hb] at hr ⊢
    split at hr
    · rwa [if_pos ‹_›]
    · rw [if_neg ‹_›]
      obtain ⟨⟨b, m'⟩, hnew, hr⟩ := Option.map_eq_some_iff.1 hr
      exact Option.map_eq_some_iff.2 ⟨_, h _ _ hnew, hr⟩

theorem ofDepth_deepens (p : Program) : ∀ depth, Admits Query.Deepens p
    (fun deep : Bool => ofDepth p (if deep then depth + 1 else depth)) fun _ => True
  | 0 =>
    { Query.Deepens.compositional with
      binding := fun _ _ _ h => nomatch h
      type := fun _ _ _ h => nomatch h
      schema := fun _ _ _ h => h }
  | depth + 1 => by
    have ih := ofDepth_deepens p depth
    have hbinding : ∀ e, Query.Deepens _ fun deep : Bool =>
        (ofDepth p (if deep then depth + 1 + 1 else depth + 1)).binding e := fun e =>
      bindingRule_deepens (q := fun deep => ofDepth p (if deep then depth + 1 else depth))
        (ih.newBinding (e.covered_true p) fun _ _ _ _ _ _ _ _ _ h => h)
    exact
      { Query.Deepens.compositional with
        binding := fun {e} _ => hbinding e
        type := fun {e} _ => ih.typeRule (e.covered_true p) (ih.binding trivial)
        schema := fun _ _ _ h => h }

/-- An answer at some depth is the answer one step deeper. -/
theorem type_succ {depth : Nat} {e : Expr} {m : Memo} {r : Option TypeRef × Memo}
    (h : (ofDepth p depth).type e m = some r) : (ofDepth p (depth + 1)).type e m = some r :=
  (ofDepth_deepens p depth).type trivial m r h

end Queries

/-! ## References -/

namespace Program

variable {p : Program} {u : SourceUnit}

theorem exists_depth (p : Program) : ∃ depth, p.depth = depth + 1 :=
  ⟨p.depth - 1, by unfold depth; grind⟩

/-- Questions for expressions of a unit keep what is remembered as it was inferred. -/
theorem askAll_judged (hu : (u.exprs.map Expr.id).Nodup) (hp : p.names = Resolution.ofUnit u)
    {qs : List Question} (hqs : ∀ q ∈ qs, q.Within u) :
    Query.Keeping (Memo.Judged p u) (fun _ => False) _ fun _ => p.askAll qs :=
  (Queries.ofDepth_judged hu hp p.depth).askAll fun q hq => (hqs q hq).asks

section Reference

variable {e : Expr} {n : String} {d : Declaration} (hk : e.kind = .name n)
  (hd : p.names.declaration? e = some d) (htype : d.type = none)
  (hkind : ∀ lambda index, d.kind ≠ .lambdaParam lambda index)

include hk hd htype hkind

theorem newBinding_reference (q : Queries) : q.newBinding p e =
    match p.names.isStable d, d.init.bind p.names.expr? with
    | true, some init => q.binding init
    | _, _ => pure .unknown := by
  have hnone : p.names.typeOf? e = none := by simp [Resolution.typeOf?, hk, hd, htype]
  cases hparam : d.kind with
  | lambdaParam lambda index => exact absurd hparam (hkind lambda index)
  | _ =>
    cases hstable : p.names.isStable d <;> cases hinit : d.init.bind p.names.expr? <;>
      simp only [Queries.newBinding, hnone, hk, Queries.nameBinding, hd, hparam, hstable, hinit]

theorem typeRule_reference (q : Queries) : q.typeRule p e =
    match p.names.isStable d, d.init.bind p.names.expr? with
    | true, some init => q.type init
    | _, _ => pure none := by
  have hnone : p.names.typeOf? e = none := by simp [Resolution.typeOf?, hk, hd, htype]
  cases hparam : d.kind with
  | lambdaParam lambda index => exact absurd hparam (hkind lambda index)
  | _ =>
    cases hstable : p.names.isStable d <;> cases hinit : d.init.bind p.names.expr? <;>
      simp only [Queries.typeRule, hk, Queries.nameType, hnone, hd, hparam, hstable, hinit]

/-- Of a reference to something that does not keep its initializer nothing is known, and no type. -/
theorem unknown_of_unstable (hu : (u.exprs.map Expr.id).Nodup) (he : e ∈ u.exprs)
    (hstable : p.names.isStable d = false) {m : Memo} (hm : m.Judged p u)
    (ho : m.inProgress = []) :
    (∃ m', p.bindingOf e m = some (.unknown, m')) ∧ p.typeOf e m = some (none, m) := by
  have hnew : ∀ q : Queries, q.newBinding p e = pure .unknown := fun q => by
    rw [newBinding_reference hk hd htype hkind, hstable]
  obtain ⟨depth, hdepth⟩ := p.exists_depth
  constructor
  · rw [bindingOf, queries, hdepth]
    show ∃ m', Queries.bindingRule p _ e m = _
    rw [Queries.bindingRule_run]
    cases hb : m.bindings[e.id]? with
    | some b =>
      obtain ⟨depth', m₁, m₂, -, -, hrun, -⟩ := hm.inferred hu he hb
      rw [hnew, Query.pure_run] at hrun
      cases hrun
      exact ⟨m, rfl⟩
    | none =>
      rw [ho, hnew]
      exact ⟨_, rfl⟩
  · rw [typeOf, queries, hdepth]
    show Queries.typeRule p _ e m = _
    rw [typeRule_reference hk hd htype hkind, hstable]
    rfl

/-- A reference to something that keeps its initializer stands for it. -/
theorem followed_of_stable (hstable : p.names.isStable d = true) {init : Expr}
    (hinit : d.init.bind p.names.expr? = some init) :
    (∀ m b m', e.id ∉ m.bindings → m.inProgress = [] → p.bindingOf e m = some (b, m') →
      p.bindingOf init m' = some (b, m')) ∧
    ∀ m r, p.typeOf e m = some r → p.typeOf init m = some r := by
  obtain ⟨depth, hdepth⟩ := p.exists_depth
  constructor
  · intro m b m' hb ho h
    have hremembered : m'.bindings[init.id]? = some b := by
      rw [bindingOf, queries, hdepth] at h
      rcases Queries.bindingRule_cases h with ⟨hb', -⟩ | ⟨hp, -⟩ | ⟨-, -, m₁, hrun, rfl⟩
      · exact absurd (Std.TreeMap.mem_iff_isSome_getElem?.2 (by simp [hb'])) hb
      · simp [ho] at hp
      · rw [newBinding_reference hk hd htype hkind, hstable, hinit] at hrun
        simp only [Memo.closing_bindings, Std.TreeMap.getElem?_insert,
          Std.LawfulEqOrd.compare_eq_iff_eq]
        split
        · rfl
        · next hne => exact Queries.bindings_of_binding hrun (by simpa [ho] using Ne.symm hne)
    rw [bindingOf, queries, hdepth]
    show Queries.bindingRule p _ init m' = _
    rw [Queries.bindingRule_run, hremembered]
  · intro m r h
    rw [typeOf, queries, hdepth] at h ⊢
    replace h : Queries.typeRule p _ e m = _ := h
    rw [typeRule_reference hk hd htype hkind, hstable, hinit] at h
    exact Queries.type_succ h

end Reference

/-- In a unit that was read from a text, let a name refer to a `val` or a `var` without a written
type. If some assignment of the unit has as its target a name with the same declaration, then
behind any questions nothing is known of the name, and it has no type. If no assignment has, the
name stands for the initializer and has its type. -/
theorem followed_unless_assigned (operations : Catalog) (text : String) (u : SourceUnit)
    (hu : SourceUnit.ofText text = .ok u) {e : Expr} (he : e ∈ u.exprs) {n : String}
    (hk : e.kind = .name n) {d : Declaration}
    (hd : (Resolution.ofUnit u).declaration? e = some d) (htype : d.type = none)
    (hkind : d.kind = .localVal ∨ d.kind = .classMember ∨ d.kind = .topLevel) :
    let p : Program := ⟨Resolution.ofUnit u, operations⟩
    (u.Assigned d → ∀ (qs : List Question) (answers : List Answer) (m : Memo),
      (∀ q ∈ qs, q.Within u) → p.askAll qs Memo.empty = some (answers, m) →
        (∃ m', p.bindingOf e m = some (.unknown, m')) ∧ p.typeOf e m = some (none, m)) ∧
    (¬u.Assigned d → ∀ init, d.init.bind (Resolution.ofUnit u).expr? = some init →
      (∀ m b m', e.id ∉ m.bindings → m.inProgress = [] → p.bindingOf e m = some (b, m') →
        p.bindingOf init m' = some (b, m')) ∧
      ∀ m r, p.typeOf e m = some r → p.typeOf init m = some r) := by
  intro p
  have hids := SourceUnit.nodup_ids_of_ofText hu
  have hparam : ∀ lambda index, d.kind ≠ .lambdaParam lambda index := fun lambda index h => by
    simp [h] at hkind
  have hstable := Resolution.isStable_iff hids hd
  constructor
  · intro hassigned qs answers m hqs hrun
    have hunstable : p.names.isStable d = false :=
      Bool.eq_false_iff.2 fun h => hstable.1 h hassigned
    obtain ⟨hm, hgrown⟩ := askAll_judged (p := p) hids rfl hqs Memo.empty answers m hrun
      (Memo.Justified.empty ..)
    exact unknown_of_unstable (p := p) hk hd htype hparam hids he hunstable hm hgrown.inProgress
  · intro hassigned init hinit
    exact followed_of_stable (p := p) hk hd htype hparam (hstable.2 hassigned) hinit

/-- Two variables with one frame, of which the second is assigned before its columns are read. -/
def assignedText : String :=
  "fun g(o: DataFrame<*>) \x7b\n    var a = dataFrameOf(\"x\" to columnOf(1))\n    var b = a\n" ++
  "    b = o\n    a.y\n    b.y\n\x7d\n"

/-- Whether a name refers to something without a type, of which the test holds. -/
def referenceTest (u : SourceUnit) (kind : DeclarationKind) (n : String)
    (test : Expr → Declaration → Bool) : Bool :=
  u.exprs.any fun e => e.name? == some n &&
    ((Resolution.ofUnit u).declaration? e).any fun d => d.type.isNone && d.kind == kind && test e d

theorem exists_of_referenceTest {u : SourceUnit} {kind : DeclarationKind} {n : String}
    {test : Expr → Declaration → Bool} (h : referenceTest u kind n test = true) :
    ∃ e ∈ u.exprs, e.kind = .name n ∧ ∃ d, (Resolution.ofUnit u).declaration? e = some d ∧
      d.type = none ∧ d.kind = kind ∧ test e d = true := by
  simp only [referenceTest, List.any_eq_true, Bool.and_eq_true, beq_iff_eq, Option.any_eq_true,
    Option.isNone_iff_eq_none] at h
  obtain ⟨e, he, hn, d, hd, ⟨htype, hkind⟩, htest⟩ := h
  exact ⟨e, he, Expr.kind_of_name? hn, d, hd, htype, hkind, htest⟩

/-- Nothing is known there of the variable that is assigned, and the other one has the frame of its
initializer. -/
theorem followed_unless_assigned_assignedText : ∃ u, SourceUnit.ofText assignedText = .ok u ∧
    (∃ e ∈ u.exprs, e.kind = .name "b" ∧ ∃ d, (Resolution.ofUnit u).declaration? e = some d ∧
      u.Assigned d ∧ (∃ m, (ofUnit u).bindingOf e Memo.empty = some (.unknown, m)) ∧
        (ofUnit u).typeOf e Memo.empty = some (none, Memo.empty)) ∧
    ∃ e ∈ u.exprs, e.kind = .name "a" ∧ ∃ d, (Resolution.ofUnit u).declaration? e = some d ∧
      ¬u.Assigned d ∧ ∃ init b m, d.init.bind (Resolution.ofUnit u).expr? = some init ∧
        b.isKnown = true ∧ (ofUnit u).bindingOf e Memo.empty = some (b, m) ∧
          (ofUnit u).bindingOf init m = some (b, m) := by
  obtain ⟨u, hu, h⟩ : ∃ u, SourceUnit.ofText assignedText = .ok u ∧
      (referenceTest u .localVal "b" (fun _ d => !(Resolution.ofUnit u).isStable d) &&
      referenceTest u .localVal "a" fun e d => (Resolution.ofUnit u).isStable d &&
        (d.init.bind (Resolution.ofUnit u).expr?).isSome &&
          ((ofUnit u).bindingOf e Memo.empty).any fun r => r.1.isKnown) = true := by
    refine SourceUnit.exists_ofText (Token.eq_ofList_append rfl rfl) ?_
    decide +kernel
  have hids := SourceUnit.nodup_ids_of_ofText hu
  rw [Bool.and_eq_true] at h
  obtain ⟨e, he, hk, d, hd, htype, hkind, htest⟩ := exists_of_referenceTest h.1
  obtain ⟨e', he', hk', d', hd', htype', hkind', htest'⟩ := exists_of_referenceTest h.2
  simp only [Bool.and_eq_true, Bool.not_eq_true', Option.any_eq_true, Option.isSome_iff_exists]
    at htest htest'
  obtain ⟨⟨hstable, init, hinit⟩, ⟨b, m⟩, hrun, hknown⟩ := htest'
  have hassigned : u.Assigned d := by
    by_contra hne
    rw [(Resolution.isStable_iff hids hd).2 hne] at htest
    cases htest
  have hassigned' := (Resolution.isStable_iff hids hd').1 hstable
  have hunknown := (followed_unless_assigned Catalog.standard assignedText u hu he hk hd htype
    (Or.inl hkind)).1 hassigned [] [] Memo.empty nofun rfl
  have hfollowed := (followed_unless_assigned Catalog.standard assignedText u hu he' hk' hd' htype'
    (Or.inl hkind')).2 hassigned' init hinit
  refine ⟨u, hu, ⟨e, he, hk, d, hd, hassigned, hunknown⟩, e', he', hk', d', hd', hassigned', init, b,
    m, hinit, hknown, hrun, hfollowed.1 Memo.empty b m ?_ rfl hrun⟩
  simp [Memo.empty]

/-- A property that a method assigns through `this`, before it reads a column of it. -/
def thisText : String :=
  "class C \x7b\n    var df = dataFrameOf(\"x\" to columnOf(1))\n" ++
  "    fun g(o: DataFrame<*>) \x7b\n        this.df = o\n        df.y\n    \x7d\n\x7d\n"

/-- The target is the member of this name of `this`. -/
def isMemberOfThis (n : String) (t : Expr) : Bool :=
  match t.kind with
  | .member ⟨_, _, .this⟩ name _ _ => name == n
  | _ => false

/-- The property is assigned, and still a reference to it stands for its initializer. -/
theorem not_unknown_thisText : ∃ u, SourceUnit.ofText thisText = .ok u ∧
    ∃ t ∈ u.targets, (∃ id span nameSpan safe, t.kind = .member ⟨id, span, .this⟩ "df" nameSpan safe) ∧
    ∃ e ∈ u.exprs, e.kind = .name "df" ∧ ∃ d, (Resolution.ofUnit u).declaration? e = some d ∧
      d.type = none ∧ d.kind = .classMember ∧ d.name = "df" ∧
        ∃ b m, (ofUnit u).bindingOf e Memo.empty = some (b, m) ∧ b ≠ .unknown := by
  obtain ⟨u, hu, h⟩ : ∃ u, SourceUnit.ofText thisText = .ok u ∧
      (u.targets.any (isMemberOfThis "df") &&
      referenceTest u .classMember "df" fun e d => d.name == "df" &&
        ((ofUnit u).bindingOf e Memo.empty).any fun r => r.1.isKnown) = true := by
    refine SourceUnit.exists_ofText (Token.eq_ofList_append rfl rfl) ?_
    decide +kernel
  rw [Bool.and_eq_true, List.any_eq_true] at h
  obtain ⟨⟨t, ht, hthis⟩, h⟩ := h
  obtain ⟨e, he, hk, d, hd, htype, hkind, htest⟩ := exists_of_referenceTest h
  simp only [Bool.and_eq_true, beq_iff_eq, Option.any_eq_true] at htest
  obtain ⟨hname, ⟨b, m⟩, hrun, hknown⟩ := htest
  refine ⟨u, hu, t, ht, ?_, e, he, hk, d, hd, htype, hkind, hname, b, m, hrun, ?_⟩
  · unfold isMemberOfThis at hthis
    split at hthis
    · next id span name nameSpan safe hkind =>
      obtain rfl := beq_iff_eq.1 hthis
      exact ⟨id, span, nameSpan, safe, hkind⟩
    · cases hthis
  · rintro rfl
    cases hknown

end Program

end FrameCheck
