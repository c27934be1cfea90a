import FrameCheck.Proofs.Inference.Dependence
import FrameCheck.Proofs.Inference.Remembered
import FrameCheck.Proofs.Marker.Histories

/-!
# Questions that are answered alike from any memo

Where neither expressions nor markers lead back to themselves, a question never meets what is in
progress, and it does not matter what is remembered : each remembered binding is the one that a
fresh memo would give (`Memo.Fresh`). From every such memo a question then has the same answer,
finds the same failure of the expression that is being inferred and builds the same markers
(`Query.Settled`). The proof is a pass over the rules, by induction on the rank of expressions.

* `Acyclic` : a program over a unit whose expressions and markers do not lead back.
* `Memo.Fresh` : the invariant of the memo.
* `Acyclic.settled` : questions for expressions are settled, at a depth that the rank bounds.
-/

namespace FrameCheck

/-- A program over the names of a unit where no expression and no marker leads back to itself. -/
structure Acyclic (p : Program) (u : SourceUnit) : Prop where
  names : p.names = Resolution.ofUnit u
  ids : (u.exprs.map Expr.id).Nodup
  exprs : ∀ e ∈ u.exprs, ¬e.Reaches p.names e
  markers : ∀ n, ¬Relation.TransGen p.names.Asks n n

/-- What is remembered of an expression is what a fresh memo gives for it, with its failure, and the
markers that it needs are remembered. -/
def FreshFor (p : Program) (u : SourceUnit) (m : Memo) (id : ExprId) (b : Binding) : Prop :=
  ∃ e ∈ u.exprs, e.id = id ∧ ∃ m₀, p.bindingOf e Memo.empty = some (b, m₀) ∧
    m.callFailures[id]? = m₀.callFailures[id]? ∧ ∀ n ∈ m₀.markers, n ∈ m.markers

theorem FreshFor.lasting (p : Program) (u : SourceUnit) : Lasting (FreshFor p u) := by
  rintro m m' id b hg hf ⟨e, he, hid, m₀, hrun, hf₀, hn⟩
  exact ⟨e, he, hid, m₀, hrun, hf.trans hf₀, fun n hn' => hg.mem_markers (hn n hn')⟩

/-- Each binding that is remembered is what a fresh memo gives. -/
abbrev Memo.Fresh (p : Program) (u : SourceUnit) (m : Memo) : Prop :=
  m.Justified p.names (FreshFor p u)

/-- What a question does to a memo : it adds the failure `f` to the expressions in `own`, if they
have none, and builds the markers in `N`. -/
structure Effect (p : Program) (u : SourceUnit) (own : ExprId → Prop) (f : Option Failure)
    (N : String → Prop) (m m' : Memo) : Prop where
  fresh : m'.Fresh p u
  grown : Extends own m m'
  failure : ∀ id, own id → m'.callFailures[id]? = (m.callFailures[id]?).or f
  built : ∀ n, n ∈ m'.markers ↔ n ∈ m.markers ∨ N n

/-- A question with a depth that has the same answer and the same effect from every memo, where
the depth is at least `k` and what is in progress is `ready` for it. -/
def Query.Settled (p : Program) (u : SourceUnit) (k : Nat) (ready : List ExprId → Prop)
    (own : ExprId → Prop) (α : Type) (x : Nat → Query α) : Prop :=
  ∃ a f N, ∀ d m, k ≤ d → m.Fresh p u → ready m.inProgress →
    ∃ m', x d m = some (a, m') ∧ Effect p u own f N m m'

/-- What is in progress are expressions that reach `e`. -/
def Expr.Awaited (p : Program) (u : SourceUnit) (e : Expr) (opened : List ExprId) : Prop :=
  ∀ x ∈ u.exprs, x.id ∈ opened → x.Reaches p.names e

/-- What is in progress are `e` itself and expressions that reach it. -/
def Expr.Opened (p : Program) (u : SourceUnit) (e : Expr) (opened : List ExprId) : Prop :=
  e.id ∈ opened ∧ ∀ x ∈ u.exprs, x.id ∈ opened → x = e ∨ x.Reaches p.names e

namespace Query.Settled

variable {p : Program} {u : SourceUnit} {k k' : Nat} {ready ready' : List ExprId → Prop}
  {own : ExprId → Prop} {α : Type}

theorem compositional (p : Program) (u : SourceUnit) (k : Nat) (ready : List ExprId → Prop)
    (own : ExprId → Prop) : Compositional (Query.Settled p u k ready own) where
  answer a := ⟨a, none, fun _ => False, fun d m _ hm _ => ⟨m, rfl, hm, Extends.refl _ _,
    fun id _ => by rw [Option.or_none], by simp⟩⟩
  next := by
    rintro α β x g ⟨a, f, N, hx⟩ hg
    obtain ⟨b, f', N', hg⟩ := hg a
    refine ⟨b, f.or f', fun n => N n ∨ N' n, fun d m hd hm hr => ?_⟩
    obtain ⟨m', hrun, he⟩ := hx d m hd hm hr
    obtain ⟨m'', hrun', he'⟩ := hg d m' hd he.fresh (he.grown.inProgress ▸ hr)
    refine ⟨m'', Query.bind_eq_some.2 ⟨a, m', hrun, hrun'⟩, he'.fresh, he.grown.trans he'.grown,
      fun id hid => ?_, fun n => ?_⟩
    · rw [he'.failure id hid, he.failure id hid, Option.or_assoc]
    · rw [he'.built, he.built, or_assoc]

/-- A question that is not about expressions in progress leaves their failures. -/
theorem mono {x : Nat → Query α} (h : Query.Settled p u k ready (fun _ => False) α x)
    (hk : k ≤ k') (hr : ∀ o, ready' o → ready o) (hown : ∀ o, ready' o → ∀ id, own id → id ∈ o) :
    Query.Settled p u k' ready' own α x := by
  obtain ⟨a, f, N, h⟩ := h
  refine ⟨a, none, N, fun d m hd hm hrm => ?_⟩
  obtain ⟨m', hrun, he⟩ := h d m (Nat.le_trans hk hd) hm (hr _ hrm)
  refine ⟨m', hrun, he.fresh, he.grown.mono fun _ => False.elim, fun id hid => ?_, he.built⟩
  rw [Option.or_none]
  exact he.grown.unfailed not_false (Or.inl (hown _ hrm id hid))

/-- A question that goes one step deeper. -/
theorem deeper {x y : Nat → Query α} (h : Query.Settled p u k ready own α x)
    (hy : ∀ d, y (d + 1) = x d) : Query.Settled p u (k + 1) ready own α y := by
  obtain ⟨a, f, N, h⟩ := h
  refine ⟨a, f, N, fun d m hd hm hr => ?_⟩
  obtain ⟨d, rfl⟩ : ∃ d', d = d' + 1 := ⟨d - 1, by omega⟩
  rw [hy]
  exact h d m (by omega) hm hr

end Query.Settled

/-! ## The questions -/

namespace Acyclic

variable {p : Program} {u : SourceUnit} (h : Acyclic p u)

include h

theorem not_mutual (a b : String) : ¬p.names.Mutual a b := by
  rintro ⟨hab, hl, hl'⟩
  obtain ⟨c, hac, hcb⟩ := (Relation.ReflTransGen.cases_head hl).resolve_left hab
  exact h.markers a (Relation.TransGen.head' hac (hcb.trans hl'))

/-- The schema of a marker is settled, and the markers that it leads to are built for it. -/
theorem markerSchema (k : Nat) (ready : List ExprId → Prop) (own : ExprId → Prop) (n : String) :
    Query.Settled p u k ready own _ fun _ => p.markerSchema n := by
  obtain ⟨A₀, m₀, -, hans₀⟩ := p.markerSchema_run (Builds.empty p.names fun _ => []) rfl n
  refine ⟨m₀.markers[n]?, none, fun k => (p.names.marker? n).isSome ∧ p.names.Leads n k,
    fun d m _ hm _ => ?_⟩
  obtain ⟨A, hA⟩ := hm.steady.builds
  have ho := hm.steady.openMarkers
  obtain ⟨A', m', hrun, hans⟩ := p.markerSchema_run hA ho n
  have hg := hans.grown
  have ho' := hg.openMarkers.trans ho
  have heq := Program.answer_eq_of_not_mutual (fun a b _ => h.not_mutual a b) ho rfl hans hans₀
  refine ⟨m', heq ▸ hrun, hm.grown (FreshFor.lasting p u) hg ⟨ho', A', hans.builds⟩,
    Extends.of_grown hg, fun id _ => ?_, fun k => ⟨fun hk => ?_, ?_⟩⟩
  · rw [hg.callFailures, Option.or_none]
  · by_cases hkm : k ∈ m.markers
    · exact Or.inl hkm
    · have hnk := hans.under hkm hk
      have hnm := (hans.builds.known hk hnk).resolve_right (by simp [ho'])
      exact Or.inr ⟨hans.builds.isSome_of_mem hnm, hans.builds.leads hk hnk⟩
  · rintro (hk | ⟨hn, hk⟩)
    · exact hg.mem hk
    · exact hans.builds.mem_of_leads ho' hk (hans.mem ho' hn)

omit h in
/-- What is applied in the call in progress is settled, with the failure of its operation. -/
theorem applied (k : Nat) (e : Expr) (rule : OperationRule) (operation : OperationCall) :
    Query.Settled p u k (e.Opened p u) (· = e.id) _ fun _ => Queries.applied e rule operation := by
  obtain ⟨b, hrun⟩ := Queries.applied_run e rule operation
  refine ⟨b, rule.failure? e.span operation, fun _ => False, fun d m _ hm hr => ⟨_, hrun m,
    hm.recording (FreshFor.lasting p u) hr.1 _, Extends.recording _ _ _, fun id hid => ?_,
    fun n => ?_⟩⟩
  · rw [Memo.recording_callFailures, if_pos hid.symm]
  · rw [or_false]
    cases rule.failure? e.span operation <;> rfl

theorem not_mem_of_awaited {e : Expr} (he : e ∈ u.exprs) {opened : List ExprId}
    (hr : e.Awaited p u opened) : e.id ∉ opened := fun hid => h.exprs e he (hr e he hid)

/-- What is not remembered is inferred, and has no failure before. -/
theorem infer {e : Expr} (he : e ∈ u.exprs) {k d : Nat} {b : Binding} {f : Option Failure}
    {N : String → Prop}
    (hnew : ∀ d m, k ≤ d → m.Fresh p u → e.Opened p u m.inProgress → ∃ m',
      (Queries.ofDepth p d).newBinding p e m = some (b, m') ∧ Effect p u (· = e.id) f N m m')
    {m : Memo} (hd : k ≤ d) (hm : m.Fresh p u) (hr : e.Awaited p u m.inProgress)
    (hb : e.id ∉ m.bindings) : ∃ m₁,
      (Queries.ofDepth p (d + 1)).binding e m = some (b, m₁.closing e.id b) ∧
        Effect p u (· = e.id) f N (m.opening e.id) m₁ ∧ m₁.callFailures[e.id]? = f := by
  have hidle := h.not_mem_of_awaited he hr
  have hopened : e.Opened p u (m.opening e.id).inProgress := by
    refine ⟨List.mem_cons_self .., fun x hx hid => ?_⟩
    rcases List.mem_cons.1 hid with hid | hid
    · exact Or.inl (SourceUnit.eq_of_id_eq h.ids hx he hid)
    · exact Or.inr (hr x hx hid)
  obtain ⟨m₁, hrun, heffect⟩ :=
    hnew d (m.opening e.id) hd (hm.opening (FreshFor.lasting p u) hb) hopened
  refine ⟨m₁, ?_, heffect, ?_⟩
  · show Queries.bindingRule p _ e m = _
    rw [Queries.bindingRule_run, Std.TreeMap.getElem?_eq_none hb]
    simp only [if_neg hidle, hrun, Option.map_some]
  · rw [heffect.failure e.id rfl, Memo.opening_callFailures,
      Std.TreeMap.getElem?_eq_none (hm.not_mem_callFailures hb hidle), Option.none_or]

/-- The binding of an expression is settled if what its rule says is. -/
theorem binding {e : Expr} (he : e ∈ u.exprs) {k : Nat} (hk : k < p.depth)
    (hnew : Query.Settled p u k (e.Opened p u) (· = e.id) Binding
      fun d => (Queries.ofDepth p d).newBinding p e) :
    Query.Settled p u (k + 1) (e.Awaited p u) (fun _ => False) Binding
      fun d => (Queries.ofDepth p d).binding e := by
  obtain ⟨b, f, N, hnew⟩ := hnew
  obtain ⟨D, hD⟩ : ∃ D, p.depth = D + 1 := ⟨p.depth - 1, by omega⟩
  obtain ⟨m₀, hrun₀, heffect₀, hf₀⟩ := h.infer he (d := D) (m := Memo.empty) hnew (by omega)
    (Memo.Justified.empty ..) (fun x _ hx => by simp [Memo.empty] at hx) (by simp [Memo.empty])
  have hfresh : p.bindingOf e Memo.empty = some (b, m₀.closing e.id b) := by
    rw [Program.bindingOf, Program.queries, hD]
    exact hrun₀
  have hbuilt₀ : ∀ n, n ∈ (m₀.closing e.id b).markers ↔ N n := fun n => by
    refine (heffect₀.built n).trans ?_
    simp [Memo.opening, Memo.empty]
  refine ⟨b, none, N, fun d m hd hm hr => ?_⟩
  obtain ⟨d, rfl⟩ : ∃ d', d = d' + 1 := ⟨d - 1, by omega⟩
  by_cases hb : e.id ∈ m.bindings
  · obtain ⟨x, hx, hid, m₀', hrun', -, hn⟩ :=
      hm.cached (Std.TreeMap.getElem?_eq_some_getElem hb)
    obtain rfl := SourceUnit.eq_of_id_eq h.ids hx he hid
    have heq := Option.some.inj (hfresh.symm.trans hrun')
    refine ⟨m, ?_, hm, Extends.refl _ _, fun _ => False.elim, fun n => ⟨Or.inl, ?_⟩⟩
    · show Queries.bindingRule p _ x m = _
      rw [Queries.bindingRule_run, Std.TreeMap.getElem?_eq_some_getElem hb, ← (Prod.mk.inj heq).1]
    · rintro (hnm | hN)
      · exact hnm
      · exact hn n ((Prod.mk.inj heq).2 ▸ (hbuilt₀ n).2 hN)
  · obtain ⟨m₁, hrun, heffect, hf⟩ := h.infer he (d := d) hnew (by omega) hm hr hb
    have hidle := h.not_mem_of_awaited he hr
    refine ⟨_, hrun, ?_, Queries.extends_of_newBinding hb hidle heffect.grown,
      fun _ => False.elim, heffect.built⟩
    exact heffect.fresh.closing (FreshFor.lasting p u) heffect.grown.inProgress hidle
      ⟨e, he, rfl, _, hfresh, hf.trans hf₀.symm, fun n hn =>
        (heffect.built n).2 (Or.inr ((hbuilt₀ n).1 hn))⟩

/-- The rules for `e` may ask for what it reaches, if that is settled, while all that is in
progress reaches `e` or is `e`. -/
theorem admits {e : Expr} {k : Nat} {ready : List ExprId → Prop} {own : ExprId → Prop}
    (hown : ∀ o, ready o → ∀ id, own id → id ∈ o)
    (hready : ∀ o, ready o → ∀ x ∈ u.exprs, x.id ∈ o → x = e ∨ x.Reaches p.names e)
    (hk : 2 * u.rank e ≤ k)
    (ih : ∀ x ∈ u.exprs, u.rank x < u.rank e →
      (Query.Settled p u (2 * u.rank x + 1) (x.Awaited p u) (fun _ => False) _
        fun d => (Queries.ofDepth p d).binding x) ∧
      Query.Settled p u (2 * u.rank x + 2) (x.Awaited p u) (fun _ => False) _
        fun d => (Queries.ofDepth p d).type x) :
    Admits (Query.Settled p u k ready own) p (Queries.ofDepth p)
      fun x => x ∈ u.exprs ∧ e.Reaches p.names x :=
  have hlt : ∀ {x}, x ∈ u.exprs → e.Reaches p.names x → u.rank x < u.rank e := fun hx hex =>
    SourceUnit.rank_lt hx (h.names ▸ hex) (h.names ▸ h.exprs _ hx)
  have hawaited : ∀ {x}, e.Reaches p.names x → ∀ o, ready o → x.Awaited p u o :=
    fun hex o ho y hy hid => by
      rcases hready o ho y hy hid with rfl | hye
      · exact hex
      · exact hye.trans hex
  { Query.Settled.compositional p u k ready own with
    binding := fun {x} ⟨hx, hex⟩ =>
      (ih x hx (hlt hx hex)).1.mono (by have := hlt hx hex; omega) (hawaited hex) hown
    type := fun {x} ⟨hx, hex⟩ =>
      (ih x hx (hlt hx hex)).2.mono (by have := hlt hx hex; omega) (hawaited hex) hown
    schema := h.markerSchema k ready own }

/-- Questions for an expression are settled, while all that is in progress reaches it. -/
theorem settled (e : Expr) (he : e ∈ u.exprs) :
    (Query.Settled p u (2 * u.rank e + 1) (e.Awaited p u) (fun _ => False) _
      fun d => (Queries.ofDepth p d).binding e) ∧
    Query.Settled p u (2 * u.rank e + 2) (e.Awaited p u) (fun _ => False) _
      fun d => (Queries.ofDepth p d).type e := by
  have ih : ∀ x ∈ u.exprs, u.rank x < u.rank e → _ := fun x hx _ => settled x hx
  have hcovered := SourceUnit.covered h.ids h.names he
  have hdepth := SourceUnit.rank_le_depth h.ids h.names e
  have hopened : Admits (Query.Settled p u (2 * u.rank e) (e.Opened p u) (· = e.id)) p
      (Queries.ofDepth p) _ :=
    h.admits (fun o ho id (hid : id = e.id) => hid ▸ ho.1) (fun o ho => ho.2) (Nat.le_refl _) ih
  have hawaited : Admits (Query.Settled p u (2 * u.rank e + 1) (e.Awaited p u) fun _ => False) p
      (Queries.ofDepth p) _ :=
    h.admits (fun _ _ _ => False.elim) (fun o ho x hx hid => Or.inr (ho x hx hid))
      (Nat.le_succ _) ih
  have hbinding := h.binding he (by omega)
    (hopened.newBinding hcovered fun _ _ _ _ _ => applied _ e)
  exact ⟨hbinding, (hawaited.typeRule hcovered hbinding).deeper fun d => rfl⟩
termination_by u.rank e

end Acyclic

end FrameCheck
