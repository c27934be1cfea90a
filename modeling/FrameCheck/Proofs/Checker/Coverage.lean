import FrameCheck.Checker.Basic
import FrameCheck.Proofs.Checker.Places
import FrameCheck.Proofs.Inference.Ending
import FrameCheck.Proofs.Inference.Failing

/-!
# What the checker finds

The checker finds an unknown column at exactly those expressions that read a column which their
receiver does not have, and it infers each call, so that the failures that are recorded are those
of all calls of the unit. What it finds at a place stays true of the memo that it leaves, for what
is remembered is never lost.

* `Program.Misses` : an expression reads a column that its receiver does not have.
* `Program.visitAll_run` : what is found at places, as it follows from the memo behind them.
* `Program.findings_of_unit` : what is found in a unit.
-/

namespace FrameCheck

/-! ## Unknown columns -/

namespace Program

variable (p : Program) (limit : Nat) (u : SourceUnit) (m : Memo)

/-- The expression reads a column that its receiver does not have, as far as the memo knows, and
`f` tells so. A member must not start a call, nor be a member property or an extension property. -/
def Misses (e : Expr) (f : Finding) : Prop :=
  ∃ receiver name indexed shape schema origin, e.Reads receiver name indexed ∧
    p.bindingOf receiver m = some (.known shape schema origin, m) ∧ shape ≠ .groupBy ∧
    name ∉ schema.names ∧
    (indexed = false → ¬u.Calls e ∧ shape.hasMember name = false ∧
      p.names.extensionProperty? name = none) ∧
    f = ⟨.unknownColumn, e.span, unknownColumnMessage limit name
      (Binding.known shape schema origin).describe schema.names⟩

/-- The unknown column that is found where the receiver has this binding. -/
def unknownIn? (access : Expr) (name : String) (indexed : Bool) : Binding → Option Finding
  | .unknown => none
  | .known shape schema origin =>
    if (!indexed && p.readsMember shape name) || shape == .groupBy || schema.contains name then
      none
    else some ⟨.unknownColumn, access.span, unknownColumnMessage limit name
      (Binding.known shape schema origin).describe schema.names⟩

/-- The unknown column at a place, as far as the memo knows. -/
def unknownAt? : Visit → Option Finding
  | .column access receiver name indexed =>
    (m.bindings[receiver.id]?).bind (p.unknownIn? limit access name indexed)
  | _ => none

end Program

namespace Visit

/-- The expressions that a place is about. -/
def exprs : Visit → List Expr
  | .marker _ => []
  | .call e => [e]
  | .column access receiver _ _ => [access, receiver]

/-- The expression that is inferred at a place. -/
def inferred? : Visit → Option Expr
  | .marker _ => none
  | .call e => some e
  | .column _ receiver _ _ => some receiver

end Visit

/-! ## The questions of the checker -/

namespace Admits

variable {ι : Type} {P : (α : Type) → (ι → Query α) → Prop} {p : Program} {A : Expr → Prop}
  (h : Admits P p (fun _ => p.queries) A)

include h

theorem typeFindings {access : Expr} (ha : A access) (column : Column) :
    P _ fun _ => p.typeFindings access column := by
  simp only [Program.typeFindings]
  cases p.names.expected? access with
  | none => exact h.answer _
  | some expected =>
    refine h.next (h.type ha) fun t => ?_
    cases t with
    | none => exact h.answer _
    | some actual =>
      simp only
      split <;> exact h.answer _

theorem visitFindings (options : CheckerOptions) {v : Visit} (hv : ∀ e ∈ v.exprs, A e) :
    P _ fun _ => p.visitFindings options v := by
  cases v with
  | marker c => exact h.next (h.schema c.name) fun _ => h.answer _
  | call e => exact h.next (h.binding (hv e (by simp [Visit.exprs]))) fun _ => h.answer _
  | column access receiver name indexed =>
    refine h.next (h.binding (hv receiver (by simp [Visit.exprs]))) fun b => ?_
    cases b with
    | unknown =>
      simp only
      split <;> exact h.answer _
    | known shape schema origin =>
      simp only
      split
      · exact h.answer _
      · cases schema.lookup? name with
        | none => exact h.answer _
        | some column => exact h.typeFindings (hv access (by simp [Visit.exprs])) column

theorem visitAll (options : CheckerOptions) : ∀ {vs : List Visit},
    (∀ v ∈ vs, ∀ e ∈ v.exprs, A e) → P _ fun _ => p.visitAll options vs
  | [], _ => h.answer []
  | v :: vs, hvs => by
    refine h.next (h.visitFindings options (hvs v (by simp))) fun found => ?_
    exact h.map (visitAll options fun w hw => hvs w (by simp [hw])) _

end Admits

/-! ## What is found at places -/

namespace Program

variable {p : Program} {options : CheckerOptions} {u : SourceUnit} {m m' : Memo}

/-- Of a column that is there at most its type is found, at the access. -/
theorem typeFindings_cases {access : Expr} {column : Column} {found : List Finding}
    (h : p.typeFindings access column m = some (found, m')) :
    found = [] ∨ ∃ message, found = [⟨.columnTypeMismatch, access.span, message⟩] := by
  simp only [typeFindings] at h
  cases he : p.names.expected? access with
  | none =>
    simp only [he] at h
    cases h
    exact Or.inl rfl
  | some expected =>
    simp only [he] at h
    obtain ⟨t, m₁, -, h⟩ := Query.bind_eq_some.1 h
    cases t with
    | none =>
      cases h
      exact Or.inl rfl
    | some actual =>
      simp only at h
      split at h
      · cases h
        exact Or.inl rfl
      · cases h
        exact Or.inr ⟨_, rfl⟩

theorem typeFindings_filter {access : Expr} {column : Column} {found : List Finding}
    (h : p.typeFindings access column m = some (found, m')) :
    found.filter (·.code = .unknownColumn) = [] := by
  rcases typeFindings_cases h with rfl | ⟨message, rfl⟩ <;> rfl

theorem shadowFindings_filter (c : ClassDecl) :
    c.shadowFindings.filter (·.code = .unknownColumn) = [] := by
  simp only [ClassDecl.shadowFindings, List.filter_eq_nil_iff, List.mem_filterMap,
    Option.map_eq_some_iff]
  rintro f ⟨q, -, owner, -, rfl⟩
  simp

/-- What is known at a place stays so while the memo grows. -/
theorem unknownAt?_grows {limit : Nat} {v : Visit} (hg : m.Grows m')
    (hv : ∀ e ∈ v.inferred?, e.id ∈ m.bindings) :
    p.unknownAt? limit m' v = p.unknownAt? limit m v := by
  cases v with
  | column access receiver name indexed =>
    have hb := Std.TreeMap.getElem?_eq_some_getElem (hv receiver rfl)
    simp only [unknownAt?, hb, hg.bindings hb]
  | _ => rfl

theorem untrackedFindings_filter (access receiver : Expr) (name : String) :
    (p.untrackedFindings access receiver name).filter (·.code = .unknownColumn) = [] := by
  unfold untrackedFindings
  split <;> rfl

/-- What is found where a column is read is found at the access, and it is an error only where
something is known of the receiver. -/
theorem columnFindings_span {access receiver : Expr} {name : String} {indexed : Bool}
    {found : List Finding}
    (h : p.columnFindings options access receiver name indexed m = some (found, m')) :
    ∃ b m₁, p.bindingOf receiver m = some (b, m₁) ∧
      ∀ f ∈ found, f.span = access.span ∧ (f.code.severity = .error → b.isKnown = true) := by
  obtain ⟨b, m₁, hb, h⟩ := Query.bind_eq_some.1 h
  refine ⟨b, m₁, hb, fun f hf => ?_⟩
  cases b with
  | unknown =>
    simp only at h
    split at h
    · cases h
      unfold untrackedFindings at hf
      split at hf
      · rw [List.mem_singleton.1 hf]
        exact ⟨rfl, nofun⟩
      · cases hf
    · cases h
      cases hf
  | known shape schema origin =>
    refine ⟨?_, fun _ => rfl⟩
    simp only at h
    split at h
    · cases h
      cases hf
    · cases hl : schema.lookup? name with
      | some column =>
        simp only [hl] at h
        rcases typeFindings_cases h with rfl | ⟨message, rfl⟩
        · cases hf
        · rw [List.mem_singleton.1 hf]
      | none =>
        simp only [hl] at h
        cases h
        rw [List.mem_singleton.1 hf]

/-- Where a column is read, the receiver is inferred, and perhaps the type of the access. -/
theorem columnFindings_run {access receiver : Expr} {name : String} {indexed : Bool}
    {found : List Finding}
    (h : p.columnFindings options access receiver name indexed m = some (found, m')) :
    ∃ b m₁, p.bindingOf receiver m = some (b, m₁) ∧
      (m₁ = m' ∨ ∃ column, p.typeFindings access column m₁ = some (found, m')) ∧
      found.filter (·.code = .unknownColumn) =
        (p.unknownIn? options.maxSuggestionDistance access name indexed b).toList := by
  obtain ⟨b, m₁, hb, h⟩ := Query.bind_eq_some.1 h
  refine ⟨b, m₁, hb, ?_⟩
  cases b with
  | unknown =>
    simp only at h
    split at h
    · cases h
      exact ⟨Or.inl rfl, untrackedFindings_filter access receiver name⟩
    · cases h
      exact ⟨Or.inl rfl, rfl⟩
  | known shape schema origin =>
    simp only [unknownIn?]
    by_cases hread : ((!indexed && p.readsMember shape name) || shape == .groupBy) = true
    · simp only [hread, Bool.true_or, if_true] at h ⊢
      cases h
      exact ⟨Or.inl rfl, rfl⟩
    · rw [Bool.not_eq_true] at hread
      cases hl : schema.lookup? name with
      | none =>
        simp only [hread, hl, Schema.contains, Option.isSome_none, Bool.false_or] at h ⊢
        cases h
        exact ⟨Or.inl rfl, rfl⟩
      | some column =>
        simp only [hread, hl, Schema.contains, Option.isSome_some, Bool.or_true, if_true] at h ⊢
        exact ⟨Or.inr ⟨column, h⟩, typeFindings_filter h⟩

/-- Behind the place the receiver is remembered as it was inferred there. -/
theorem bindings_of_columnFindings {access receiver : Expr} {name : String} {indexed : Bool}
    {found : List Finding} {b : Binding} {m₁ : Memo} (ho : m.inProgress = [])
    (hm : m.Steady p.names) (hb : p.bindingOf receiver m = some (b, m₁))
    (h : p.columnFindings options access receiver name indexed m = some (found, m')) :
    m'.bindings[receiver.id]? = some b := by
  have hbound := Queries.bindings_of_binding hb (by simp [ho])
  obtain ⟨b', m₂, hb', hrest, -⟩ := columnFindings_run h
  cases hb.symm.trans hb'
  rcases hrest with rfl | ⟨column, htype⟩
  · exact hbound
  · have hextends := Queries.ofDepth_extending p p.depth fun _ => False
    have hm₁ := (hextends.binding trivial m b m₁ hb hm).1
    exact (hextends.typeFindings trivial column m₁ found m' htype hm₁).2.bindings hbound

/-- At one place exactly the unknown column is found that the memo behind it knows of, and what
the place is about is inferred. -/
theorem visitFindings_run {v : Visit} {found : List Finding} (ho : m.inProgress = [])
    (hm : m.Steady p.names) (h : p.visitFindings options v m = some (found, m')) :
    (∀ e ∈ v.inferred?, e.id ∈ m'.bindings) ∧
      found.filter (·.code = .unknownColumn) =
        (p.unknownAt? options.maxSuggestionDistance m' v).toList := by
  cases v with
  | marker c =>
    obtain ⟨_, m₁, -, h⟩ := Query.bind_eq_some.1 h
    cases h
    exact ⟨by simp [Visit.inferred?], shadowFindings_filter c⟩
  | call e =>
    obtain ⟨b, m₁, hb, h⟩ := Query.bind_eq_some.1 h
    cases h
    refine ⟨fun x hx => ?_, rfl⟩
    cases hx
    have hbound := Queries.bindings_of_binding hb (by simp [ho])
    exact Std.TreeMap.mem_iff_isSome_getElem?.2 (Option.isSome_of_eq_some hbound)
  | column access receiver name indexed =>
    obtain ⟨b, m₁, hb, -, hfilter⟩ := columnFindings_run h
    have hbound := bindings_of_columnFindings ho hm hb h
    refine ⟨fun x hx => ?_, ?_⟩
    · cases hx
      exact Std.TreeMap.mem_iff_isSome_getElem?.2 (Option.isSome_of_eq_some hbound)
    · rw [unknownAt?, hbound, Option.bind_some, hfilter]

/-- All along the places of a list the same is found as the memo behind them knows of. -/
theorem visitAll_run : ∀ {vs : List Visit} {m : Memo} {found : List Finding},
    m.inProgress = [] → m.Steady p.names → p.visitAll options vs m = some (found, m') →
      (∀ v ∈ vs, ∀ e ∈ v.inferred?, e.id ∈ m'.bindings) ∧
        found.filter (·.code = .unknownColumn) =
          vs.filterMap (p.unknownAt? options.maxSuggestionDistance m')
  | [], m, found, _, _, h => by
    cases h
    exact ⟨by simp, rfl⟩
  | v :: vs, m, found, ho, hm, h => by
    obtain ⟨f, m₁, hfirst, h⟩ := Query.bind_eq_some.1 h
    obtain ⟨fs, m₂, hrest, h⟩ := Query.bind_eq_some.1 h
    cases h
    have hextends := Queries.ofDepth_extending p p.depth fun _ => False
    obtain ⟨hm₁, hgrown⟩ := hextends.visitFindings options (fun _ _ => trivial) m f m₁ hfirst hm
    obtain ⟨-, hgrown'⟩ :=
      hextends.visitAll options (fun _ _ _ _ => trivial) m₁ fs m' hrest hm₁
    obtain ⟨hinferred, hfilter⟩ := visitFindings_run ho hm hfirst
    obtain ⟨hinferred', hfilter'⟩ := visitAll_run (hgrown.inProgress.trans ho) hm₁ hrest
    refine ⟨fun w hw x hx => ?_, ?_⟩
    · rcases List.mem_cons.1 hw with rfl | hw
      · exact hgrown'.mem_bindings (hinferred x hx)
      · exact hinferred' w hw x hx
    · rw [List.filter_append, hfilter, hfilter', ← unknownAt?_grows hgrown'.grows hinferred,
        List.filterMap_cons]
      cases p.unknownAt? options.maxSuggestionDistance m' v <;> rfl

/-! ## What is found in a unit -/

variable {limit : Nat}

/-- What is remembered is what inference answers. -/
theorem bindingOf_eq_some_iff (ho : m.inProgress = []) {e : Expr} {b : Binding} :
    p.bindingOf e m = some (b, m) ↔ m.bindings[e.id]? = some b := by
  constructor
  · intro h
    exact Queries.bindings_of_binding h (by simp [ho])
  · intro h
    have hpos : 0 < p.depth := Nat.mul_pos (by omega) (by omega)
    obtain ⟨D, hD⟩ : ∃ D, p.depth = D + 1 := ⟨p.depth - 1, by omega⟩
    rw [bindingOf, queries, hD]
    show Queries.bindingRule p _ e m = _
    rw [Queries.bindingRule_run, h]

theorem unknownIn?_eq_some_iff {access : Expr} {name : String} {indexed : Bool} {b : Binding}
    {f : Finding} : p.unknownIn? limit access name indexed b = some f ↔
      ∃ shape schema origin, b = .known shape schema origin ∧ shape ≠ .groupBy ∧
        name ∉ schema.names ∧
        (indexed = false → shape.hasMember name = false ∧ p.names.extensionProperty? name = none) ∧
        f = ⟨.unknownColumn, access.span, unknownColumnMessage limit name
          (Binding.known shape schema origin).describe schema.names⟩ := by
  cases b with
  | unknown => simp [unknownIn?]
  | known shape schema origin =>
    simp only [unknownIn?, readsMember, Schema.contains, Schema.mem_names,
      Option.ite_none_left_eq_some, Option.some.injEq, Bool.or_eq_true, Bool.and_eq_true,
      Bool.not_eq_true', beq_iff_eq]
    constructor
    · rintro ⟨h, rfl⟩
      obtain ⟨hread, hname⟩ := not_or.1 h
      obtain ⟨hread, hshape⟩ := not_or.1 hread
      exact ⟨shape, schema, origin, rfl, hshape, hname, fun hi => by simpa [hi] using hread, rfl⟩
    · rintro ⟨_, _, _, heq, hshape, hname, hread, rfl⟩
      cases heq
      refine ⟨?_, rfl⟩
      rintro ((⟨hi, h⟩ | h) | h)
      · simp [hread hi] at h
      · exact hshape h
      · exact hname h

/-- Where an expression of a unit occurs, exactly the column that it misses is unknown. -/
theorem mem_unknownAt?_places (hu : (u.exprs.map Expr.id).Nodup) (ho : m.inProgress = [])
    {e : Expr} {called : Bool} (hc : (e, called) ∈ u.occurrences) {f : Finding} :
    f ∈ (e.places called).filterMap (p.unknownAt? limit m) ↔ p.Misses limit u m e f := by
  have hcalled : called = false ↔ ¬u.Calls e := by
    cases called with
    | false => exact iff_of_true rfl ((SourceUnit.mem_occurrences_false hu).1 hc).2
    | true => exact iff_of_false (by simp) (not_not.2 (SourceUnit.mem_occurrences_true.1 hc))
  simp only [List.mem_filterMap, Expr.mem_places]
  constructor
  · rintro ⟨v, ⟨rfl, -⟩ | ⟨receiver, name, indexed, hreads, hplain, rfl⟩, hf⟩
    · cases hf
    · obtain ⟨b, hb, hf⟩ := Option.bind_eq_some_iff.1 hf
      obtain ⟨shape, schema, origin, rfl, hshape, hname, hmember, rfl⟩ :=
        unknownIn?_eq_some_iff.1 hf
      exact ⟨receiver, name, indexed, shape, schema, origin, hreads,
        (bindingOf_eq_some_iff ho).2 hb, hshape, hname,
        fun hi => ⟨hcalled.1 (hplain hi), hmember hi⟩, rfl⟩
  · rintro ⟨receiver, name, indexed, shape, schema, origin, hreads, hb, hshape, hname, hmember,
      rfl⟩
    refine ⟨_, Or.inr ⟨receiver, name, indexed, hreads, fun hi => hcalled.2 (hmember hi).1, rfl⟩,
      Option.bind_eq_some_iff.2 ⟨_, (bindingOf_eq_some_iff ho).1 hb, ?_⟩⟩
    exact unknownIn?_eq_some_iff.2 ⟨shape, schema, origin, rfl, hshape, hname,
      fun hi => (hmember hi).2, rfl⟩

end Program

/-- Where each element of a list gives one result at most, the results belong to the elements that
give any. -/
theorem forall₂_filter_flatMap {α β : Type} {g : α → List β} : ∀ {l : List α},
    (∀ a ∈ l, (g a).length ≤ 1) →
      List.Forall₂ (fun a b => a ∈ l ∧ b ∈ g a) (l.filter fun a => !(g a).isEmpty) (l.flatMap g)
  | [], _ => List.Forall₂.nil
  | a :: l, h => by
    have ih := (forall₂_filter_flatMap (l := l) fun b hb => h b (by simp [hb])).imp
      fun b c hbc => And.imp_left (List.mem_cons_of_mem a) hbc
    match hg : g a, h a (by simp) with
    | [], _ => simpa [hg] using ih
    | [b], _ =>
      simp only [List.filter_cons, List.flatMap_cons, hg, List.isEmpty_cons, Bool.not_false,
        if_true, List.singleton_append]
      exact ih.cons ⟨by simp, by simp [hg]⟩

namespace Program

variable {p : Program} {options : CheckerOptions} {u : SourceUnit} {m m' : Memo} {limit : Nat}

/-- The unknown columns at the places of a unit are those that its expressions miss. -/
theorem oneEach_misses (hu : (u.exprs.map Expr.id).Nodup) (ho : m.inProgress = []) :
    u.OneEach (p.Misses limit u m) (u.visits.filterMap (p.unknownAt? limit m)) := by
  let missed : Occurrence → List Finding :=
    fun c => (c.1.places c.2).filterMap (p.unknownAt? limit m)
  have hmissed : ∀ c ∈ u.occurrences, ∀ f, f ∈ missed c ↔ p.Misses limit u m c.1 f :=
    fun c hc f => mem_unknownAt?_places hu ho hc
  have hperm : (u.visits.filterMap (p.unknownAt? limit m)).Perm (u.occurrences.flatMap missed) := by
    refine (u.visits_perm.filterMap _).trans (List.Perm.of_eq ?_)
    rw [List.filterMap_append, List.filterMap_map, List.filterMap_flatMap]
    simp [unknownAt?, Function.comp_def, missed]
  let nodes := (u.occurrences.filter fun c => !(missed c).isEmpty).map Prod.fst
  have hnodes : List.Forall₂ (p.Misses limit u m) nodes (u.occurrences.flatMap missed) := by
    refine List.forall₂_map_left_iff.2 ((forall₂_filter_flatMap fun c _ => ?_).imp ?_)
    · exact Nat.le_trans (List.length_filterMap_le ..) (c.1.length_places_le c.2)
    · exact fun c f h => (hmissed c h.1 f).1 h.2
  have hmem : ∀ e, e ∈ nodes ↔ e ∈ u.exprs ∧ ∃ f, p.Misses limit u m e f := by
    intro e
    simp only [nodes, List.mem_map, List.mem_filter, Bool.not_eq_true',
      List.isEmpty_eq_false_iff_exists_mem, u.occurrences_perm.mem_iff]
    constructor
    · rintro ⟨c, ⟨hc, f, hf⟩, rfl⟩
      exact ⟨⟨c, hc, rfl⟩, f, (hmissed c hc f).1 hf⟩
    · rintro ⟨⟨c, hc, rfl⟩, f, hf⟩
      exact ⟨c, ⟨hc, f, (hmissed c hc f).2 hf⟩, rfl⟩
  have hnodup : nodes.Nodup :=
    List.Nodup.sublist (List.Sublist.map _ List.filter_sublist) (SourceUnit.nodup_occurrences hu)
  -- The nodes are put into the order in which they are visited.
  obtain ⟨nodes', hforall, hperm'⟩ := List.perm_comp_forall₂ hperm
    (List.Forall₂.flip (R := flip (p.Misses limit u m)) hnodes)
  exact ⟨nodes', hperm'.nodup_iff.2 hnodup, fun e => hperm'.mem_iff.trans (hmem e), hforall.flip⟩

/-- The places of a unit are about expressions of the unit. -/
theorem mem_exprs_of_mem_visits {v : Visit} (hv : v ∈ u.visits) {e : Expr} (he : e ∈ v.exprs) :
    e ∈ u.exprs := by
  rcases List.mem_append.1 (u.visits_perm.mem_iff.1 hv) with hv | hv
  · obtain ⟨c, -, rfl⟩ := List.mem_map.1 hv
    simp [Visit.exprs] at he
  · obtain ⟨⟨x, called⟩, hc, hv⟩ := List.mem_flatMap.1 hv
    have hx : x ∈ u.exprs := u.occurrences_perm.mem_iff.2 (List.mem_map_of_mem hc)
    rcases Expr.mem_places.1 hv with ⟨rfl, -⟩ | ⟨receiver, name, indexed, hreads, -, rfl⟩
    · obtain rfl := List.mem_singleton.1 he
      exact hx
    · have hreceiver : receiver ∈ u.exprs := SourceUnit.nodes_subset_exprs hx
        (Expr.mem_nodes.2 (Or.inl (Expr.mem_parts_of_mem_children hreads.mem_children)))
      rcases List.mem_cons.1 he with rfl | he
      · exact hx
      · exact List.mem_singleton.1 he ▸ hreceiver

/-- Every call of a unit is visited. -/
theorem call_mem_visits {e callee : Expr} {typeArgs : List TypeRef} {args : List Argument}
    (he : e ∈ u.exprs) (hk : e.kind = .call callee typeArgs args) : .call e ∈ u.visits := by
  obtain ⟨c, hc, rfl⟩ := List.mem_map.1 (u.occurrences_perm.mem_iff.1 he)
  refine u.visits_perm.mem_iff.2 (List.mem_append_right _ (List.mem_flatMap.2 ⟨c, hc, ?_⟩))
  exact Expr.mem_places.2 (Or.inl ⟨rfl, callee, typeArgs, args, hk⟩)

/-- In a unit that was read from a text no expression escapes the checker, and none is judged
twice. What is found at places tells of each expression that misses a column once, and of no other
one; and each call has been inferred, and its failure then is recorded and reported once. If no
expression reaches itself, the checker ends. -/
theorem findings_of_unit (p : Program) (options : CheckerOptions) (text : String) (u : SourceUnit)
    (hu : SourceUnit.ofText text = .ok u) (hp : p.names = Resolution.ofUnit u) :
    ((∀ e ∈ u.exprs, ¬e.Reaches p.names e) →
      ∃ found m, p.findings options u.visits Memo.empty = some (found, m)) ∧
    ∀ found m, p.findings options u.visits Memo.empty = some (found, m) →
      ∃ accesses, p.visitAll options u.visits Memo.empty = some (accesses, m) ∧
        found = accesses ++ m.failures.map (Failure.finding options.maxSuggestionDistance) ∧
        u.OneEach (p.Misses options.maxSuggestionDistance u m)
          (accesses.filter (·.code = .unknownColumn)) ∧
        (∀ e ∈ u.exprs, ∀ callee typeArgs args, e.kind = .call callee typeArgs args →
          ∃ b, p.Inferred m e b m.callFailures[e.id]?) ∧
        u.OneEach (p.Fails m) m.callFailures.values := by
  have hids := SourceUnit.nodup_ids_of_ofText hu
  have hwithin : ∀ v ∈ u.visits, ∀ e ∈ v.exprs, e ∈ u.exprs := by
    intro v hv e he
    exact mem_exprs_of_mem_visits hv he
  constructor
  · intro hacyclic
    have hends := (SourceUnit.admits_ends hids hp (hp ▸ hacyclic)).visitAll options hwithin
    obtain ⟨accesses, m, hrun, -⟩ := hends Memo.empty (Memo.Steady.empty _)
    exact ⟨_, m, Query.bind_eq_some.2 ⟨accesses, m, hrun, rfl⟩⟩
  · intro found m h
    obtain ⟨accesses, m', hrun, h⟩ := Query.bind_eq_some.1 h
    cases h
    have hempty : Memo.empty.Judged p u := Memo.Justified.empty ..
    obtain ⟨hjudged, hgrown⟩ := (Queries.ofDepth_judged hids hp p.depth).visitAll options
      hwithin Memo.empty accesses m hrun hempty
    have ho : m.inProgress = [] := hgrown.inProgress
    obtain ⟨hinferred, hfilter⟩ := visitAll_run rfl hempty.steady hrun
    refine ⟨accesses, hrun, rfl, hfilter ▸ oneEach_misses hids ho, ?_,
      hjudged.oneEach_fails hids ho⟩
    intro e he callee typeArgs args hk
    have hbound := hinferred _ (call_mem_visits he hk) e rfl
    exact ⟨_, hjudged.inferred hids he (Std.TreeMap.getElem?_eq_some_getElem hbound)⟩

/-- Two columns that are missed, and a call that fails. -/
def missingText : String :=
  "@DataSchema\ninterface Person \x7b\n    val name: String\n\x7d\n" ++
  "fun f(df: DataFrame<Person>) \x7b\n    val a = df.nam\n    val b = df[\"age\"]\n" ++
  "    val c = df.name\n    val d = df.select(\"nam\")\n\x7d\n"

/-- There no expression reaches itself, two miss columns and one fails. -/
theorem findings_of_unit_missingText : ∃ u, SourceUnit.ofText missingText = .ok u ∧
    (∀ e ∈ u.exprs, ¬e.Reaches (Resolution.ofUnit u) e) ∧
    ∃ found m, (ofUnit u).findings {} u.visits Memo.empty = some (found, m) ∧ found.length = 3 ∧
      ∃ accesses nodes calls, List.Forall₂ ((ofUnit u).Misses 2 u m) nodes accesses ∧
        nodes.length = 2 ∧ List.Forall₂ ((ofUnit u).Fails m) calls m.callFailures.values ∧
        calls.length = 1 := by
  obtain ⟨u, hu, h⟩ : ∃ u, SourceUnit.ofText missingText = .ok u ∧
      ((Resolution.ofUnit u).descends && ((ofUnit u).visitAll {} u.visits Memo.empty).any fun r =>
        (r.1.filter (·.code = .unknownColumn)).length == 2 && r.1.length == 2 &&
          r.2.callFailures.values.length == 1 && r.2.failures.length == 1) = true := by
    refine SourceUnit.exists_ofText
      (Token.eq_ofList_append (Token.eq_ofList_append rfl rfl) rfl) ?_
    decide +kernel
  rw [Bool.and_eq_true] at h
  obtain ⟨hdescends, h⟩ := h
  have hreach := SourceUnit.not_reaches_of_descends (SourceUnit.nodup_ids_of_ofText hu) hdescends
  obtain ⟨hends, hfound⟩ := findings_of_unit (ofUnit u) {} missingText u hu rfl
  obtain ⟨_, m, hfindings⟩ := hends hreach
  obtain ⟨accesses, hrun, rfl, ⟨nodes, -, -, hnodes⟩, -, ⟨calls, -, -, hcalls⟩⟩ :=
    hfound _ m hfindings
  simp only [hrun, Option.any_some, Bool.and_eq_true, beq_iff_eq] at h
  obtain ⟨⟨⟨hunknown, hlength⟩, hvalues⟩, hfailures⟩ := h
  refine ⟨u, hu, hreach, _, m, hfindings, ?_, _, nodes, calls, hnodes, ?_, hcalls, ?_⟩
  · rw [List.length_append, List.length_map, hlength, hfailures]
  · rw [hnodes.length_eq, hunknown]
  · rw [hcalls.length_eq, hvalues]

end Program

end FrameCheck
