import FrameCheck.Proofs.Checker.Coverage
import FrameCheck.Proofs.Checker.Reports
import FrameCheck.Proofs.Inference.Acyclic
import FrameCheck.Proofs.Operation.Recognized

/-!
# Where errors are found

A call that fails has an operation of the catalog, and this is told why it fails only by a frame
or groups that are known, or by the arguments of `dataFrameOf`. The call itself is unknown then,
so no other call fails because of it. And a column is missed only where something is known of the
receiver. So each error is at an access to a column of something known, at a call that fails, or
at the name of a marker or of one of its properties.

* `Program.FailedCall`, `Program.Inferred.failedCall` : what is true of a call that failed.
* `Program.ErrorSite` : the places of errors.
* `Program.errors_of_unit` : the failures behind any questions, and the errors of a unit.
-/

namespace FrameCheck

/-! ## Calls that fail -/

namespace Resolution

/-- A callee is named by the expression that the call starts with. -/
theorem callee?_cases {names : Resolution} {e : Expr} {c : Callee} (h : names.callee? e = some c) :
    ∃ callee typeArgs args, e.kind = .call callee typeArgs args ∧
      ((callee.kind = .name c.name ∧ c.receiver = none) ∨
        ∃ receiver nameSpan safe, callee.kind = .member receiver c.name nameSpan safe ∧
          c.receiver = some receiver.id) := by
  unfold callee? at h
  split at h
  · rename_i callee typeArgs args hk
    refine ⟨callee, typeArgs, args, hk, ?_⟩
    split at h
    · rename_i n hn
      cases h
      exact Or.inl ⟨hn, rfl⟩
    · rename_i receiver n nameSpan safe hn
      cases h
      exact Or.inr ⟨receiver, nameSpan, safe, hn, rfl⟩
    · cases h
  · cases h

end Resolution

namespace OperationRule

/-- A failure is at the span of the call, for a fault that the operation can tell. -/
theorem failure?_eq_some {rule : OperationRule} {span : Span} {operation : OperationCall}
    {f : Failure} (h : rule.failure? span operation = some f) :
    f.span = span ∧ ∃ e, rule.apply operation = .error e ∧ e ≠ .notApplicable := by
  unfold failure? at h
  split at h
  · cases h
  · rename_i e he
    cases e with
    | schema e =>
      cases h
      exact ⟨rfl, _, he, nofun⟩
    | operand subject e =>
      cases h
      exact ⟨rfl, _, he, nofun⟩
    | notApplicable => cases h

end OperationRule

namespace Queries

variable {p : Program} {q : Queries} {m m' : Memo}

theorem failure?_eq_some {e : Expr} {f : Failure} (h : q.failure? p e m = some f) :
    p.names.typeOf? e = none ∧ ∃ callee typeArgs args rule operation m',
      e.kind = .call callee typeArgs args ∧
      q.callOperation p e args m = some (some (rule, operation), m') ∧
      rule.failure? e.span operation = some f := by
  unfold failure? at h
  split at h
  · rename_i callee typeArgs args htype hk
    split at h
    · rename_i rule operation m' hrun
      exact ⟨htype, callee, typeArgs, args, rule, operation, m', hk, hrun, h⟩
    · cases h
  · cases h

/-- The receiver of an operation: none, one that is known, or one that counts as a frame. -/
theorem callReceiver_cases {c : Callee} {b : Binding} {kind : ReceiverKind}
    (h : q.callReceiver p c m = some (some (b, kind), m')) :
    (c.receiver = none ∧ b = .unknown ∧ kind = .topLevel) ∨
      ∃ id receiver, c.receiver = some id ∧ p.names.expr? id = some receiver ∧
        q.binding receiver m = some (b, m') ∧
        (ReceiverKind.of b = some kind ∨ (b = .unknown ∧ kind = .dataFrame)) := by
  unfold callReceiver at h
  cases hid : c.receiver with
  | none =>
    rw [hid] at h
    cases h
    exact Or.inl ⟨rfl, rfl, rfl⟩
  | some id =>
    rw [hid] at h
    simp only at h
    cases hx : p.names.expr? id with
    | none =>
      rw [hx] at h
      cases h
    | some receiver =>
      rw [hx] at h
      obtain ⟨b', m₁, hb, h⟩ := Query.bind_eq_some.1 h
      refine Or.inr ⟨id, receiver, rfl, hx, ?_⟩
      cases hkind : ReceiverKind.of b' with
      | some kind' =>
        rw [hkind] at h
        cases h
        exact ⟨hb, Or.inl hkind⟩
      | none =>
        rw [hkind] at h
        cases b' with
        | unknown =>
          cases h
          exact ⟨hb, Or.inr ⟨rfl, rfl⟩⟩
        | known => cases h

/-- An operation that fails was called on a frame or on groups that were known, or it makes a new
frame. What is unknown counts as a frame, and no operation on frames fails there. -/
theorem known_of_failing {c : Callee} {kind : ReceiverKind} {rule : OperationRule}
    {operation : OperationCall} {e : TransformError}
    (hops : p.operations = Catalog.standard)
    (hreceiver : q.callReceiver p c m = some (some (operation.receiver, kind), m'))
    (hrule : p.operations.lookupCall kind c.name c.argCount c.userDefined = .ok rule)
    (happly : rule.apply operation = .error e) (hne : e ≠ .notApplicable) :
    (c.receiver = none ∧ c.name = "dataFrameOf") ∨
      ∃ id receiver shape schema origin, c.receiver = some id ∧
        p.names.expr? id = some receiver ∧
        q.binding receiver m = some (.known shape schema origin, m') ∧
        (shape = .dataFrame ∨ shape = .groupBy) := by
  rw [hops] at hrule
  obtain ⟨-, hmem, hkind, hname⟩ := Catalog.rule_of_lookupCall hrule
  have hmade : operation.receiver = .unknown → kind = .topLevel ∧ c.name = "dataFrameOf" := by
    intro hunknown
    have hmade : rule.kind = .dataFrameOf := by
      by_contra hkind
      exact hne (OperationRule.eq_notApplicable_of_unknown hunknown hkind happly)
    obtain ⟨htop, hdataFrameOf⟩ := Catalog.standardRules_dataFrameOf hmem hmade
    exact ⟨hkind ▸ htop, hname ▸ hdataFrameOf⟩
  rcases callReceiver_cases hreceiver with ⟨hnone, hunknown, -⟩ | ⟨id, receiver, hid, hx, hb, hof⟩
  · exact Or.inl ⟨hnone, (hmade hunknown).2⟩
  · refine Or.inr ⟨id, receiver, ?_⟩
    cases hknown : operation.receiver with
    | unknown =>
      rw [hknown] at hof
      rcases hof with hof | ⟨-, hframe⟩
      · cases hof
      · cases hframe.symm.trans (hmade hknown).1
    | known shape schema origin =>
      rw [hknown] at hb hof
      refine ⟨shape, schema, origin, hid, hx, hb, ?_⟩
      rcases hof with hof | ⟨hof, -⟩
      · cases shape with
        | dataFrame => exact Or.inl rfl
        | groupBy => exact Or.inr rfl
        | columnGroup => cases hof
        | dataRow => cases hof
      · cases hof

/-- The parts of an operation that a call applies, as they were found one behind another. -/
theorem callOperation_cases (hq : q.Extending p) (hm : m.Steady p.names) {e : Expr}
    {args : List Argument} {rule : OperationRule} {operation : OperationCall}
    (h : q.callOperation p e args m = some (some (rule, operation), m')) :
    ∃ c kind m₁, p.names.callee? e = some c ∧
      q.callReceiver p c m = some (some (operation.receiver, kind), m₁) ∧
      p.operations.lookupCall kind c.name c.argCount c.userDefined = .ok rule ∧ m₁.Grows m' := by
  unfold callOperation at h
  cases hc : p.names.callee? e with
  | none =>
    rw [hc] at h
    cases h
  | some c =>
    rw [hc] at h
    obtain ⟨r, m₁, hr, h⟩ := Query.bind_eq_some.1 h
    rcases r with _ | ⟨receiver, kind⟩
    · cases h
    · simp only at h
      cases hrule : p.operations.lookupCall kind c.name c.argCount c.userDefined with
      | error err =>
        rw [hrule] at h
        cases h
      | ok rule' =>
        rw [hrule] at h
        obtain ⟨args', m₂, hargs, h⟩ := Query.bind_eq_some.1 h
        obtain ⟨typeArgs, m₃, htypeArgs, h⟩ := Query.bind_eq_some.1 h
        cases h
        have hextends := hq fun _ => False
        have hm₁ := (hextends.callReceiver (e.covered_true p) hc m _ m₁ hr hm).1
        have hgrown := hextends.mapM (l := args) fun a _ =>
          hextends.argument (e := a.value) fun _ _ => trivial
        obtain ⟨hm₂, hgrown⟩ := hgrown m₁ _ m₂ hargs hm₁
        have hgrown' := hextends.mapM (l := c.typeArgs) fun t _ => hextends.typeArgument t
        obtain ⟨-, hgrown'⟩ := hgrown' m₂ _ m' htypeArgs hm₂
        exact ⟨c, kind, m₁, rfl, hr, hrule, (hgrown.trans hgrown').grows⟩

/-- What is known of an expression is remembered, for in progress it is unknown. -/
theorem bindings_of_known {depth : Nat} {e : Expr} {shape : Shape} {schema : Schema}
    {origin : Option String}
    (h : (ofDepth p depth).binding e m = some (.known shape schema origin, m')) :
    m'.bindings[e.id]? = some (.known shape schema origin) := by
  cases depth with
  | zero => cases h
  | succ depth =>
    rcases bindingRule_cases h with ⟨hb, rfl⟩ | ⟨-, hb, -⟩ | ⟨-, -, m₁, -, rfl⟩
    · exact hb
    · cases hb
    · exact Std.TreeMap.getElem?_insert_self

/-- A call whose operation fails is unknown. -/
theorem applied_of_error {e : Expr} {rule : OperationRule} {operation : OperationCall}
    {err : TransformError} (h : rule.apply operation = .error err) (m : Memo) :
    applied e rule operation m =
      some (.unknown, m.recording e.id (rule.failure? e.span operation)) := by
  unfold applied OperationRule.failure?
  rw [h]
  simp only
  cases Failure.ofError? e.span operation.receiver err with
  | none => rfl
  | some f => rfl

end Queries

namespace Program

variable (p : Program) (m : Memo)

/-- The call is one of a member of a frame or of groups that the memo knows, or makes a new
frame. -/
inductive CallsKnown (c : Expr) : Prop where
  | receiver {callee receiver : Expr} {typeArgs : List TypeRef} {args : List Argument}
      {name : String} {nameSpan : Span} {safe : Bool} {shape : Shape} {schema : Schema}
      {origin : Option String} (hk : c.kind = .call callee typeArgs args)
      (hc : callee.kind = .member receiver name nameSpan safe)
      (hb : p.bindingOf receiver m = some (.known shape schema origin, m))
      (hs : shape = .dataFrame ∨ shape = .groupBy) : CallsKnown c
  | made {callee : Expr} {typeArgs : List TypeRef} {args : List Argument}
      (hk : c.kind = .call callee typeArgs args) (hc : callee.kind = .name "dataFrameOf") :
      CallsKnown c

/-- What is true of a call for which the memo holds a failure. -/
structure FailedCall (c : Expr) (f : Failure) : Prop where
  span : f.span = c.span
  unknown : p.bindingOf c m = some (.unknown, m)
  declared : ∃ callee, p.names.callee? c = some callee ∧ callee.userDefined = false
  calls : p.CallsKnown m c

variable {p m} {u : SourceUnit}

/-- A call that has failed when it was inferred is unknown, and calls something known. -/
theorem Inferred.failedCall (hu : (u.exprs.map Expr.id).Nodup)
    (hnames : p.names = Resolution.ofUnit u) (hops : p.operations = Catalog.standard)
    (ho : m.inProgress = []) {c : Expr} (hc : c ∈ u.exprs) {b : Binding} {f : Failure}
    (h : p.Inferred m c b (some f)) : p.FailedCall m c f := by
  have hbound := h.bindings
  obtain ⟨depth, m₁, m₂, hm₁, hnew, hrun, hgrows, hfailure⟩ := h
  have hq := Queries.ofDepth_extending p depth
  have hunbound := (Queries.newBinding_extends hq c _ _ _ hrun (hm₁.opening c.id)).2.unbound
    (List.mem_cons_self ..) hnew.unbound
  obtain ⟨htype, callee, typeArgs, args, rule, operation, m₃, hk, hoperation, hfails⟩ :=
    Queries.failure?_eq_some hfailure
  obtain ⟨hspan, err, herr, hne⟩ := OperationRule.failure?_eq_some hfails
  -- The operation is the one that gave the call its binding.
  simp only [Queries.newBinding, htype, hk] at hrun
  obtain ⟨o, m₃', hoperation', hrun⟩ := Query.bind_eq_some.1 hrun
  cases hoperation.symm.trans hoperation'
  cases (Queries.applied_of_error herr m₃).symm.trans hrun
  obtain ⟨cal, kind, m₄, hcal, hreceiver, hlookup, hgrows'⟩ :=
    Queries.callOperation_cases hq (hm₁.opening c.id) hoperation
  have hbehind : m₄.Grows m := (hgrows'.trans (Extends.recording m₃ c.id _).grows).trans
    ((Memo.Grows.closing _ hunbound _).trans hgrows)
  have huser := (Catalog.rule_of_lookupCall (hops ▸ hlookup)).1
  refine ⟨hspan, (bindingOf_eq_some_iff ho).2 hbound, ⟨cal, hcal, huser⟩, ?_⟩
  obtain ⟨callee', typeArgs', args', hk', hcallee⟩ := Resolution.callee?_cases hcal
  cases hk.symm.trans hk'
  rcases Queries.known_of_failing hops hreceiver hlookup herr hne with ⟨hnone, hname⟩ |
    ⟨id, receiver, shape, schema, origin, hid, hexpr, hb, hshape⟩
  · rcases hcallee with ⟨hc, -⟩ | ⟨receiver, nameSpan, safe, -, hsome⟩
    · exact .made hk (hname ▸ hc)
    · cases hnone.symm.trans hsome
  · rcases hcallee with ⟨-, hnone⟩ | ⟨receiver', nameSpan, safe, hc', hsome⟩
    · cases hnone.symm.trans hid
    · cases hid.symm.trans hsome
      obtain rfl : receiver = receiver' := by
        have hchild : callee ∈ c.children := by simp [Expr.children, hk]
        have hchild' : receiver' ∈ callee.children := by simp [Expr.children, hc']
        have hcallee := SourceUnit.nodes_subset_exprs hc
          (Expr.mem_nodes.2 (Or.inl (Expr.mem_parts_of_mem_children hchild)))
        have hmem := SourceUnit.nodes_subset_exprs hcallee
          (Expr.mem_nodes.2 (Or.inl (Expr.mem_parts_of_mem_children hchild')))
        rw [hnames, Resolution.expr?_eq_some_iff hu] at hexpr
        exact SourceUnit.eq_of_id_eq hu hexpr.1 hmem hexpr.2
      have hremembered := hbehind.bindings (Queries.bindings_of_known hb)
      exact .receiver hk hc' ((bindingOf_eq_some_iff ho).2 hremembered) hshape

/-- Each recorded failure is that of a call of its own, which has failed. -/
theorem failedCalls (hu : (u.exprs.map Expr.id).Nodup) (hnames : p.names = Resolution.ofUnit u)
    (hops : p.operations = Catalog.standard) (hm : m.Judged p u) (ho : m.inProgress = []) :
    ∃ calls : List Expr, calls.Nodup ∧ (∀ c ∈ calls, c ∈ u.exprs) ∧
      List.Forall₂ (p.FailedCall m) calls m.callFailures.values := by
  obtain ⟨calls, hnodup, hmem, hfails⟩ := hm.oneEach_fails hu ho
  have hcalls : ∀ c ∈ calls, c ∈ u.exprs := fun c hc => ((hmem c).1 hc).1
  refine ⟨calls, hnodup, hcalls, ((List.forall₂_and_left ..).2 ⟨hcalls, hfails⟩).imp ?_⟩
  rintro c f ⟨hc, b, hinferred⟩
  exact hinferred.failedCall hu hnames hops ho hc

/-! ## Errors -/

end Program

namespace Schema

theorem span_of_mem_clashes {marker : String} {f : Failure} : ∀ {es : List Entry} {s : Schema},
    f ∈ s.clashes marker es → ∃ e ∈ es, f.span = e.span
  | [], _, h => nomatch h
  | e :: es, s, h => by
    rcases List.mem_append.1 h with h | h
    · refine ⟨e, List.mem_cons_self .., ?_⟩
      unfold clash? at h
      split at h
      · cases h
      · split at h
        · rw [List.mem_singleton.1 h]
        · cases h
    · obtain ⟨e', he', hf⟩ := span_of_mem_clashes h
      exact ⟨e', List.mem_cons_of_mem _ he', hf⟩

end Schema

/-- A conflict in a class is at its name or at the name of a property. -/
theorem ClassDecl.span_of_mem_conflictsIn {names : Resolution} {known : String → Option Schema}
    {c : ClassDecl} {f : Failure} (h : f ∈ c.conflictsIn names known) :
    f.span = c.nameSpan ∨ ∃ q ∈ c.properties, f.span = q.nameSpan := by
  obtain ⟨e, he, hspan⟩ := Schema.span_of_mem_clashes h
  obtain ⟨part, hpart, he⟩ := List.mem_flatMap.1 he
  rw [hspan]
  unfold ClassPart.entriesIn ClassPart.entries at he
  cases part with
  | supertype t =>
    simp only at he
    split at he
    · obtain ⟨column, -, rfl⟩ := List.mem_map.1 he
      exact Or.inl rfl
    · cases he
  | property q =>
    have hq : q ∈ c.properties := by simpa [ClassDecl.parts] using hpart
    simp only at he
    split at he
    · rw [List.mem_singleton.1 he]
      exact Or.inr ⟨q, hq, rfl⟩
    · cases he

/-- The recorded conflicts are those of classes that are markers. -/
theorem Memo.Steady.span_of_mem_markerFailures {names : Resolution} {m : Memo}
    (h : m.Steady names) {f : Failure} (hf : f ∈ m.markerFailures) :
    ∃ n c, names.marker? n = some c ∧
      (f.span = c.nameSpan ∨ ∃ q ∈ c.properties, f.span = q.nameSpan) := by
  obtain ⟨A, hbuilds⟩ := h.builds
  obtain ⟨ks, -, -, -, hperm⟩ := hbuilds.built
  rw [List.append_nil] at hperm
  obtain ⟨k, -, hk⟩ := List.mem_flatMap.1 (hperm.mem_iff.1 hf)
  unfold Resolution.conflicts at hk
  split at hk
  · rename_i c hc
    exact ⟨k, c, hc, ClassDecl.span_of_mem_conflictsIn hk⟩
  · cases hk

theorem Failure.span_finding (limit : Nat) (f : Failure) : (f.finding limit).span = f.span := by
  unfold finding
  split <;> rfl

namespace Program

variable (p : Program) (u : SourceUnit) (m : Memo)

/-- The spans at which there may be errors. -/
inductive ErrorSite : Span → Prop where
  | access {e receiver : Expr} {name : String} {indexed : Bool} {shape : Shape} {schema : Schema}
      {origin : Option String} (he : e ∈ u.exprs) (hr : e.Reads receiver name indexed)
      (hb : p.bindingOf receiver m = some (.known shape schema origin, m)) : ErrorSite e.span
  | call {c : Expr} {f : Failure} (hc : c ∈ u.exprs) (hf : p.FailedCall m c f) : ErrorSite c.span
  | marker {c : ClassDecl} (hc : c ∈ u.markers) : ErrorSite c.nameSpan
  | property {c : ClassDecl} {q : PropertyDecl} (hc : c ∈ u.markers) (hq : q ∈ c.properties) :
      ErrorSite q.nameSpan

variable {p u m} {m' : Memo} {options : CheckerOptions}

/-- What is found at one place is no error, or at an access whose receiver is known. -/
theorem visitFindings_errors {v : Visit} {found : List Finding} (ho : m.inProgress = [])
    (hm : m.Steady p.names) (h : p.visitFindings options v m = some (found, m')) :
    ∀ f ∈ found, f.code.severity = .error → ∃ access receiver name indexed shape schema origin,
      v = .column access receiver name indexed ∧ f.span = access.span ∧
      m'.bindings[receiver.id]? = some (.known shape schema origin) := by
  intro f hf herror
  cases v with
  | marker c =>
    obtain ⟨_, m₁, -, h⟩ := Query.bind_eq_some.1 h
    cases h
    unfold ClassDecl.shadowFindings at hf
    obtain ⟨q, -, hf⟩ := List.mem_filterMap.1 hf
    obtain ⟨owner, -, rfl⟩ := Option.map_eq_some_iff.1 hf
    cases herror
  | call e =>
    obtain ⟨b, m₁, -, h⟩ := Query.bind_eq_some.1 h
    cases h
    cases hf
  | column access receiver name indexed =>
    obtain ⟨b, m₁, hb, hfound⟩ := columnFindings_span h
    have hbound := bindings_of_columnFindings ho hm hb h
    obtain ⟨hspan, hknown⟩ := hfound f hf
    cases b with
    | unknown => cases hknown herror
    | known shape schema origin =>
      exact ⟨access, receiver, name, indexed, shape, schema, origin, rfl, hspan, hbound⟩

/-- All along the places, and the receivers stay known. -/
theorem visitAll_errors : ∀ {vs : List Visit} {m : Memo} {found : List Finding},
    m.inProgress = [] → m.Steady p.names → p.visitAll options vs m = some (found, m') →
      ∀ f ∈ found, f.code.severity = .error → ∃ access receiver name indexed shape schema origin,
        .column access receiver name indexed ∈ vs ∧ f.span = access.span ∧
        m'.bindings[receiver.id]? = some (.known shape schema origin)
  | [], m, found, _, _, h, f, hf, _ => by
    cases h
    cases hf
  | v :: vs, m, found, ho, hm, h, f, hf, herror => by
    obtain ⟨fs, m₁, hfirst, h⟩ := Query.bind_eq_some.1 h
    obtain ⟨gs, m₂, hrest, h⟩ := Query.bind_eq_some.1 h
    cases h
    have hextends := Queries.ofDepth_extending p p.depth fun _ => False
    obtain ⟨hm₁, hgrown⟩ := hextends.visitFindings options (fun _ _ => trivial) m fs m₁ hfirst hm
    obtain ⟨-, hgrown'⟩ := hextends.visitAll options (fun _ _ _ _ => trivial) m₁ gs m' hrest hm₁
    rcases List.mem_append.1 hf with hf | hf
    · obtain ⟨access, receiver, name, indexed, shape, schema, origin, rfl, hspan, hb⟩ :=
        visitFindings_errors ho hm hfirst f hf herror
      exact ⟨access, receiver, name, indexed, shape, schema, origin, List.mem_cons_self .., hspan,
        hgrown'.bindings hb⟩
    · obtain ⟨access, receiver, name, indexed, shape, schema, origin, hv, hspan, hb⟩ :=
        visitAll_errors (hgrown.inProgress.trans ho) hm₁ hrest f hf herror
      exact ⟨access, receiver, name, indexed, shape, schema, origin, List.mem_cons_of_mem _ hv,
        hspan, hb⟩

/-- What is found in a unit is no error, or at a place of errors. -/
theorem findings_errors (hu : (u.exprs.map Expr.id).Nodup)
    (hnames : p.names = Resolution.ofUnit u) (hops : p.operations = Catalog.standard)
    {found : List Finding} (h : p.findings options u.visits Memo.empty = some (found, m)) :
    ∀ f ∈ found, f.code.severity = .error → p.ErrorSite u m f.span := by
  obtain ⟨accesses, m', hrun, h⟩ := Query.bind_eq_some.1 h
  cases h
  have hwithin : ∀ v ∈ u.visits, ∀ e ∈ v.exprs, e ∈ u.exprs :=
    fun v hv e he => mem_exprs_of_mem_visits hv he
  have hempty : Memo.empty.Judged p u := Memo.Justified.empty ..
  obtain ⟨hjudged, hgrown⟩ := (Queries.ofDepth_judged hu hnames p.depth).visitAll options
    hwithin Memo.empty accesses m hrun hempty
  have ho : m.inProgress = [] := hgrown.inProgress
  intro f hf herror
  rcases List.mem_append.1 hf with hf | hf
  · obtain ⟨access, receiver, name, indexed, shape, schema, origin, hv, hspan, hb⟩ :=
      visitAll_errors rfl hempty.steady hrun f hf herror
    rcases List.mem_append.1 (u.visits_perm.mem_iff.1 hv) with hv | hv
    · obtain ⟨c, -, hc⟩ := List.mem_map.1 hv
      cases hc
    · obtain ⟨⟨x, called⟩, hx, hv⟩ := List.mem_flatMap.1 hv
      have hxu : x ∈ u.exprs := u.occurrences_perm.mem_iff.2 (List.mem_map_of_mem hx)
      rcases Expr.mem_places.1 hv with ⟨hcall, -⟩ | ⟨_, _, _, hreads, -, heq⟩
      · cases hcall
      · cases heq
        exact hspan ▸ .access hxu hreads ((bindingOf_eq_some_iff ho).2 hb)
  · obtain ⟨g, hg, rfl⟩ := List.mem_map.1 hf
    rw [Failure.span_finding]
    rcases List.mem_append.1 hg with hg | hg
    · obtain ⟨n, c, hc, hspan⟩ := hjudged.steady.span_of_mem_markerFailures hg
      rw [hnames] at hc
      have hmarker := Resolution.mem_markers_of_marker? hc
      rcases hspan with hspan | ⟨q, hq, hspan⟩
      · exact hspan ▸ .marker hmarker
      · exact hspan ▸ .property hmarker hq
    · obtain ⟨calls, -, hcalls, hfailed⟩ := failedCalls hu hnames hops hjudged ho
      obtain ⟨i, hi, rfl⟩ := List.mem_iff_getElem.1 hg
      have hi' : i < calls.length := hfailed.length_eq ▸ hi
      have hfailedCall := hfailed.get hi' hi
      exact hfailedCall.span ▸ .call (hcalls _ (List.getElem_mem hi')) hfailedCall

/-- In a unit that was read from a text one mistake is told of once. Behind any questions for its
expressions each failure is that of a call of its own, which is unknown and has been called on
something known, and no error of the check is elsewhere than at such a call, at an access to a
column of something known, or at a name in a marker. -/
theorem errors_of_unit (text : String) (u : SourceUnit) (hu : SourceUnit.ofText text = .ok u) :
    (∀ (qs : List Question) (answers : List Answer) (m : Memo), (∀ q ∈ qs, q.Within u) →
      (ofUnit u).askAll qs Memo.empty = some (answers, m) →
        ∃ calls : List Expr, calls.Nodup ∧ (∀ c ∈ calls, c ∈ u.exprs) ∧
          List.Forall₂ ((ofUnit u).FailedCall m) calls m.callFailures.values) ∧
    ∀ (options : CheckerOptions) (ds : List Diagnostic), u.check text options = some ds →
      ∃ found m, (ofUnit u).findings options u.visits Memo.empty = some (found, m) ∧
        ∀ d ∈ ds, d.severity = .error → (ofUnit u).ErrorSite u m d.span := by
  have hids := SourceUnit.nodup_ids_of_ofText hu
  constructor
  · intro qs answers m hqs h
    have hadmits := Queries.ofDepth_judged hids (p := ofUnit u) rfl (ofUnit u).depth
    obtain ⟨hjudged, hgrown⟩ := hadmits.askAll (fun q hq => (hqs q hq).asks) Memo.empty answers m h
      (Memo.Justified.empty ..)
    exact failedCalls hids rfl rfl hjudged hgrown.inProgress
  · intro options ds h
    obtain ⟨⟨found, m⟩, hfound, rfl⟩ := Option.map_eq_some_iff.1 h
    refine ⟨found, m, hfound, fun d hd herror => ?_⟩
    obtain ⟨hd, -⟩ := List.mem_filter.1 (Diagnostic.mem_report.1 hd)
    obtain ⟨f, hf, rfl⟩ := List.mem_map.1 hd
    exact findings_errors hids rfl rfl hfound f hf herror

/-- A marker with a conflict, a column that is missed, a call that fails with another one behind
it, and a frame that is made with one column twice. -/
def mistakesText : String :=
  "@DataSchema\ninterface Named \x7b\n    val name: String\n\x7d\n" ++
  "@DataSchema\ninterface Person : Named \x7b\n    val name: Int\n\x7d\n" ++
  "fun f(df: DataFrame<Person>) \x7b\n    df.nam\n    df.select(\"nam\").select(\"nam\")\n" ++
  "    dataFrameOf(\"a\" to listOf(1), \"a\" to listOf(2))\n\x7d\n"

/-- Two calls have failed there, and four errors are found. -/
theorem errors_of_unit_mistakesText : ∃ u, SourceUnit.ofText mistakesText = .ok u ∧
    (∃ answers m, (ofUnit u).askAll (u.exprs.map .binding) Memo.empty = some (answers, m) ∧
      ∃ calls : List Expr, calls.Nodup ∧ calls.length = 2 ∧
        List.Forall₂ ((ofUnit u).FailedCall m) calls m.callFailures.values) ∧
    ∃ ds found m, u.check mistakesText {} = some ds ∧
      (ofUnit u).findings {} u.visits Memo.empty = some (found, m) ∧
      (found.filter (·.code.severity = .error)).length = 4 ∧
      ∀ d ∈ ds, d.severity = .error → (ofUnit u).ErrorSite u m d.span := by
  obtain ⟨u, hu, h⟩ : ∃ u, SourceUnit.ofText mistakesText = .ok u ∧
      ((((ofUnit u).askAll (u.exprs.map .binding) Memo.empty).any fun r =>
        r.2.callFailures.values.length == 2) &&
      ((ofUnit u).findings {} u.visits Memo.empty).any fun r =>
        (r.1.filter (·.code.severity = .error)).length == 4) = true := by
    refine SourceUnit.exists_ofText (Token.eq_ofList_append
      (Token.eq_ofList_append (Token.eq_ofList_append rfl rfl) rfl) rfl) ?_
    decide +kernel
  rw [Bool.and_eq_true, Option.any_eq_true, Option.any_eq_true] at h
  obtain ⟨⟨⟨answers, m⟩, hrun, hlength⟩, ⟨found, m'⟩, hfound, herrors⟩ := h
  obtain ⟨hasked, hchecked⟩ := errors_of_unit mistakesText u hu
  obtain ⟨calls, hnodup, -, hfailed⟩ := hasked _ answers m (by simp [Question.Within]) hrun
  obtain ⟨ds, hds⟩ : ∃ ds, u.check mistakesText {} = some ds := by
    rw [SourceUnit.check, hfound]
    exact ⟨_, rfl⟩
  obtain ⟨_, _, hfound', hsites⟩ := hchecked {} ds hds
  cases hfound.symm.trans hfound'
  exact ⟨u, hu, ⟨answers, m, hrun, calls, hnodup, hfailed.length_eq.trans (beq_iff_eq.1 hlength),
    hfailed⟩, ds, found, m', hds, hfound, beq_iff_eq.1 herrors, hsites⟩

end Program

end FrameCheck
