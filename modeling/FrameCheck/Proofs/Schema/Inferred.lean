import FrameCheck.Parse.Unit
import FrameCheck.Proofs.Inference.Growth
import FrameCheck.Proofs.Schema.WellNamed

/-!
# Distinct column names in what is inferred

What a class declares is well named, because an entry is only added where its name is new. So
every marker that is remembered is well named, each as soon as those are that it was built from.
Bindings come from markers, from operations on well named frames, from what is nested in them,
or from other bindings. `Query.Gives` carries this through the questions: from a memo that holds
well named schemas alone a question leads to such a memo, and its answer is well named.

* `Builds.wellNamed` : markers.
* `Queries.ofDepth_wellNamed` : bindings, at any depth.
* `wellNamed_everywhere` : schemas, operations, and answers behind any questions.
-/

namespace FrameCheck

/-! ## Markers -/

namespace Schema.WellNamed

variable {s : Schema}

/-- A column is added only where its name is new. -/
theorem put (h : s.WellNamed) {c : Column} (hc : c.WellNamed) : (s.put c).WellNamed := by
  unfold Schema.put
  split
  · exact h.withColumn hc
  · exact h

theorem placed : ∀ {es : List Entry} {s : Schema}, s.WellNamed →
    (∀ e ∈ es, e.column.WellNamed) → (s.placed es).WellNamed
  | [], _, h, _ => h
  | e :: es, s, h, hes => by
    rw [Schema.placed]
    exact placed (h.put (hes e (List.mem_cons_self ..))) fun d hd =>
      hes d (List.mem_cons_of_mem _ hd)

end Schema.WellNamed

namespace ClassPart

variable {names : Resolution}

theorem columnOf_wellNamed (name : String) (type : TypeRef) {children : Option Schema}
    (h : ∀ s ∈ children, s.WellNamed) : (columnOf names name type children).WellNamed := by
  unfold columnOf
  split
  · exact Column.wellNamed_ofValues _ _
  · rename_i kind marker _
    split
    · rw [Column.wellNamed_withNullable]
      unfold MarkerQuery.nestedColumn
      split
      · exact Column.wellNamed_ofGroup _ _ (h _ rfl)
      · exact Column.wellNamed_ofFrames _ _ h
    · split
      · exact Column.wellNamed_withNullable.2 (Column.wellNamed_ofFrames _ _ fun _ hs => by cases hs)
      · exact Column.wellNamed_ofValues _ _

/-- A part that is told of a well named schema adds well named columns. -/
theorem entries_wellNamed {c : ClassDecl} {part : ClassPart} {answer : Option Schema}
    (h : ∀ s ∈ answer, s.WellNamed) : ∀ e ∈ part.entries names c answer, e.column.WellNamed := by
  intro e he
  unfold entries at he
  cases part with
  | supertype t =>
    cases answer with
    | none => cases he
    | some inherited =>
      obtain ⟨column, hcolumn, rfl⟩ := List.mem_map.1 he
      exact (h inherited rfl).of_mem hcolumn
  | property p =>
    simp only at he
    split at he
    · rw [List.mem_singleton.1 he]
      exact columnOf_wellNamed _ _ h
    · cases he

end ClassPart

/-- Each marker that is remembered is well named, for those are that it was built from. -/
theorem Builds.wellNamed {names : Resolution} {A : String → List String} {pending : List Failure}
    {m : Memo} (h : Builds names A pending m) {n : String} {s : Schema}
    (hs : m.markers[n]? = some s) : s.WellNamed := by
  refine h.induction (P := fun k => ∀ t, m.markers[k]? = some t → t.WellNamed) ?_ n
    (Std.TreeMap.mem_iff_isSome_getElem?.2 (Option.isSome_of_eq_some hs)) s hs
  intro k hk ih t ht
  obtain ⟨c, hc, rfl⟩ := h.declared ht
  refine Schema.wellNamed_empty.placed fun e he => ?_
  obtain ⟨part, hpart, he⟩ := List.mem_flatMap.1 he
  refine ClassPart.entries_wellNamed (fun r hr => ?_) e he
  obtain ⟨j, hj, hr⟩ := Option.bind_eq_some_iff.1 hr
  unfold pastOpen at hr
  split at hr
  · cases hr
  · rename_i hjA
    have hjm := Std.TreeMap.mem_iff_isSome_getElem?.2 (Option.isSome_of_eq_some hr)
    exact ih j ⟨c, hc, ⟨part, hpart, hj⟩, h.isSome_of_mem hjm⟩ hjA r hr

/-! ## Bindings -/

/-- All schemas that the memo holds are well named; those of markers follow from how these are
built. -/
structure Memo.WellNamed (names : Resolution) (m : Memo) : Prop where
  steady : m.Steady names
  bindings : ∀ {id : ExprId} {b : Binding}, m.bindings[id]? = some b → b.WellNamed

namespace Memo.WellNamed

variable {names : Resolution} {m : Memo}

theorem empty (names : Resolution) : Memo.empty.WellNamed names :=
  ⟨Memo.Steady.empty names, fun h => by simp [Memo.empty] at h⟩

theorem opening (h : m.WellNamed names) (id : ExprId) : (m.opening id).WellNamed names :=
  ⟨h.steady.opening id, h.bindings⟩

theorem recording (h : m.WellNamed names) (id : ExprId) (f : Option Failure) :
    (m.recording id f).WellNamed names := by
  refine ⟨h.steady.recording id f, fun hb => ?_⟩
  rw [recording_bindings] at hb
  exact h.bindings hb

theorem closing (h : m.WellNamed names) (id : ExprId) {b : Binding} (hb : b.WellNamed) :
    (m.closing id b).WellNamed names := by
  refine ⟨h.steady.congr rfl rfl rfl, fun {j c} hc => ?_⟩
  rw [closing_bindings, Std.TreeMap.getElem?_insert] at hc
  split at hc
  · cases hc
    exact hb
  · exact h.bindings hc

end Memo.WellNamed

/-- Where the question ends it leads from a well named memo to a well named one, and its answer
has the property. -/
def Query.Gives (names : Resolution) {α : Type} (x : Query α) (Q : α → Prop) : Prop :=
  ∀ m a m', x m = some (a, m') → m.WellNamed names → m'.WellNamed names ∧ Q a

namespace Query.Gives

variable {names : Resolution} {α β : Type} {Q : α → Prop} {R : β → Prop}

theorem pure {a : α} (h : Q a) : Query.Gives names (pure a) Q := by
  intro m b m' hrun hm
  cases hrun
  exact ⟨hm, h⟩

/-- An answer that may be missing. -/
theorem ofNone : Query.Gives names (Pure.pure none) fun r : Option α => ∀ a ∈ r, Q a :=
  pure (by simp)

theorem ofSome {a : α} (h : Q a) :
    Query.Gives names (Pure.pure (some a)) fun r : Option α => ∀ a ∈ r, Q a :=
  pure (by simpa using h)

theorem bind {x : Query α} {f : α → Query β} (hx : x.Gives names Q)
    (hf : ∀ a, Q a → (f a).Gives names R) : (x >>= f).Gives names R := by
  intro m b m'' h hm
  obtain ⟨a, m', h, h'⟩ := Query.bind_eq_some.1 h
  obtain ⟨hm', ha⟩ := hx m a m' h hm
  exact hf a ha m' b m'' h' hm'

/-- Questions whose answers say nothing of schemas. -/
theorem compositional (names : Resolution) :
    Compositional fun α (x : Unit → Query α) => (x ()).Gives names fun _ => True where
  answer _ := pure trivial
  next hx hf := hx.bind fun a _ => hf a

theorem map {x : Query α} (hx : x.Gives names Q) {g : α → β} (hg : ∀ a, Q a → R (g a)) :
    Query.Gives names (do return g (← x)) R := hx.bind fun a ha => pure (hg a ha)

theorem any {x : Query α} (hx : x.Gives names Q) : x.Gives names fun _ => True :=
  fun m a m' h hm => ⟨(hx m a m' h hm).1, trivial⟩

theorem mapM {f : α → Query β} : ∀ {l : List α}, (∀ a ∈ l, (f a).Gives names R) →
    (l.mapM f).Gives names fun bs => ∀ b ∈ bs, R b
  | [], _ => by
    rw [List.mapM_nil]
    exact pure nofun
  | a :: l, hl => by
    rw [List.mapM_cons]
    refine (hl a (List.mem_cons_self ..)).bind fun b hb => ?_
    refine (mapM fun a' ha' => hl a' (List.mem_cons_of_mem _ ha')).bind fun bs hbs => ?_
    exact pure (List.forall_mem_cons.2 ⟨hb, hbs⟩)

theorem recordCall (id : ExprId) (failure : Failure) :
    (Query.recordCall id failure).Gives names fun _ => True := by
  intro m a m' h hm
  cases h
  exact ⟨hm.recording id (some failure), trivial⟩

theorem markerSchema (p : Program) (name : String) :
    (p.markerSchema name).Gives p.names fun r => ∀ s ∈ r, s.WellNamed := by
  intro m r m' h hm
  obtain ⟨A, A', m₁, hrun, hgrown, hsteady⟩ := hm.steady.markerSchema_run name
  cases h.symm.trans hrun
  refine ⟨⟨hsteady, fun hb => hm.bindings (hgrown.bindings ▸ hb)⟩, fun s hs => ?_⟩
  obtain ⟨A'', hbuilds⟩ := hsteady.builds
  exact hbuilds.wellNamed hs

theorem bindingOfType (p : Program) (type : TypeRef) :
    (p.bindingOfType type).Gives p.names fun r => ∀ b ∈ r, b.WellNamed := by
  unfold Program.bindingOfType
  split
  · refine (markerSchema p _).bind fun answer hanswer => ?_
    cases answer with
    | none => exact ofNone
    | some schema =>
      have hschema := hanswer schema rfl
      simp only
      split
      · refine (markerSchema p _).bind fun rows hrows => ofSome ?_
        exact Binding.wellNamed_known.2
          (hschema.withColumn (Column.wellNamed_ofFrames _ _ hrows))
      · exact ofSome (Binding.wellNamed_known.2 hschema)
  · exact ofNone

end Query.Gives

theorem Binding.WellNamed.navigate {b : Binding} (h : b.WellNamed) (name : String) :
    (b.navigate name).WellNamed := by
  unfold Binding.navigate
  cases b with
  | unknown => exact wellNamed_unknown
  | known shape schema origin =>
    simp only
    split
    · exact wellNamed_unknown
    · rename_i column hcolumn
      split
      · rename_i children _ hchildren _
        exact wellNamed_known.2 (((wellNamed_known.1 h).lookup? hcolumn).children hchildren)
      · exact wellNamed_unknown

namespace Queries

/-- Questions that keep memos well named, and whose bindings are. -/
structure WellNamed (p : Program) (q : Queries) : Prop where
  admits : Admits (fun α (x : Unit → Query α) => (x ()).Gives p.names fun _ => True) p
    (fun _ => q) fun _ => True
  binding : ∀ e, (q.binding e).Gives p.names Binding.WellNamed

namespace WellNamed

variable {p : Program} {q : Queries} (h : q.WellNamed p)

include h

omit h in
theorem unknown : Query.Gives p.names (pure Binding.unknown) Binding.WellNamed :=
  Query.Gives.pure Binding.wellNamed_unknown

/-! ### Arguments of operations -/

theorem dataArg (e : Expr) : (q.dataArg e).Gives p.names OperationArg.WellNamed := by
  refine (h.binding e).bind fun b hb => ?_
  split
  · exact Query.Gives.pure hb
  · exact (h.admits.type (e := e) trivial).map fun _ _ => trivial

theorem argument (e : Expr) : (q.argument e).Gives p.names OperationArg.WellNamed := by
  unfold Queries.argument
  split
  · exact Query.Gives.pure trivial
  · exact Query.Gives.pure trivial
  · split
    · rename_i left right _
      split
      · exact (h.admits.elementType (e := right) fun _ _ _ _ _ _ => trivial).map fun _ _ => trivial
      · exact Query.Gives.pure trivial
    · rename_i body _
      split
      · exact (h.admits.columnsArg fun _ _ => trivial).map fun _ _ => trivial
      · exact (h.admits.blockType (b := body) fun _ _ => trivial).map fun _ _ => trivial
    · exact h.dataArg e

omit h in
theorem typeArgument (type : TypeRef) :
    (Queries.typeArgument p type).Gives p.names Binding.WellNamed := by
  refine (Query.Gives.markerSchema p _).bind fun answer hanswer => ?_
  cases answer with
  | none => exact unknown
  | some schema => exact Query.Gives.pure (Binding.wellNamed_known.2 (hanswer schema rfl))

/-! ### Calls -/

theorem callReceiver (callee : Callee) :
    (q.callReceiver p callee).Gives p.names fun r => ∀ x ∈ r, x.1.WellNamed := by
  unfold Queries.callReceiver
  split
  · exact Query.Gives.ofSome Binding.wellNamed_unknown
  · split
    · exact Query.Gives.ofNone
    · refine (h.binding _).bind fun b hb => ?_
      split
      · exact Query.Gives.ofSome hb
      · exact Query.Gives.ofSome hb
      · exact Query.Gives.ofNone

theorem callOperation (call : Expr) (args : List Argument) :
    (q.callOperation p call args).Gives p.names fun r => ∀ x ∈ r, x.2.WellNamed := by
  unfold Queries.callOperation
  split
  · exact Query.Gives.ofNone
  · refine (h.callReceiver _).bind fun r hr => ?_
    split
    · exact Query.Gives.ofNone
    · rename_i receiver kind
      split
      · exact Query.Gives.ofNone
      · refine (Query.Gives.mapM fun a _ => h.argument a.value).bind fun args hargs => ?_
        refine (Query.Gives.mapM fun t _ => typeArgument t).bind fun typeArgs htypeArgs => ?_
        exact Query.Gives.ofSome ⟨hr (receiver, kind) rfl, hargs, htypeArgs⟩

omit h in
/-- The result of an operation, or its receiver where nothing changes. -/
theorem applied (call : Expr) (rule : OperationRule) {operation : OperationCall}
    (ho : operation.WellNamed) :
    (Queries.applied call rule operation).Gives p.names Binding.WellNamed := by
  unfold Queries.applied
  cases happly : rule.apply operation with
  | ok result =>
    refine Query.Gives.pure ?_
    split
    · exact ho.receiver
    · exact OperationRule.apply_wellNamed ho happly
  | error err =>
    simp only
    cases Failure.ofError? call.span operation.receiver err with
    | none => exact unknown
    | some failure => exact (Query.Gives.recordCall call.id failure).bind fun _ _ => unknown

theorem callBinding (call : Expr) (args : List Argument) :
    (q.callBinding p call args).Gives p.names Binding.WellNamed := by
  refine (h.callOperation call args).bind fun r hr => ?_
  split
  · exact unknown
  · exact applied _ _ (hr _ rfl)

/-! ### The rule -/

theorem nameBinding (e : Expr) : (q.nameBinding p e).Gives p.names Binding.WellNamed := by
  unfold Queries.nameBinding
  split
  · exact unknown
  · split
    · unfold Queries.rowParam
      split
      · exact unknown
      · refine (h.binding _).bind fun b hb => ?_
        split
        · exact Query.Gives.pure (hb.withShape _)
        · exact unknown
    · split
      · exact h.binding _
      · exact unknown

theorem ifBinding (thenBranch elseBranch : Expr) :
    (q.ifBinding thenBranch elseBranch).Gives p.names Binding.WellNamed := by
  refine (h.binding _).bind fun a ha => (h.binding _).map fun b _ => ?_
  split
  · exact ha
  · exact Binding.wellNamed_unknown

theorem whenBinding (branches : List WhenBranch) :
    (q.whenBinding branches).Gives p.names Binding.WellNamed := by
  unfold Queries.whenBinding
  split
  · refine (Query.Gives.mapM fun b _ => h.binding b.body).map fun bs hbs => ?_
    unfold shared
    split
    · exact Binding.wellNamed_unknown
    · split
      · exact hbs _ (List.mem_cons_self ..)
      · exact Binding.wellNamed_unknown
  · exact unknown

theorem newBinding (e : Expr) : (q.newBinding p e).Gives p.names Binding.WellNamed := by
  unfold Queries.newBinding
  split
  · refine (Query.Gives.bindingOfType p _).map fun r hr => ?_
    cases r with
    | none => exact Binding.wellNamed_unknown
    | some b => exact hr b rfl
  · split
    · exact h.nameBinding e
    · exact h.binding _
    · unfold Queries.blockBinding
      split
      · exact h.binding _
      · exact unknown
    · exact h.ifBinding _ _
    · exact h.whenBinding _
    · exact (h.binding _).map fun b hb => hb.navigate _
    · split
      · exact (h.binding _).map fun b hb => hb.navigate _
      · exact unknown
    · exact h.callBinding e _
    · exact unknown

/-- What is inferred is remembered, and what is remembered is well named. -/
theorem bindingRule (e : Expr) : (q.bindingRule p e).Gives p.names Binding.WellNamed := by
  intro m b m' hrun hm
  rcases bindingRule_cases hrun with ⟨hb, rfl⟩ | ⟨-, rfl, rfl⟩ | ⟨-, -, m₁, hnew, rfl⟩
  · exact ⟨hm, hm.bindings hb⟩
  · exact ⟨hm, Binding.wellNamed_unknown⟩
  · obtain ⟨hm₁, hb⟩ := h.newBinding e _ _ _ hnew (hm.opening e.id)
    exact ⟨hm₁.closing e.id hb, hb⟩

end WellNamed

/-- At any depth, questions have well named answers. -/
theorem ofDepth_wellNamed (p : Program) : ∀ depth, (ofDepth p depth).WellNamed p
  | 0 =>
    { admits :=
        { Query.Gives.compositional p.names with
          binding := fun _ _ _ _ h => nomatch h
          type := fun _ _ _ _ h => nomatch h
          schema := fun name => (Query.Gives.markerSchema p name).any }
      binding := fun _ _ _ _ h => nomatch h }
  | depth + 1 =>
    have ih := ofDepth_wellNamed p depth
    { admits :=
        { Query.Gives.compositional p.names with
          binding := fun {e} _ => (ih.bindingRule e).any
          type := fun {e} _ =>
            ih.admits.typeRule (e.covered_true p) (ih.admits.binding trivial)
          schema := fun name => (Query.Gives.markerSchema p name).any }
      binding := fun e => ih.bindingRule e }

end Queries

/-! ## Answers -/

/-- The schemas in the answer are well named. -/
def Answer.WellNamed : Answer → Prop
  | .binding b => b.WellNamed
  | .type _ => True
  | .marker r => ∀ s ∈ r, s.WellNamed
  | .written r => ∀ b ∈ r, b.WellNamed

namespace Program

variable (p : Program)

theorem ask_wellNamed (q : Question) : (p.ask q).Gives p.names Answer.WellNamed := by
  have h := Queries.ofDepth_wellNamed p p.depth
  cases q with
  | binding e => exact (h.binding e).map fun _ hb => hb
  | type e => exact (h.admits.type (e := e) trivial).map fun _ _ => trivial
  | marker name => exact (Query.Gives.markerSchema p name).map fun _ hr => hr
  | written type => exact (Query.Gives.bindingOfType p type).map fun _ hr => hr

theorem askAll_wellNamed (qs : List Question) :
    (p.askAll qs).Gives p.names fun answers => ∀ a ∈ answers, a.WellNamed :=
  Query.Gives.mapM fun q _ => p.ask_wellNamed q

end Program

/-- Column names are distinct at any depth: in what is obtained by operations on schemas, in what
an operation makes of well named frames, and in every answer behind any questions. -/
theorem wellNamed_everywhere :
    (∀ s : Schema, s.Obtained → s.WellNamed) ∧
    (∀ (rule : OperationRule) (call : OperationCall) (b : Binding), call.WellNamed →
      rule.apply call = .ok b → b.WellNamed) ∧
    ∀ (p : Program) (qs : List Question) (answers : List Answer) (m : Memo),
      p.askAll qs Memo.empty = some (answers, m) → ∀ a ∈ answers, a.WellNamed :=
  ⟨fun _ hs => hs.wellNamed, fun _ _ _ hcall hb => OperationRule.apply_wellNamed hcall hb,
    fun p qs _ _ h => (p.askAll_wellNamed qs _ _ _ h (Memo.WellNamed.empty p.names)).2⟩

/-- A frame of two columns is grouped by one of them. -/
def groupText : String :=
  "@DataSchema\ninterface Person \x7b\n    val name: String\n    val age: Int\n\x7d\n" ++
  "fun f(df: DataFrame<Person>) \x7b\n    df.groupBy(\"name\")\n\x7d\n"

/-- The schema of two columns, one of the operations on frames of that schema, and what is
inferred in `groupText`. -/
theorem wellNamed_everywhere_groupText :
    (∃ s : Schema, s.Obtained ∧ s.names = ["name", "age"] ∧ s.WellNamed ∧
      ∃ rule ∈ Catalog.standardRules, ∃ b t,
        rule.apply ⟨.known .dataFrame s none, [.text "name"], []⟩ = .ok b ∧ b.schema? = some t ∧
          t.names = ["name", "group"] ∧ b.WellNamed) ∧
    ∃ u answers m, SourceUnit.ofText groupText = .ok u ∧
      (Program.ofUnit u).askAll (u.exprs.map .binding) Memo.empty = some (answers, m) ∧
      ∃ b t, Answer.binding b ∈ answers ∧ b.schema? = some t ∧ t.names = ["name", "group"] ∧
        b.WellNamed := by
  obtain ⟨hobtained, happly, hasked⟩ := wellNamed_everywhere
  constructor
  · let s := (Schema.empty.withColumn (.ofValues "name" (.simple "String"))).withColumn
      (.ofValues "age" (.simple "Int"))
    have hs : s.Obtained := .withColumn (.withColumn .empty (.ofValues ..)) (.ofValues ..)
    have hcall : OperationCall.WellNamed ⟨.known .dataFrame s none, [.text "name"], []⟩ :=
      ⟨Binding.wellNamed_known.2 (hobtained s hs), by simp [OperationArg.WellNamed], by simp⟩
    have hgroup : (OperationRule.mk .dataFrame "groupBy" (.atLeast 1) .groupBy .groupBy).apply
        ⟨.known .dataFrame s none, [.text "name"], []⟩ = .ok _ := rfl
    exact ⟨s, hs, rfl, hobtained s hs, _, by simp [Catalog.standardRules], _, _, hgroup, rfl, rfl,
      happly _ _ _ hcall hgroup⟩
  · obtain ⟨u, hu, h⟩ : ∃ u, SourceUnit.ofText groupText = .ok u ∧
        (((Program.ofUnit u).askAll (u.exprs.map .binding) Memo.empty).any fun r =>
          r.1.any fun a =>
            match a with
            | .binding b => b.schema?.any fun t => t.names == ["name", "group"]
            | _ => false) = true := by
      refine SourceUnit.exists_ofText (Token.eq_ofList_append rfl rfl) ?_
      decide +kernel
    rw [Option.any_eq_true] at h
    obtain ⟨⟨answers, m⟩, hrun, h⟩ := h
    obtain ⟨a, ha, h⟩ := List.any_eq_true.1 h
    split at h
    · rename_i b
      obtain ⟨t, ht, hnames⟩ := (Option.any_eq_true ..).1 h
      exact ⟨u, answers, m, hu, hrun, b, t, ha, ht, beq_iff_eq.1 hnames,
        hasked _ _ _ _ hrun _ ha⟩
    · cases h

end FrameCheck
