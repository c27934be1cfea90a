import FrameCheck.Proofs.Inference.Rules
import FrameCheck.Proofs.Marker.Construction

/-!
# What a question does to the memo

A question puts back what is in progress, keeps what is remembered and appends to the
failures (`Extends`). While an expression is being inferred, and once it is remembered, no
other question touches its failure. Between questions no marker is open, and the markers that
are remembered are built (`Memo.Steady`).

A `Question` is one that is asked from outside, of an expression, a marker or a written type.

* `Queries.applied_run`, `Queries.bindingRule_cases` : what operations and inference do to a memo.
* `Queries.ofDepth_extending` : questions for expressions.
* `Admits.askWithin`, `Admits.askAll` : questions from outside, and many in a row.
* `Program.askAll_extends` : they extend the memo.
-/

namespace FrameCheck

/-! ## Growth of a memo -/

/-- The memo is extended. The failures of expressions in `own` may be recorded while these are
in progress, those of others may not. -/
structure Extends (own : ExprId → Prop) (m m' : Memo) : Prop where
  inProgress : m'.inProgress = m.inProgress
  openMarkers : m'.openMarkers = m.openMarkers
  bindings : ∀ {id : ExprId} {b : Binding}, m.bindings[id]? = some b → m'.bindings[id]? = some b
  markers : ∀ {n : String} {s : Schema}, m.markers[n]? = some s → m'.markers[n]? = some s
  callFailures : ∀ {id : ExprId} {f : Failure},
    m.callFailures[id]? = some f → m'.callFailures[id]? = some f
  markerFailures : m.markerFailures <+: m'.markerFailures
  /-- What is in progress is not remembered meanwhile. -/
  unbound : ∀ {id}, id ∈ m.inProgress → id ∉ m.bindings → id ∉ m'.bindings
  /-- What is in progress or remembered gets no failure. -/
  unfailed : ∀ {id}, ¬own id → id ∈ m.inProgress ∨ id ∈ m.bindings →
    m'.callFailures[id]? = m.callFailures[id]?
  /-- A new failure is that of an expression that is remembered. -/
  failed : ∀ {id}, ¬own id → id ∈ m'.callFailures → id ∈ m.callFailures ∨ id ∈ m'.bindings

namespace Extends

variable {own own' : ExprId → Prop} {m m' m'' : Memo}

theorem refl (own : ExprId → Prop) (m : Memo) : Extends own m m where
  inProgress := rfl
  openMarkers := rfl
  bindings h := h
  markers h := h
  callFailures h := h
  markerFailures := List.prefix_refl _
  unbound _ h := h
  unfailed _ _ := rfl
  failed _ h := Or.inl h

theorem mono (h : Extends own m m') (hown : ∀ id, own id → own' id) : Extends own' m m' :=
  { h with
    unfailed := fun hn => h.unfailed fun ho => hn (hown _ ho)
    failed := fun hn => h.failed fun ho => hn (hown _ ho) }

theorem mem_bindings (h : Extends own m m') {id : ExprId} (hid : id ∈ m.bindings) :
    id ∈ m'.bindings := by
  rw [Std.TreeMap.mem_iff_isSome_getElem?] at hid ⊢
  obtain ⟨b, hb⟩ := Option.isSome_iff_exists.1 hid
  simp [h.bindings hb]

theorem trans (h : Extends own m m') (h' : Extends own m' m'') : Extends own m m'' where
  inProgress := h'.inProgress.trans h.inProgress
  openMarkers := h'.openMarkers.trans h.openMarkers
  bindings hb := h'.bindings (h.bindings hb)
  markers hs := h'.markers (h.markers hs)
  callFailures hf := h'.callFailures (h.callFailures hf)
  markerFailures := h.markerFailures.trans h'.markerFailures
  unbound hid hb := h'.unbound (h.inProgress ▸ hid) (h.unbound hid hb)
  unfailed hn hid := by
    rw [h'.unfailed hn, h.unfailed hn hid]
    exact hid.imp (fun hp => h.inProgress ▸ hp) h.mem_bindings
  failed hn hf := by
    rcases h'.failed hn hf with hf | hb
    · exact (h.failed hn hf).imp_right h'.mem_bindings
    · exact Or.inr hb

/-- What a question for a marker does is an extension. -/
theorem of_grown {A A' : String → List String} (h : Grown A m A' m') : Extends own m m' where
  inProgress := h.inProgress
  openMarkers := h.openMarkers
  bindings hb := h.bindings ▸ hb
  markers := h.kept
  callFailures hf := h.callFailures ▸ hf
  markerFailures := h.recorded
  unbound _ hb := h.bindings ▸ hb
  unfailed _ _ := by rw [h.callFailures]
  failed _ hf := Or.inl (h.callFailures ▸ hf)

end Extends

/-- The memo where one more expression is being inferred. -/
def Memo.opening (m : Memo) (id : ExprId) : Memo := { m with inProgress := id :: m.inProgress }

/-- The memo where an expression that was being inferred is remembered. -/
def Memo.closing (m : Memo) (id : ExprId) (b : Binding) : Memo :=
  { m with inProgress := m.inProgress.erase id, bindings := m.bindings.insert id b }

/-- The memo where a call has failed, if there is a reason. -/
def Memo.recording (m : Memo) (call : ExprId) : Option Failure → Memo
  | none => m
  | some f => { m with callFailures := m.callFailures.insertIfNew call f }

namespace Memo

variable (m : Memo) (id : ExprId) (b : Binding) (f : Option Failure)

@[simp] theorem opening_inProgress : (m.opening id).inProgress = id :: m.inProgress := rfl
@[simp] theorem opening_bindings : (m.opening id).bindings = m.bindings := rfl
@[simp] theorem opening_callFailures : (m.opening id).callFailures = m.callFailures := rfl
@[simp] theorem closing_inProgress : (m.closing id b).inProgress = m.inProgress.erase id := rfl
@[simp] theorem closing_bindings : (m.closing id b).bindings = m.bindings.insert id b := rfl
@[simp] theorem closing_callFailures : (m.closing id b).callFailures = m.callFailures := rfl

@[simp] theorem recording_inProgress : (m.recording id f).inProgress = m.inProgress := by
  cases f <;> rfl

@[simp] theorem recording_bindings : (m.recording id f).bindings = m.bindings := by
  cases f <;> rfl

/-- The first reason of a failure counts. -/
theorem recording_callFailures (j : ExprId) : (m.recording id f).callFailures[j]? =
    if id = j then (m.callFailures[j]?).or f else m.callFailures[j]? := by
  cases f with
  | none => simp [recording]
  | some f =>
    simp only [recording, Std.TreeMap.getElem?_insertIfNew, Std.LawfulEqOrd.compare_eq_iff_eq,
      Std.TreeMap.mem_iff_isSome_getElem?]
    by_cases hid : id = j
    · subst hid
      cases m.callFailures[id]? <;> simp
    · simp [hid]

end Memo

/-- A failure is recorded for a call of its own. -/
theorem Extends.recording (m : Memo) (call : ExprId) (f : Option Failure) :
    Extends (· = call) m (m.recording call f) := by
  have hfailures := m.recording_callFailures call f
  cases f with
  | none => exact refl _ m
  | some f =>
    refine { refl (· = call) m with
      callFailures := fun {id} g hg => ?_
      unfailed := fun {id} hid _ => ?_
      failed := fun {id} hid h => Or.inl ?_ }
    · rw [hfailures, hg]
      split <;> rfl
    · rw [hfailures, if_neg (Ne.symm hid)]
    · rw [Std.TreeMap.mem_iff_isSome_getElem?, hfailures, if_neg (Ne.symm hid)] at h
      exact Std.TreeMap.mem_iff_isSome_getElem?.2 h

/-- Between questions no marker is open, and those that are remembered are built. -/
structure Memo.Steady (names : Resolution) (m : Memo) : Prop where
  openMarkers : m.openMarkers = []
  builds : ∃ A, Builds names A [] m

theorem Memo.Steady.empty (names : Resolution) : Memo.empty.Steady names :=
  ⟨rfl, fun _ => [], Builds.empty names _⟩

/-- Nothing but the markers and their failures matters to the invariant of the markers. -/
theorem Builds.congr {names : Resolution} {A : String → List String} {pending : List Failure}
    {m m' : Memo} (h : Builds names A pending m) (hm : m'.markers = m.markers)
    (ho : m'.openMarkers = m.openMarkers) (hf : m'.markerFailures = m.markerFailures) :
    Builds names A pending m' where
  declared := by rw [hm]; exact h.declared
  self := by rw [hm]; exact h.self
  leads := by rw [hm]; exact h.leads
  closed := by rw [hm]; exact h.closed
  known := by rw [hm, ho]; exact h.known
  unbuilt := by rw [hm, ho]; exact h.unbuilt
  nodup := ho ▸ h.nodup
  built := by rw [hm, hf]; exact h.built

theorem Memo.Steady.congr {names : Resolution} {m m' : Memo} (h : m.Steady names)
    (hm : m'.markers = m.markers) (ho : m'.openMarkers = m.openMarkers)
    (hf : m'.markerFailures = m.markerFailures) : m'.Steady names := by
  obtain ⟨A, hA⟩ := h.builds
  exact ⟨ho.trans h.openMarkers, A, hA.congr hm ho hf⟩

theorem Memo.Steady.opening {names : Resolution} {m : Memo} (h : m.Steady names) (id : ExprId) :
    (m.opening id).Steady names :=
  h.congr rfl rfl rfl

theorem Memo.Steady.recording {names : Resolution} {m : Memo} (h : m.Steady names) (id : ExprId)
    (f : Option Failure) : (m.recording id f).Steady names := by
  cases f with
  | none => exact h
  | some f => exact h.congr rfl rfl rfl

/-- A question for a marker has an answer, and leaves no marker open. -/
theorem Memo.Steady.markerSchema_run {p : Program} {m : Memo} (h : m.Steady p.names) (n : String) :
    ∃ A A' m', p.markerSchema n m = some (m'.markers[n]?, m') ∧ Grown A m A' m' ∧
      m'.Steady p.names := by
  obtain ⟨A, hA⟩ := h.builds
  obtain ⟨A', m', hrun, hans⟩ := p.markerSchema_run hA h.openMarkers n
  exact ⟨A, A', m', hrun, hans.grown, hans.grown.openMarkers.trans h.openMarkers, A', hans.builds⟩

/-! ## Questions inside of each other -/

/-- A question that keeps what holds of the memo, and extends it. -/
def Query.Keeping (I : Memo → Prop) (own : ExprId → Prop) (α : Type) (x : Unit → Query α) : Prop :=
  ∀ m a m', x () m = some (a, m') → I m → I m' ∧ Extends own m m'

namespace Query.Keeping

variable {I : Memo → Prop} {own own' : ExprId → Prop}

theorem compositional (I : Memo → Prop) (own : ExprId → Prop) :
    Compositional (Query.Keeping I own) where
  answer a := by
    intro m b m' h hm
    cases h
    exact ⟨hm, Extends.refl _ _⟩
  next hx hf := by
    intro m b m'' h hm
    obtain ⟨a, m', h, h'⟩ := Query.bind_eq_some.1 h
    obtain ⟨hm', he⟩ := hx m a m' h hm
    obtain ⟨hm'', he'⟩ := hf a m' b m'' h' hm'
    exact ⟨hm'', he.trans he'⟩

theorem mono {α : Type} {x : Unit → Query α} (h : Query.Keeping I own α x)
    (hown : ∀ id, own id → own' id) : Query.Keeping I own' α x := fun m a m' hx hm =>
  ⟨(h m a m' hx hm).1, (h m a m' hx hm).2.mono hown⟩

theorem markerSchema (p : Program) (own : ExprId → Prop) (n : String) :
    Query.Keeping (Memo.Steady p.names) own _ fun _ => p.markerSchema n := by
  intro m a m' h hm
  obtain ⟨A, A', m₁, hrun, hgrown, hm₁⟩ := hm.markerSchema_run n
  cases h.symm.trans hrun
  exact ⟨hm₁, Extends.of_grown hgrown⟩

end Query.Keeping

theorem Expr.covered_true (p : Program) (e : Expr) : e.Covered p fun _ => True :=
  ⟨fun _ _ => trivial, fun _ _ _ _ _ _ => trivial, fun _ _ _ _ _ _ _ _ _ => trivial,
    fun _ _ _ _ => trivial⟩

/-- Why an operation fails, at the span of its call. For want of knowledge none fails. -/
def OperationRule.failure? (rule : OperationRule) (span : Span) (operation : OperationCall) :
    Option Failure :=
  match rule.apply operation with
  | .ok _ => none
  | .error err => Failure.ofError? span operation.receiver err

namespace Queries

/-- The answer to an operation comes from the operation alone, and its failure is recorded. -/
theorem applied_run (e : Expr) (rule : OperationRule) (operation : OperationCall) :
    ∃ b, ∀ m, applied e rule operation m =
      some (b, m.recording e.id (rule.failure? e.span operation)) := by
  unfold applied OperationRule.failure?
  cases rule.apply operation with
  | ok b => exact ⟨_, fun m => rfl⟩
  | error err =>
    simp only
    cases Failure.ofError? e.span operation.receiver err with
    | none => exact ⟨_, fun m => rfl⟩
    | some f => exact ⟨_, fun m => rfl⟩

variable (p : Program)

/-- Questions that extend the memo, whatever they are asked for. -/
def Extending (q : Queries) : Prop :=
  ∀ own, Admits (Query.Keeping (Memo.Steady p.names) own) p (fun _ : Unit => q) fun _ => True

variable {p} {q : Queries}

theorem applied_extends (e : Expr) (rule : OperationRule) (operation : OperationCall) :
    Query.Keeping (Memo.Steady p.names) (· = e.id) _ fun _ => applied e rule operation := by
  intro m b m' h hm
  obtain ⟨b', hrun⟩ := applied_run e rule operation
  cases (hrun m).symm.trans h
  exact ⟨hm.recording _ _, Extends.recording _ _ _⟩

theorem newBinding_extends (hq : q.Extending p) (e : Expr) :
    Query.Keeping (Memo.Steady p.names) (· = e.id) _ fun _ => q.newBinding p e :=
  (hq _).newBinding (e.covered_true p) fun _ _ _ _ _ rule operation =>
    applied_extends e rule operation

/-- An expression that is inferred is opened before and remembered behind. -/
theorem extends_of_newBinding {e : Expr} {b : Binding} {m m' : Memo} (hb : e.id ∉ m.bindings)
    (hp : e.id ∉ m.inProgress) (h : Extends (· = e.id) (m.opening e.id) m') :
    Extends (fun _ => False) m (m'.closing e.id b) := by
  have hne : ∀ id, id ∈ m.inProgress ∨ id ∈ m.bindings → id ≠ e.id := by
    rintro id (h | h) rfl
    · exact hp h
    · exact hb h
  have hmem : ∀ {id}, id ∈ m'.bindings.insert e.id b ↔
      id = e.id ∨ id ∈ m'.bindings := fun {id} => by
    rw [Std.TreeMap.mem_insert, Std.LawfulEqOrd.compare_eq_iff_eq, eq_comm]
  constructor
  case inProgress =>
    rw [Memo.closing_inProgress, h.inProgress]
    exact List.erase_cons_head ..
  case openMarkers => exact h.openMarkers
  case bindings =>
    intro id c hc
    have hid := hne id (Or.inr (Std.TreeMap.mem_iff_isSome_getElem?.2 (by simp [hc])))
    rw [Memo.closing_bindings, Std.TreeMap.getElem?_insert, if_neg (by simpa using hid.symm)]
    exact h.bindings hc
  case markers => exact h.markers
  case callFailures => exact h.callFailures
  case markerFailures => exact h.markerFailures
  case unbound =>
    intro id hid hidb hidb'
    rcases hmem.1 hidb' with rfl | hidb'
    · exact hp hid
    · exact h.unbound (List.mem_cons_of_mem _ hid) hidb hidb'
  case unfailed =>
    intro id _ hid
    exact h.unfailed (hne id hid) (hid.imp_left (List.mem_cons_of_mem _))
  case failed =>
    intro id _ hf
    by_cases hid : id = e.id
    · exact Or.inr (hmem.2 (Or.inl hid))
    · exact (h.failed hid hf).imp_right fun hb => hmem.2 (Or.inr hb)

/-- The rule for bindings : what is remembered, or unknown in progress, or else inferred. -/
theorem bindingRule_run (p : Program) (q : Queries) (e : Expr) (m : Memo) :
    q.bindingRule p e m = match m.bindings[e.id]? with
      | some b => some (b, m)
      | none =>
        if e.id ∈ m.inProgress then some (.unknown, m)
        else (q.newBinding p e (m.opening e.id)).map fun r => (r.1, r.2.closing e.id r.1) := by
  unfold bindingRule
  rw [Query.bind_run]
  simp only [Query.memo, Option.bind_some]
  cases m.bindings[e.id]? with
  | some b => rfl
  | none =>
    simp only [List.contains_eq_mem, decide_eq_true_eq]
    split
    · rfl
    · rw [Query.bind_run, Query.openExpr, Query.modify, Option.bind_some, Query.bind_run]
      show (q.newBinding p e (m.opening e.id)).bind _ = _
      cases q.newBinding p e (m.opening e.id) <;> rfl

/-- What an answer of the rule for bindings comes from. -/
theorem bindingRule_cases {e : Expr} {m m' : Memo} {b : Binding}
    (h : q.bindingRule p e m = some (b, m')) :
    (m.bindings[e.id]? = some b ∧ m' = m) ∨
    (e.id ∈ m.inProgress ∧ b = .unknown ∧ m' = m) ∨
    (e.id ∉ m.bindings ∧ e.id ∉ m.inProgress ∧ ∃ m₁,
      q.newBinding p e (m.opening e.id) = some (b, m₁) ∧ m' = m₁.closing e.id b) := by
  rw [bindingRule_run] at h
  cases hb : m.bindings[e.id]? with
  | some b' =>
    rw [hb] at h
    cases h
    exact Or.inl ⟨rfl, rfl⟩
  | none =>
    simp only [hb] at h
    split at h
    · rename_i hp
      cases h
      exact Or.inr (Or.inl ⟨hp, rfl, rfl⟩)
    · rename_i hp
      obtain ⟨⟨b', m₁⟩, hnew, h⟩ := Option.map_eq_some_iff.1 h
      cases h
      refine Or.inr (Or.inr ⟨?_, hp, m₁, hnew, rfl⟩)
      rw [Std.TreeMap.mem_iff_isSome_getElem?, hb]
      simp

theorem bindingRule_extends (hq : q.Extending p) (e : Expr) :
    Query.Keeping (Memo.Steady p.names) (fun _ => False) _ fun _ => q.bindingRule p e := by
  intro m b m' h hm
  rcases bindingRule_cases h with ⟨-, rfl⟩ | ⟨-, -, rfl⟩ | ⟨hb, hp, m₁, hnew, rfl⟩
  · exact ⟨hm, Extends.refl _ _⟩
  · exact ⟨hm, Extends.refl _ _⟩
  · obtain ⟨hm₁, he⟩ := newBinding_extends hq e _ _ _ hnew (hm.opening e.id)
    exact ⟨hm₁.congr rfl rfl rfl, extends_of_newBinding hb hp he⟩

/-- The answer to a question is remembered, if the expression is not in progress. -/
theorem bindings_of_binding {depth : Nat} {e : Expr} {m m' : Memo} {b : Binding}
    (h : (ofDepth p depth).binding e m = some (b, m')) (hp : e.id ∉ m.inProgress) :
    m'.bindings[e.id]? = some b := by
  cases depth with
  | zero => cases h
  | succ depth =>
    rcases bindingRule_cases h with ⟨hb, rfl⟩ | ⟨hp', -⟩ | ⟨-, -, m₁, -, rfl⟩
    · exact hb
    · exact absurd hp' hp
    · exact Std.TreeMap.getElem?_insert_self

/-- Questions extend the memo, at any depth. -/
theorem ofDepth_extending (p : Program) : ∀ depth, (ofDepth p depth).Extending p
  | 0, own =>
    { Query.Keeping.compositional _ own with
      binding := fun _ _ _ _ h => nomatch h
      type := fun _ _ _ _ h => nomatch h
      schema := Query.Keeping.markerSchema p own }
  | depth + 1, own =>
    have hq := ofDepth_extending p depth
    { Query.Keeping.compositional _ own with
      binding := fun {e} _ => (bindingRule_extends hq e).mono fun _ => False.elim
      type := fun {e} _ => (hq own).typeRule (e.covered_true p) ((hq own).binding trivial)
      schema := Query.Keeping.markerSchema p own }

end Queries

/-! ## Questions from outside -/

/-- A question that may be asked between others. -/
inductive Question where
  | binding (e : Expr)
  | type (e : Expr)
  | marker (name : String)
  /-- The binding that a written type gives. -/
  | written (type : TypeRef)

inductive Answer where
  | binding (b : Binding)
  | type (type : Option TypeRef)
  | marker (schema : Option Schema)
  | written (b : Option Binding)

namespace Program

variable (p : Program)

def ask : Question → Query Answer
  | .binding e => return .binding (← p.bindingOf e)
  | .type e => return .type (← p.typeOf e)
  | .marker name => return .marker (← p.markerSchema name)
  | .written type => return .written (← p.bindingOfType type)

/-- Asks several questions in a row, of one memo. -/
def askAll (qs : List Question) : Query (List Answer) := qs.mapM p.ask

/-- A memo that questions have left. -/
def Reached (m : Memo) : Prop := ∃ qs answers, p.askAll qs Memo.empty = some (answers, m)

/-- The question, where each may lead on to others up to some depth. -/
def askWithin (depth : Nat) : Question → Query Answer
  | .binding e => return .binding (← (Queries.ofDepth p depth).binding e)
  | .type e => return .type (← (Queries.ofDepth p depth).type e)
  | .marker name => return .marker (← p.markerSchema name)
  | .written type => return .written (← p.bindingOfType type)

theorem ask_eq_askWithin (q : Question) : p.ask q = p.askWithin p.depth q := by
  cases q <;> rfl

end Program

/-- The question is for an expression in `A`, or for none. -/
def Question.Asks (A : Expr → Prop) : Question → Prop
  | .binding e | .type e => A e
  | .marker _ | .written _ => True

theorem Question.asks_true (q : Question) : q.Asks fun _ => True := by
  cases q <;> trivial

namespace Admits

variable {P : (α : Type) → (Unit → Query α) → Prop} {p : Program} {A : Expr → Prop}

/-- What the questions at some depth have, a question from outside has. -/
theorem askWithin {depth : Nat} (h : Admits P p (fun _ => Queries.ofDepth p depth) A)
    {q : Question} (hq : q.Asks A) : P _ fun _ => p.askWithin depth q := by
  cases q with
  | binding e => exact h.map (h.binding hq) _
  | type e => exact h.map (h.type hq) _
  | marker name => exact h.map (h.schema name) _
  | written type => exact h.map (h.bindingOfType type) _

/-- So do many in a row. -/
theorem askAll (h : Admits P p (fun _ => Queries.ofDepth p p.depth) A) {qs : List Question}
    (hqs : ∀ q ∈ qs, q.Asks A) : P _ fun _ => p.askAll qs :=
  h.mapM fun q hq => by simpa only [Program.ask_eq_askWithin] using h.askWithin (hqs q hq)

end Admits

namespace Program

variable {p : Program}

theorem askAll_extends (qs : List Question) :
    Query.Keeping (Memo.Steady p.names) (fun _ => False) _ fun _ => p.askAll qs :=
  (Queries.ofDepth_extending p p.depth _).askAll fun q _ => q.asks_true

theorem ask_marker {m m' : Memo} {n : String} {s : Option Schema}
    (h : p.markerSchema n m = some (s, m')) : p.ask (.marker n) m = some (.marker s, m') :=
  Query.bind_eq_some.2 ⟨s, m', h, rfl⟩

theorem askAll_cons {m m' m'' : Memo} {q : Question} {qs : List Question} {a : Answer}
    {answers : List Answer} (h : p.ask q m = some (a, m'))
    (hs : p.askAll qs m' = some (answers, m'')) :
    p.askAll (q :: qs) m = some (a :: answers, m'') := by
  rw [askAll, List.mapM_cons]
  exact Query.bind_eq_some.2 ⟨a, m', h, Query.bind_eq_some.2 ⟨answers, m'', hs, rfl⟩⟩

theorem Reached.empty (p : Program) : p.Reached Memo.empty := ⟨[], [], rfl⟩

theorem Reached.ask {m m' : Memo} (h : p.Reached m) {q : Question} {a : Answer}
    (ha : p.ask q m = some (a, m')) : p.Reached m' := by
  obtain ⟨qs, answers, h⟩ := h
  refine ⟨qs ++ [q], answers ++ [a], ?_⟩
  rw [askAll, List.mapM_append]
  exact Query.bind_eq_some.2 ⟨_, _, h, Query.bind_eq_some.2 ⟨[a], m', askAll_cons ha rfl, rfl⟩⟩

theorem Reached.markerSchema {m m' : Memo} (h : p.Reached m) {n : String} {r : Option Schema}
    (hr : p.markerSchema n m = some (r, m')) : p.Reached m' :=
  h.ask (ask_marker hr)

/-- Between questions from outside no marker is open. -/
theorem Reached.steady {m : Memo} (h : p.Reached m) : m.Steady p.names := by
  obtain ⟨qs, answers, h⟩ := h
  exact (askAll_extends qs _ _ _ h (Memo.Steady.empty _)).1

end Program

end FrameCheck
