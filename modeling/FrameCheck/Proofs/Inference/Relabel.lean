import FrameCheck.Proofs.Inference.Rules
import FrameCheck.Proofs.Resolution.Relabel

/-!
# Inference does not depend on spans and names

A span matters to inference only as the place of a failure that is recorded, and a name only as far as
it refers to a declaration. So a program with other spans and names has the same answers, and leaves
a memo that is the same but for the spans of its failures. `Query.Follows` says that of two queries,
for every two memos of which one is the other with other spans.

* `Query.Follows.next`, `Query.Follows.mapM` : the rules for combined queries.
* `Program.Respans.bindingOf`, `Program.Respans.typeOf` : the two questions.
-/

namespace FrameCheck

def Failure.respan (f : Span → Span) (x : Failure) : Failure := { x with span := f x.span }

/-- The memo `m'` is `m` with other spans of its failures. -/
structure Memo.Respans (f : Span → Span) (m m' : Memo) : Prop where
  bindings : m'.bindings = m.bindings
  inProgress : m'.inProgress = m.inProgress
  markers : m'.markers = m.markers
  openMarkers : m'.openMarkers = m.openMarkers
  callFailures : Changed (Failure.respan f) m.callFailures m'.callFailures
  markerFailures : m'.markerFailures = m.markerFailures.map (Failure.respan f)

theorem Memo.Respans.empty {f : Span → Span} : Memo.empty.Respans f Memo.empty :=
  ⟨rfl, rfl, rfl, rfl, Changed.empty, rfl⟩

namespace Query

variable {α β γ δ : Type} {f : Span → Span}

/-- From memos that differ in spans only, the queries end alike, in such memos and with values
that are changed by `g`. -/
def Follows (f : Span → Span) (g : α → β) (q : Query α) (q' : Query β) : Prop :=
  ∀ m m' : Memo, m.Respans f m' →
    Option.Rel (fun x y => y.1 = g x.1 ∧ x.2.Respans f y.2) (q m) (q' m')

namespace Follows

variable {g : α → β} {q : Query α} {q' : Query β}

theorem done {a : α} {b : β} (h : b = g a) : Follows f g (pure a) (pure b) :=
  fun _ _ hm => .some ⟨h, hm⟩

theorem endless : Follows f g Query.endless Query.endless := fun _ _ _ => .none

theorem next {k : α → Query γ} {k' : β → Query δ} {h : γ → δ} (hq : Follows f g q q')
    (hk : ∀ a, Follows f h (k a) (k' (g a))) : Follows f h (q >>= k) (q' >>= k') := by
  intro m m' hm
  rw [Query.bind_run, Query.bind_run]
  have hqm := hq m m' hm
  rcases hs : q m with _ | ⟨a, n⟩ <;> rcases hs' : q' m' with _ | ⟨b, n'⟩ <;>
    rw [hs, hs'] at hqm
  · exact .none
  · cases hqm
  · cases hqm
  · cases hqm with
    | some h =>
      obtain ⟨rfl, hn⟩ := h
      exact hk a n n' hn

/-- A query whose value holds no span, and then one that goes on. -/
theorem same {q q' : Query α} {k : α → Query γ} {k' : α → Query δ} {h : γ → δ}
    (hq : Follows f id q q') (hk : ∀ a, Follows f h (k a) (k' a)) :
    Follows f h (q >>= k) (q' >>= k') :=
  next hq hk

theorem ite {c c' : Prop} [Decidable c] [Decidable c'] {p : Query α} {p' : Query β}
    (hc : c' = c) (h : c → Follows f g q q') (h' : ¬c → Follows f g p p') :
    Follows f g (if c then q else p) (if c' then q' else p') :=
  rel_ite (R := fun q q' => Follows f g q q') hc.to_iff h h'

theorem foldlM {step : β → α → Query β} {step' : β → δ → Query β} (item : α → δ)
    (h : ∀ b a, Follows f id (step b a) (step' b (item a))) :
    ∀ (l : List α) (b : β), Follows f id (l.foldlM step b) ((l.map item).foldlM step' b)
  | [], _ => done rfl
  | a :: l, b => by
    rw [List.map_cons, List.foldlM_cons, List.foldlM_cons]
    exact same (h b a) fun b' => foldlM item h l b'

theorem mapM {k : α → Query γ} {k' : β → Query γ} (item : α → β)
    (h : ∀ a, Follows f id (k a) (k' (item a))) :
    ∀ l : List α, Follows f id (l.mapM k) ((l.map item).mapM k')
  | [] => done rfl
  | a :: l => by
    rw [List.map_cons, List.mapM_cons, List.mapM_cons]
    exact same (h a) fun b => same (mapM item h l) fun bs => done rfl

/-! ### Memos -/

theorem modify {t t' : Memo → Memo} (h : ∀ m m', m.Respans f m' → (t m).Respans f (t' m')) :
    Follows f id (Query.modify t) (Query.modify t') :=
  fun m m' hm => .some ⟨rfl, h m m' hm⟩

theorem openExpr (id : ExprId) : Follows f (fun a => a) (openExpr id) (openExpr id) :=
  modify fun _ _ hm => { hm with inProgress := congrArg (id :: ·) hm.inProgress }

theorem closeExpr (id : ExprId) (b : Binding) :
    Follows f (fun a => a) (closeExpr id b) (closeExpr id b) :=
  modify fun _ _ hm => { hm with
    inProgress := congrArg (fun l => l.erase id) hm.inProgress
    bindings := congrArg (fun t => t.insert id b) hm.bindings }

theorem recordCall (call : ExprId) (x : Failure) :
    Follows f id (recordCall call x) (recordCall call (x.respan f)) :=
  modify fun _ _ hm => { hm with callFailures := hm.callFailures.insertIfNew call x }

theorem openMarker (name : String) : Follows f id (openMarker name) (openMarker name) :=
  modify fun _ _ hm => { hm with openMarkers := congrArg (name :: ·) hm.openMarkers }

theorem closeMarker (name : String) (schema : Schema) :
    Follows f id (closeMarker name schema) (closeMarker name schema) :=
  modify fun _ _ hm => { hm with
    openMarkers := congrArg List.tail hm.openMarkers
    markers := congrArg (fun t => t.insert name schema) hm.markers }

theorem recordMarker (x : Failure) :
    Follows f id (recordMarker x) (recordMarker (x.respan f)) :=
  modify fun _ _ hm => { hm with
    markerFailures := by
      rw [hm.markerFailures, List.map_append]
      rfl }

/-- A query that goes on from what the memo holds. -/
theorem memo {k : Memo → Query γ} {k' : Memo → Query δ} {h : γ → δ}
    (hk : ∀ m m', Memo.Respans f m m' → Follows f h (k m) (k' m')) :
    Follows f h (Query.memo >>= k) (Query.memo >>= k') :=
  fun m m' hm => hk m m' hm m m' hm

end Follows

end Query

/-! ## Markers -/

open Query

variable {g : Relabel}

namespace MarkerQuery

variable {names names' : Resolution} {schemaOf schemaOf' : MarkerQuery}

theorem column_follows (hn : names.Relabels g names')
    (hs : ∀ name, Follows g.span id (schemaOf name) (schemaOf' name)) (name : String)
    (type : TypeRef) :
    Follows g.span id (column names schemaOf name type) (column names' schemaOf' name type) := by
  unfold column
  extract_lets values
  split
  · exact .done rfl
  · rename_i kind marker _
    refine .ite (by rw [hn.marker?, Option.isSome_map]) (fun _ => ?_) fun _ => ?_
    · exact (hs _).same fun children => .done rfl
    · exact .ite rfl (fun _ => .done rfl) fun _ => .done rfl

theorem addColumn_follows (marker : String) (span : Span) (schema : Schema) (column : Column) :
    Follows g.span id (addColumn marker span schema column)
      (addColumn marker (g.span span) schema column) := by
  unfold addColumn
  cases schema.lookup? column.name with
  | none => exact .done rfl
  | some known =>
    exact .ite rfl (fun _ => (Follows.recordMarker _).same fun _ => .done rfl)
      fun _ => .done rfl

theorem addSupertype_follows (hs : ∀ name, Follows g.span id (schemaOf name) (schemaOf' name))
    (c : ClassDecl) (schema : Schema) (supertype : TypeRef) :
    Follows g.span id (addSupertype schemaOf c schema supertype)
      (addSupertype schemaOf' (c.relabel g) schema supertype) := by
  refine (hs _).same fun inherited => ?_
  cases inherited with
  | none => exact .done rfl
  | some inherited =>
    have := Follows.foldlM (f := g.span) (fun c => c) (fun schema column =>
      addColumn_follows c.name c.nameSpan schema column) inherited.columns schema
    rwa [List.map_id'] at this

theorem addProperty_follows (hn : names.Relabels g names')
    (hs : ∀ name, Follows g.span id (schemaOf name) (schemaOf' name)) (c : ClassDecl)
    (schema : Schema) (p : PropertyDecl) :
    Follows g.span id (addProperty names schemaOf c schema p)
      (addProperty names' schemaOf' (c.relabel g) schema (p.relabel g)) := by
  unfold addProperty
  rw [PropertyDecl.isStored_relabel, PropertyDecl.columnName_relabel,
    show (p.relabel g).type = p.type from rfl]
  split
  · exact (column_follows hn hs _ _).same fun column =>
      addColumn_follows c.name p.nameSpan schema column
  · exact .done rfl

theorem ofClass_follows (hn : names.Relabels g names')
    (hs : ∀ name, Follows g.span id (schemaOf name) (schemaOf' name)) (c : ClassDecl) :
    Follows g.span id (ofClass names schemaOf c) (ofClass names' schemaOf' (c.relabel g)) := by
  have hsuper := Follows.foldlM (f := g.span) (fun t => t) (fun schema t =>
    addSupertype_follows hs c schema t) c.supertypes Schema.empty
  rw [List.map_id'] at hsuper
  exact hsuper.same fun inherited =>
    Follows.foldlM (PropertyDecl.relabel g) (fun schema p => addProperty_follows hn hs c schema p)
      c.properties inherited

theorem ofDepth_follows (hn : names.Relabels g names') :
    ∀ (depth : Nat) (name : String), Follows g.span id (ofDepth names depth name)
      (ofDepth names' depth name)
  | 0, _ => .endless
  | depth + 1, name => by
    refine .memo fun m m' hm => ?_
    rw [hm.markers]
    cases m.markers[name]? with
    | some schema => exact .done rfl
    | none =>
      rw [hm.openMarkers]
      refine .ite rfl (fun _ => .done rfl) fun _ => ?_
      rw [hn.marker?]
      cases names.marker? name with
      | none => exact .done rfl
      | some c =>
        refine (Follows.openMarker name).same fun _ => ?_
        refine (ofClass_follows hn (ofDepth_follows hn depth) c).same fun schema => ?_
        exact (Follows.closeMarker name schema).same fun _ => .done rfl

end MarkerQuery

/-! ## Programs -/

/-- The program `p'` is `p` with other spans and names. -/
structure Program.Relabels (g : Relabel) (p p' : Program) : Prop where
  names : p.names.Relabels g p'.names
  operations : p'.operations = p.operations

theorem Program.Relabels.ofUnit {g : Relabel} {u : SourceUnit} (hu : u.Suits g) :
    (Program.ofUnit u).Relabels g (Program.ofUnit (u.relabel g)) :=
  ⟨Resolution.Relabels.ofUnit hu, rfl⟩

namespace Program.Relabels

variable {p p' : Program} (hp : p.Relabels g p')

include hp

theorem markerSchema (name : String) :
    Follows g.span id (p.markerSchema name) (p'.markerSchema name) := by
  unfold Program.markerSchema
  rw [hp.names.markers.size_eq]
  exact MarkerQuery.ofDepth_follows hp.names _ name

theorem bindingOfType (type : TypeRef) :
    Follows g.span id (p.bindingOfType type) (p'.bindingOfType type) := by
  unfold Program.bindingOfType
  split
  · refine (hp.markerSchema _).same fun schema => ?_
    cases schema with
    | none => exact .done rfl
    | some schema =>
      refine .ite rfl (fun _ => ?_) fun _ => .done rfl
      exact (hp.markerSchema _).same fun rows => .done rfl
  · exact .done rfl

end Program.Relabels

/-! ## Rules -/

/-- The queries `q'` go with `q`, on trees with other spans and names. -/
structure Queries.Relabels (g : Relabel) (q q' : Queries) : Prop where
  binding : ∀ e, Follows g.span id (q.binding e) (q'.binding (e.relabel g))
  type : ∀ e, Follows g.span id (q.type e) (q'.type (e.relabel g))

namespace Queries.Relabels

variable {p p' : Program} (hp : p.Relabels g p') {q q' : Queries} (hq : q.Relabels g q')

include hq

theorem columnType (receiver : Expr) (name : String) :
    Follows g.span id (q.columnType receiver name) (q'.columnType (receiver.relabel g) name) := by
  refine (hq.binding receiver).same fun b => ?_
  cases b with
  | unknown => exact .done rfl
  | known shape schema origin =>
    dsimp only
    split
    · exact .done rfl
    · exact .done rfl
    · exact .done rfl
    · exact .ite rfl (fun _ => .done rfl) fun _ => .done rfl
    · exact .ite rfl (fun _ => .done rfl) fun _ => .done rfl

theorem dataType (e : Expr) : Follows g.span id (q.dataType e) (q'.dataType (e.relabel g)) :=
  (hq.binding e).same fun _ => .done rfl

theorem arithmeticType (isAdd : Bool) (left right : Expr) :
    Follows g.span id (q.arithmeticType isAdd left right)
      (q'.arithmeticType isAdd (left.relabel g) (right.relabel g)) := by
  refine (hq.type left).same fun a => ?_
  cases a with
  | none => exact .done rfl
  | some a =>
    refine .ite rfl (fun _ => .done rfl) fun _ => (hq.type right).same fun b => ?_
    cases b <;> exact .done rfl

theorem elvisType (left right : Expr) :
    Follows g.span id (q.elvisType left right) (q'.elvisType (left.relabel g) (right.relabel g)) := by
  refine (hq.type left).same fun a => ?_
  cases a with
  | none => exact .done rfl
  | some a => exact (hq.type right).same fun b => .done rfl

theorem binaryType (op : BinaryOp) (left right : Expr) :
    Follows g.span id (q.binaryType op left right)
      (q'.binaryType op (left.relabel g) (right.relabel g)) := by
  unfold Queries.binaryType
  split
  · exact hq.arithmeticType true left right
  all_goals first
    | exact hq.arithmeticType false left right
    | exact hq.elvisType left right
    | exact .done rfl

theorem ifType (thenBranch elseBranch : Expr) :
    Follows g.span id (q.ifType thenBranch elseBranch)
      (q'.ifType (thenBranch.relabel g) (elseBranch.relabel g)) := by
  refine (hq.type thenBranch).same fun a => ?_
  cases a with
  | none => exact .done rfl
  | some a =>
    refine (hq.type elseBranch).same fun b => ?_
    cases b <;> exact .done rfl

theorem branchesType : ∀ (branches : List WhenBranch) (seen : Option TypeRef),
    Follows g.span id (q.branchesType seen branches)
      (q'.branchesType seen (branches.map (WhenBranch.relabel g)))
  | [], seen => .done rfl
  | b :: rest, seen => by
    rw [List.map_cons]
    unfold Queries.branchesType
    rw [WhenBranch.body_relabel]
    refine (hq.type b.body).same fun t => ?_
    cases t with
    | none => exact .done rfl
    | some t =>
      cases seen with
      | none => exact branchesType rest (some t)
      | some s =>
        dsimp only
        cases s.either t with
        | none => exact .done rfl
        | some joined => exact branchesType rest (some joined)

theorem blockType (b : Block) : Follows g.span id (q.blockType b) (q'.blockType (b.relabel g)) := by
  unfold Queries.blockType
  rw [Block.tail?_relabel]
  cases b.tail? with
  | none => exact .done rfl
  | some e => exact hq.type e

omit hq in
include hp in
theorem expr?_bind (d : Declaration) :
    d.init.bind p'.names.expr? = (d.init.bind p.names.expr?).map (Expr.relabel g) := by
  cases d.init with
  | none => rfl
  | some id => exact hp.names.expr? id

include hp

theorem nameType (e : Expr) : Follows g.span id (q.nameType p e) (q'.nameType p' (e.relabel g)) := by
  unfold Queries.nameType
  rw [hp.names.typeOf?, hp.names.declaration?]
  cases p.names.typeOf? e with
  | some t => exact .done rfl
  | none =>
    cases p.names.declaration? e with
    | none => exact .done rfl
    | some d =>
      simp only [Option.map_some, Declaration.kind_relabel, Declaration.init_relabel]
      rw [hp.names.isStable, expr?_bind hp]
      split
      · exact hq.dataType e
      · cases p.names.isStable d with
        | false => exact .done rfl
        | true =>
          cases d.init.bind p.names.expr? with
          | none => exact .done rfl
          | some init => exact hq.type init

theorem plainType (e : Expr) : Follows g.span id (q.plainType p e) (q'.plainType p' (e.relabel g)) := by
  unfold Queries.plainType
  rw [hp.names.typeOf?]
  cases p.names.typeOf? e with
  | some t => exact .done rfl
  | none => exact hq.dataType e

theorem typeRule (e : Expr) : Follows g.span id (q.typeRule p e) (q'.typeRule p' (e.relabel g)) := by
  have hplain := hq.plainType hp e
  have hname := hq.nameType hp e
  have htype := hp.names.typeOf? e
  unfold Queries.typeRule
  rw [Expr.kind_relabel]
  cases e.kind
  case binary op left right => exact hq.binaryType op left right
  case unary op operand =>
    cases op
    case not => exact .done rfl
    all_goals exact hq.type operand
  case notNull inner => exact (hq.type inner).same fun _ => .done rfl
  case member receiver name nameSpan safe =>
    refine (hq.columnType receiver name).same fun t => ?_
    cases t with
    | none => exact .done htype
    | some t => exact .done rfl
  case index receiver indices =>
    rw [ExprKind.relabel, Expr.relabelAll_eq_map]
    rcases indices with _ | ⟨i, _ | ⟨j, rest⟩⟩
    · exact .done rfl
    · simp only [List.map_cons, List.map_nil, Expr.stringLiteral?_relabel]
      cases i.stringLiteral? with
      | none => exact .done rfl
      | some name => exact hq.columnType receiver name
    · exact .done rfl
  case ifElse condition thenBranch elseBranch =>
    cases elseBranch with
    | none => exact hplain
    | some elseBranch => exact hq.ifType thenBranch elseBranch
  case whenOf subject branches =>
    rw [ExprKind.relabel, WhenBranch.relabelAll_eq_map]
    refine .ite (by simp) (fun _ => hq.branchesType branches none) fun _ => .done rfl
  case block b => exact hq.blockType b
  case lambda params it b => exact hq.blockType b
  case name n => exact hname
  case call callee typeArgs args =>
    rw [ExprKind.relabel_call]
    exact hplain
  all_goals exact hplain

omit hp

/-! ### Arguments -/

theorem elementsType : ∀ (args : List Argument) (seen : Option TypeRef) (nullable : Bool),
    Follows g.span id (q.elementsType seen nullable args)
      (q'.elementsType seen nullable (args.map (Argument.relabel g)))
  | [], seen, nullable => .done rfl
  | arg :: rest, seen, nullable => by
    rw [List.map_cons]
    unfold Queries.elementsType
    rw [Argument.value_relabel, Expr.isNullLiteral_relabel]
    refine .ite rfl (fun _ => elementsType rest seen true) fun _ => ?_
    refine (hq.type arg.value).same fun t => ?_
    cases t with
    | none => exact .done rfl
    | some t =>
      dsimp only
      cases TypeRef.element seen t with
      | none => exact .done rfl
      | some joined => exact elementsType rest (some joined) (nullable || t.nullable)

theorem elementType (e : Expr) :
    Follows g.span id (q.elementType e) (q'.elementType (e.relabel g)) := by
  unfold Queries.elementType
  rw [Expr.kind_relabel]
  cases e.kind
  case call callee typeArgs args =>
    rcases callee with ⟨id, span, kind⟩
    rw [ExprKind.relabel_call, Expr.relabelCalled]
    cases kind
    case name n =>
      refine .ite rfl (fun _ => ?_) fun _ => .done rfl
      cases typeArgs with
      | cons t ts => exact .done rfl
      | nil => exact hq.elementsType args none false
    case call callee typeArgs args =>
      rw [ExprKind.relabel_call]
      exact .done rfl
    all_goals exact .done rfl
  all_goals exact .done rfl

theorem columnsArg : ∀ columns : List (String × Expr),
    Follows g.span id (q.columnsArg columns)
      (q'.columnsArg (columns.map fun c => (c.1, c.2.relabel g)))
  | [] => .done rfl
  | (_, value) :: rest =>
    (hq.type value).same fun _ => (columnsArg rest).same fun _ => .done rfl

theorem dataArg (e : Expr) : Follows g.span id (q.dataArg e) (q'.dataArg (e.relabel g)) :=
  (hq.binding e).same fun _ => .ite rfl (fun _ => .done rfl)
    fun _ => (hq.type e).same fun _ => .done rfl

theorem argument (e : Expr) : Follows g.span id (q.argument e) (q'.argument (e.relabel g)) := by
  have hdata := hq.dataArg e
  unfold Queries.argument
  rw [Expr.stringLiteral?_relabel, Expr.intLiteral?_relabel]
  cases e.stringLiteral? with
  | some s => exact .done rfl
  | none =>
    cases e.intLiteral? with
    | some n => exact .done rfl
    | none =>
      rw [Expr.kind_relabel]
      cases e.kind
      case binary op left right =>
        dsimp only
        by_cases hop : op = .named "to"
        · subst hop
          simp only [ExprKind.relabel, Expr.stringLiteral?_relabel]
          cases left.stringLiteral? with
          | none => exact .done rfl
          | some name => exact (hq.elementType right).same fun _ => .done rfl
        · simpa [ExprKind.relabel, hop] using hdata
      case lambda params it b =>
        simp only [ExprKind.relabel, Block.columnFroms?_relabel]
        cases b.columnFroms? with
        | none => exact (hq.blockType b).same fun _ => .done rfl
        | some columns => exact (hq.columnsArg columns).same fun _ => .done rfl
      case call callee typeArgs args =>
        rw [ExprKind.relabel_call]
        exact hdata
      all_goals exact hdata

/-! ### Bindings -/

theorem navigated (receiver : Expr) (name : String) :
    Follows g.span id (q.navigated receiver name) (q'.navigated (receiver.relabel g) name) :=
  (hq.binding receiver).same fun _ => .done rfl

theorem ifBinding (thenBranch elseBranch : Expr) :
    Follows g.span id (q.ifBinding thenBranch elseBranch)
      (q'.ifBinding (thenBranch.relabel g) (elseBranch.relabel g)) :=
  (hq.binding thenBranch).same fun _ => (hq.binding elseBranch).same fun _ => .done rfl

theorem whenBinding (branches : List WhenBranch) :
    Follows g.span id (q.whenBinding branches)
      (q'.whenBinding (branches.map (WhenBranch.relabel g))) := by
  refine .ite (by simp) (fun _ => ?_) fun _ => .done rfl
  refine (Follows.mapM (WhenBranch.relabel g) (fun b => ?_) branches).same fun bs => .done rfl
  rw [WhenBranch.body_relabel]
  exact hq.binding b.body

theorem blockBinding (b : Block) :
    Follows g.span id (q.blockBinding b) (q'.blockBinding (b.relabel g)) := by
  unfold Queries.blockBinding
  rw [Block.tail?_relabel]
  cases b.tail? with
  | none => exact .done rfl
  | some e => exact hq.binding e

include hp

omit hq in
theorem lambdaCall?_bind (lambda : ExprId) :
    (p'.names.lambdaCall? lambda).bind p'.names.expr?
      = ((p.names.lambdaCall? lambda).bind p.names.expr?).map (Expr.relabel g) := by
  rw [hp.names.lambdaCall?]
  cases p.names.lambdaCall? lambda with
  | none => rfl
  | some call => exact hp.names.expr? call

omit hq in
theorem rowReceiver? (lambda : ExprId) (index : Nat) :
    Queries.rowReceiver? p' lambda index
      = (Queries.rowReceiver? p lambda index).map (Expr.relabel g) := by
  unfold Queries.rowReceiver?
  rw [lambdaCall?_bind hp]
  cases (p.names.lambdaCall? lambda).bind p.names.expr? with
  | none => rfl
  | some call =>
    rw [Option.map_some]
    change (p'.names.callee? (call.relabel g)).bind _ = ((p.names.callee? call).bind _).map _
    rw [hp.names.callee?]
    cases p.names.callee? call with
    | none => rfl
    | some callee =>
      change (guard _ : Option Unit).bind (fun _ => callee.receiver.bind p'.names.expr?)
        = ((guard _ : Option Unit).bind fun _ => callee.receiver.bind p.names.expr?).map _
      by_cases hg : index = 0 ∧ callee.name ∈ rowLambdaOperations
      · have hguard : (guard (index = 0 ∧ callee.name ∈ rowLambdaOperations) : Option Unit)
            = some () := if_pos hg
        rw [hguard, Option.bind_some, Option.bind_some]
        cases callee.receiver with
        | none => rfl
        | some id => exact hp.names.expr? id
      · have hguard : (guard (index = 0 ∧ callee.name ∈ rowLambdaOperations) : Option Unit)
            = none := if_neg hg
        rw [hguard]
        rfl

omit hq in
theorem passedToOperation (lambda : ExprId) :
    Queries.passedToOperation p' lambda = Queries.passedToOperation p lambda := by
  unfold Queries.passedToOperation
  rw [lambdaCall?_bind hp, hp.operations]
  cases (p.names.lambdaCall? lambda).bind p.names.expr? with
  | none => rfl
  | some call => simp only [Option.map_some, Option.bind_some, hp.names.callee?]

theorem rowParam (lambda : ExprId) (index : Nat) :
    Follows g.span id (q.rowParam p lambda index) (q'.rowParam p' lambda index) := by
  unfold Queries.rowParam
  rw [rowReceiver? hp]
  cases Queries.rowReceiver? p lambda index with
  | none => exact .done rfl
  | some receiver =>
    refine (hq.binding receiver).same fun b => ?_
    exact .ite (by rw [passedToOperation hp]) (fun _ => .done rfl) fun _ => .done rfl

theorem nameBinding (e : Expr) :
    Follows g.span id (q.nameBinding p e) (q'.nameBinding p' (e.relabel g)) := by
  unfold Queries.nameBinding
  rw [hp.names.declaration?]
  cases p.names.declaration? e with
  | none => exact .done rfl
  | some d =>
    simp only [Option.map_some, Declaration.kind_relabel, Declaration.init_relabel]
    rw [hp.names.isStable, expr?_bind hp]
    split
    · exact hq.rowParam hp _ _
    · cases p.names.isStable d with
      | false => exact .done rfl
      | true =>
        cases d.init.bind p.names.expr? with
        | none => exact .done rfl
        | some init => exact hq.binding init

/-! ### Calls -/

theorem callReceiver (callee : Callee) :
    Follows g.span id (q.callReceiver p callee) (q'.callReceiver p' callee) := by
  unfold Queries.callReceiver
  cases callee.receiver with
  | none => exact .done rfl
  | some id =>
    dsimp only
    rw [hp.names.expr?]
    cases p.names.expr? id with
    | none => exact .done rfl
    | some receiver =>
      refine (hq.binding receiver).same fun b => ?_
      split <;> exact .done rfl

omit hq in
theorem typeArgument (type : TypeRef) :
    Follows g.span id (Queries.typeArgument p type) (Queries.typeArgument p' type) := by
  refine (hp.markerSchema _).same fun schema => ?_
  cases schema <;> exact .done rfl

omit hp hq in
theorem applied (call : Expr) (rule : OperationRule) (operation : OperationCall) :
    Follows g.span id (Queries.applied call rule operation)
      (Queries.applied (call.relabel g) rule operation) := by
  unfold Queries.applied
  cases rule.apply operation with
  | ok b => exact .done rfl
  | error e =>
    rw [Expr.span_relabel, Expr.id_relabel]
    cases e
    case notApplicable => exact .done rfl
    all_goals exact (Follows.recordCall call.id _).same fun _ => .done rfl

theorem callOperation (call : Expr) (args : List Argument) :
    Follows g.span id (q.callOperation p call args)
      (q'.callOperation p' (call.relabel g) (args.map (Argument.relabel g))) := by
  unfold Queries.callOperation
  rw [hp.names.callee?]
  cases p.names.callee? call with
  | none => exact .done rfl
  | some callee =>
    refine (hq.callReceiver hp callee).same fun receiver => ?_
    rcases receiver with _ | ⟨receiver, kind⟩
    · exact .done rfl
    dsimp only
    rw [hp.operations]
    cases p.operations.lookupCall kind callee.name callee.argCount callee.userDefined with
    | error _ => exact .done rfl
    | ok rule =>
      have hargs : Follows g.span id (args.mapM fun a => q.argument a.value)
          ((args.map (Argument.relabel g)).mapM fun a => q'.argument a.value) :=
        Follows.mapM _ (fun a => by
          rw [Argument.value_relabel]
          exact hq.argument a.value) args
      have htypes := Follows.mapM (f := g.span) (fun t => t) (fun t => typeArgument hp t)
        callee.typeArgs
      rw [List.map_id'] at htypes
      exact hargs.same fun args => htypes.same fun types => .done rfl

theorem callBinding (call : Expr) (args : List Argument) :
    Follows g.span id (q.callBinding p call args)
      (q'.callBinding p' (call.relabel g) (args.map (Argument.relabel g))) := by
  refine (hq.callOperation hp call args).same fun operation => ?_
  rcases operation with _ | ⟨rule, operation⟩
  · exact .done rfl
  · exact applied call rule operation

/-! ### The rule -/

theorem newBinding (e : Expr) :
    Follows g.span id (q.newBinding p e) (q'.newBinding p' (e.relabel g)) := by
  have hname := hq.nameBinding hp e
  have hcall := hq.callBinding hp e
  unfold Queries.newBinding
  rw [hp.names.typeOf?]
  cases p.names.typeOf? e with
  | some type => exact (hp.bindingOfType type).same fun _ => .done rfl
  | none =>
    dsimp only
    rw [Expr.kind_relabel]
    cases e.kind
    case name n => exact hname
    case notNull inner => exact hq.binding inner
    case block b => exact hq.blockBinding b
    case ifElse condition thenBranch elseBranch =>
      cases elseBranch with
      | none => exact .done rfl
      | some elseBranch => exact hq.ifBinding thenBranch elseBranch
    case whenOf subject branches =>
      rw [ExprKind.relabel, WhenBranch.relabelAll_eq_map]
      exact hq.whenBinding branches
    case member receiver name nameSpan safe => exact hq.navigated receiver name
    case index receiver indices =>
      rw [ExprKind.relabel, Expr.relabelAll_eq_map]
      rcases indices with _ | ⟨i, _ | ⟨j, rest⟩⟩
      · exact .done rfl
      · simp only [List.map_cons, List.map_nil, Expr.stringLiteral?_relabel]
        cases i.stringLiteral? with
        | none => exact .done rfl
        | some name => exact hq.navigated receiver name
      · exact .done rfl
    case call callee typeArgs args =>
      rw [ExprKind.relabel_call]
      exact hcall args
    all_goals exact .done rfl

theorem bindingRule (e : Expr) :
    Follows g.span id (q.bindingRule p e) (q'.bindingRule p' (e.relabel g)) := by
  refine .memo fun m m' hm => ?_
  rw [hm.bindings, Expr.id_relabel]
  cases m.bindings[e.id]? with
  | some b => exact .done rfl
  | none =>
    refine .ite (by rw [hm.inProgress]) (fun _ => .done rfl) fun _ => ?_
    refine (Follows.openExpr e.id).same fun _ => (hq.newBinding hp e).same fun b => ?_
    exact (Follows.closeExpr e.id b).same fun _ => .done rfl

end Queries.Relabels

theorem Queries.ofDepth_relabels {p p' : Program} (hp : p.Relabels g p') :
    ∀ depth : Nat, (ofDepth p depth).Relabels g (ofDepth p' depth)
  | 0 => ⟨fun _ => .endless, fun _ => .endless⟩
  | depth + 1 =>
    have h := ofDepth_relabels hp depth
    ⟨h.bindingRule hp, h.typeRule hp⟩

namespace Program.Relabels

variable {p p' : Program} (hp : p.Relabels g p')

include hp

theorem queries : p.queries.Relabels g p'.queries := by
  have hdepth : p'.depth = p.depth := by
    unfold Program.depth
    rw [hp.names.exprs.size_eq]
  unfold Program.queries
  rw [hdepth]
  exact Queries.ofDepth_relabels hp _

theorem bindingOf (e : Expr) : Follows g.span id (p.bindingOf e) (p'.bindingOf (e.relabel g)) :=
  hp.queries.binding e

theorem typeOf (e : Expr) : Follows g.span id (p.typeOf e) (p'.typeOf (e.relabel g)) :=
  hp.queries.type e

end Program.Relabels

end FrameCheck
