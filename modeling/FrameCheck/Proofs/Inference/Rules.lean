import FrameCheck.Inference.Basic
import FrameCheck.Proofs.Tree.Nodes

/-!
# One pass over the rules of inference

The rules ask their questions one after another through a `Queries` value. So whatever holds
of an answer given at once, and of two questions in a row whenever it holds of both
(`Compositional`), holds of every rule for an expression, provided that it holds of the
questions that the rule may ask (`Admits`). `Expr.Covered` says which expressions these are :
the parts of the expression, the initializer that a name stands for, the receiver whose rows
a parameter of a lambda stands for, and the receiver of a call.

The property is one of families of questions, so that a rule can be compared with itself
under different answers.

* `Admits.typeRule`, `Admits.newBinding` : the pass over the rules.
* `Admits.bindingOfType` : the binding of a type that is written.
-/

namespace FrameCheck

namespace Query

variable {α β : Type}

theorem pure_run (a : α) (m : Memo) : (pure a : Query α) m = some (a, m) := rfl

/-- The second of two questions is asked of the memo that the first leaves. -/
theorem bind_run (q : Query α) (f : α → Query β) (m : Memo) :
    (q >>= f) m = (q m).bind fun r => f r.1 r.2 := by
  simp only [bind]
  cases q m <;> rfl

/-- Where two questions end, both end. -/
theorem bind_eq_some {q : Query α} {f : α → Query β} {m m'' : Memo} {b : β} :
    (q >>= f) m = some (b, m'') ↔ ∃ a m', q m = some (a, m') ∧ f a m' = some (b, m'') := by
  rw [bind_run, Option.bind_eq_some_iff]
  constructor
  · rintro ⟨⟨a, m'⟩, h, h'⟩
    exact ⟨a, m', h, h'⟩
  · rintro ⟨a, m', h, h'⟩
    exact ⟨(a, m'), h, h'⟩

instance : LawfulMonad Query := LawfulMonad.mk' Query
  (fun q => by
    funext m
    show ((q >>= pure) m) = q m
    rw [bind_run]
    cases q m <;> rfl)
  (fun _ _ => rfl)
  (fun q f g => by
    funext m
    rw [bind_run, bind_run, bind_run]
    cases q m with
    | none => rfl
    | some r => exact (bind_run _ _ _).symm)

end Query

/-! ## Families of questions -/

/-- A property of families of questions that answers at once have, and that two questions in a
row have whenever both have it. -/
structure Compositional {ι : Type} (P : (α : Type) → (ι → Query α) → Prop) : Prop where
  answer : ∀ {α : Type} (a : α), P α fun _ => pure a
  next : ∀ {α β : Type} {x : ι → Query α} {f : ι → α → Query β},
    P α x → (∀ a, P β fun i => f i a) → P β fun i => x i >>= f i

namespace Compositional

variable {ι : Type} {P : (α : Type) → (ι → Query α) → Prop}

theorem map {α β : Type} (h : Compositional P) {x : ι → Query α} (hx : P α x) (g : α → β) :
    P β fun i => do return g (← x i) :=
  h.next hx fun a => h.answer (g a)

theorem mapM {α β : Type} (h : Compositional P) {f : ι → α → Query β} :
    ∀ {l : List α}, (∀ a ∈ l, P β fun i => f i a) → P (List β) fun i => l.mapM (f i)
  | [], _ => by
    simp only [List.mapM_nil]
    exact h.answer []
  | a :: l, hl => by
    simp only [List.mapM_cons]
    refine h.next (hl a (by simp)) fun b => ?_
    exact h.next (h.mapM fun a ha => hl a (by simp [ha])) fun bs => h.answer (b :: bs)

end Compositional

/-! ## Which expressions a rule asks for -/

/-- All expressions that the rules for `e` may ask for satisfy `A`. -/
structure Expr.Covered (p : Program) (A : Expr → Prop) (e : Expr) : Prop where
  part : ∀ x ∈ e.parts, A x
  initializer : ∀ n d init, e.kind = .name n → p.names.declaration? e = some d →
    d.init.bind p.names.expr? = some init → A init
  rows : ∀ n d lambda index r, e.kind = .name n → p.names.declaration? e = some d →
    d.kind = .lambdaParam lambda index → Queries.rowReceiver? p lambda index = some r → A r
  receiver : ∀ c r, p.names.callee? e = some c → c.receiver.bind p.names.expr? = some r → A r

theorem Expr.Covered.mono {p : Program} {A B : Expr → Prop} {e : Expr} (h : e.Covered p A)
    (hAB : ∀ x, A x → B x) : e.Covered p B where
  part x hx := hAB x (h.part x hx)
  initializer n d init hn hd hi := hAB init (h.initializer n d init hn hd hi)
  rows n d lambda index r hn hd hk hr := hAB r (h.rows n d lambda index r hn hd hk hr)
  receiver c r hc hr := hAB r (h.receiver c r hc hr)

theorem Stmt.eq_expr_of_expr? {s : Stmt} {e : Expr} (h : s.expr? = some e) : s = .expr e := by
  cases s <;> simp_all [Stmt.expr?]

/-- Each result of a list of optional values stems from an element. -/
theorem exists_of_mem_mapM {α β : Type} {f : α → Option β} :
    ∀ {l : List α} {r : List β}, l.mapM f = some r → ∀ {b}, b ∈ r → ∃ a ∈ l, f a = some b
  | [], r, h, b, hb => by
    rw [List.mapM_nil] at h
    cases h
    simp at hb
  | a :: l, r, h, b, hb => by
    rw [List.mapM_cons] at h
    obtain ⟨x, hx, h⟩ := Option.bind_eq_some_iff.1 h
    obtain ⟨xs, hxs, h⟩ := Option.bind_eq_some_iff.1 h
    cases h
    rcases List.mem_cons.1 hb with rfl | hb
    · exact ⟨a, by simp, hx⟩
    · obtain ⟨a', ha', hf⟩ := exists_of_mem_mapM hxs hb
      exact ⟨a', by simp [ha'], hf⟩

namespace Block

theorem mem_exprs_of_tail? {b : Block} {e : Expr} (h : b.tail? = some e) : e ∈ b.exprs := by
  obtain ⟨s, hs, he⟩ := Option.bind_eq_some_iff.1 h
  exact mem_exprs.2 ⟨s, List.mem_of_getLast? hs, by simp [Stmt.eq_expr_of_expr? he, Stmt.exprs]⟩

/-- The value of a listed column is part of a statement of the block. -/
theorem exists_of_mem_columnFroms? {b : Block} {columns : List (String × Expr)}
    (h : b.columnFroms? = some columns) {c : String × Expr} (hc : c ∈ columns) :
    ∃ e ∈ b.exprs, c.2 ∈ e.children := by
  unfold columnFroms? at h
  split at h
  · simp at h
  obtain ⟨s, hs, hsc⟩ := exists_of_mem_mapM h hc
  obtain ⟨e, he, hec⟩ := Option.bind_eq_some_iff.1 hsc
  refine ⟨e, mem_exprs.2 ⟨s, hs, by simp [Stmt.eq_expr_of_expr? he, Stmt.exprs]⟩, ?_⟩
  unfold Expr.columnFrom? at hec
  split at hec
  · rename_i left right hk
    obtain ⟨name, -, rfl⟩ := Option.map_eq_some_iff.1 hec
    simp [Expr.children, hk]
  · simp at hec

end Block

/-! ## The pass -/

/-- A compositional property that the questions for the expressions in `A` have, and the
questions for schemas of markers. -/
structure Admits {ι : Type} (P : (α : Type) → (ι → Query α) → Prop) (p : Program)
    (q : ι → Queries) (A : Expr → Prop) : Prop extends Compositional P where
  binding : ∀ {e}, A e → P _ fun i => (q i).binding e
  type : ∀ {e}, A e → P _ fun i => (q i).type e
  schema : ∀ name, P _ fun _ => p.markerSchema name

namespace Admits

variable {ι : Type} {P : (α : Type) → (ι → Query α) → Prop} {p : Program} {q : ι → Queries}
  {A : Expr → Prop} (h : Admits P p q A)

include h

/-! ### Types -/

theorem columnType {receiver : Expr} (hr : A receiver) (name : String) :
    P _ fun i => (q i).columnType receiver name := by
  refine h.next (h.binding hr) fun b => ?_
  cases b with
  | unknown => exact h.answer none
  | known shape schema origin =>
    cases hs : schema.lookup? name with
    | none => simpa only [hs] using h.answer none
    | some c =>
      cases shape with
      | groupBy => simpa only [hs] using h.answer none
      | dataRow => simpa only [hs] using h.answer (some c.valueType)
      | dataFrame | columnGroup =>
        simp only [hs]
        split <;> exact h.answer _

theorem dataType {e : Expr} (he : P _ fun i => (q i).binding e) :
    P _ fun i => (q i).dataType e := h.map he _

theorem arithmeticType {left right : Expr} (isAdd : Bool) (hl : A left) (hr : A right) :
    P _ fun i => (q i).arithmeticType isAdd left right := by
  refine h.next (h.type hl) fun a => ?_
  cases a with
  | none => exact h.answer none
  | some a =>
    simp only
    split
    · exact h.answer _
    · refine h.next (h.type hr) fun b => ?_
      cases b with
      | none => exact h.answer none
      | some b => exact h.answer _

theorem elvisType {left right : Expr} (hl : A left) (hr : A right) :
    P _ fun i => (q i).elvisType left right := by
  refine h.next (h.type hl) fun a => ?_
  cases a with
  | none => exact h.answer none
  | some a => exact h.next (h.type hr) fun b => h.answer _

theorem binaryType {left right : Expr} (op : BinaryOp) (hl : A left) (hr : A right) :
    P _ fun i => (q i).binaryType op left right := by
  cases op with
  | add => exact h.arithmeticType true hl hr
  | sub | mul | div | rem => exact h.arithmeticType false hl hr
  | elvis => exact h.elvisType hl hr
  | _ => exact h.answer _

theorem ifType {thenBranch elseBranch : Expr} (ht : A thenBranch) (he : A elseBranch) :
    P _ fun i => (q i).ifType thenBranch elseBranch := by
  refine h.next (h.type ht) fun a => ?_
  cases a with
  | none => exact h.answer none
  | some a =>
    refine h.next (h.type he) fun b => ?_
    cases b <;> exact h.answer _

theorem branchesType : ∀ {branches : List WhenBranch} (seen : Option TypeRef),
    (∀ b ∈ branches, A b.body) → P _ fun i => (q i).branchesType seen branches
  | [], seen, _ => h.answer seen
  | b :: rest, seen, hb => by
    simp only [Queries.branchesType]
    refine h.next (h.type (hb b (by simp))) fun t => ?_
    have hrest : ∀ c ∈ rest, A c.body := fun c hc => hb c (by simp [hc])
    cases t with
    | none => exact h.answer none
    | some t =>
      cases seen with
      | none => exact branchesType _ hrest
      | some s =>
        simp only
        cases s.either t with
        | none => exact h.answer none
        | some joined => exact branchesType _ hrest

theorem blockType {b : Block} (hb : ∀ e, b.tail? = some e → A e) :
    P _ fun i => (q i).blockType b := by
  simp only [Queries.blockType]
  cases ht : b.tail? with
  | none => exact h.answer none
  | some e => exact h.type (hb e ht)

theorem plainType {e : Expr} (he : P _ fun i => (q i).binding e) :
    P _ fun i => (q i).plainType p e := by
  simp only [Queries.plainType]
  cases p.names.typeOf? e with
  | some t => exact h.answer _
  | none => exact h.dataType he

theorem nameType {e : Expr} (he : P _ fun i => (q i).binding e)
    (hi : ∀ d init, p.names.declaration? e = some d → d.init.bind p.names.expr? = some init →
      A init) :
    P _ fun i => (q i).nameType p e := by
  simp only [Queries.nameType]
  cases p.names.typeOf? e with
  | some t => exact h.answer _
  | none =>
    cases hd : p.names.declaration? e with
    | none => exact h.answer none
    | some d =>
      have hinit := fun init => hi d init hd
      simp only
      cases d.kind with
      | lambdaParam => exact h.dataType he
      | _ =>
        simp only
        cases p.names.isStable d with
        | false => exact h.answer none
        | true =>
          cases hb : d.init.bind p.names.expr? with
          | none => exact h.answer none
          | some init => exact h.type (hinit init hb)

/-! ### Arguments -/

theorem elementsType : ∀ {args : List Argument} (seen : Option TypeRef) (nullable : Bool),
    (∀ a ∈ args, A a.value) → P _ fun i => (q i).elementsType seen nullable args
  | [], seen, nullable, _ => h.answer _
  | arg :: rest, seen, nullable, ha => by
    have hrest : ∀ a ∈ rest, A a.value := fun a hr => ha a (by simp [hr])
    simp only [Queries.elementsType]
    cases arg.value.isNullLiteral with
    | true => exact elementsType seen true hrest
    | false =>
      refine h.next (h.type (ha arg (by simp))) fun t => ?_
      cases t with
      | none => exact h.answer none
      | some t =>
        simp only
        cases TypeRef.element seen t with
        | none => exact h.answer none
        | some joined => exact elementsType _ _ hrest

theorem elementType {e : Expr}
    (he : ∀ c typeArgs args, e.kind = .call c typeArgs args → ∀ a ∈ args, A a.value) :
    P _ fun i => (q i).elementType e := by
  obtain ⟨id, span, kind⟩ := e
  simp only [Queries.elementType]
  split
  · rename_i f typeArgs args
    split
    · cases typeArgs with
      | nil => exact h.elementsType none false (he _ _ _ rfl)
      | cons t _ => exact h.answer _
    · exact h.answer none
  · exact h.answer none

theorem columnsArg : ∀ {columns : List (String × Expr)}, (∀ c ∈ columns, A c.2) →
    P _ fun i => (q i).columnsArg columns
  | [], _ => h.answer []
  | (name, value) :: rest, hc => by
    simp only [Queries.columnsArg]
    refine h.next (h.type (hc (name, value) (by simp))) fun t => ?_
    exact h.next (columnsArg fun c hr => hc c (by simp [hr])) fun more => h.answer _

theorem dataArg {e : Expr} (he : A e) : P _ fun i => (q i).dataArg e := by
  refine h.next (h.binding he) fun b => ?_
  split
  · exact h.answer _
  · exact h.map (h.type he) _

theorem argument {e : Expr} (he : ∀ x ∈ e.nodes, A x) : P _ fun i => (q i).argument e := by
  simp only [Queries.argument]
  cases e.stringLiteral? with
  | some s => exact h.answer _
  | none =>
    cases e.intLiteral? with
    | some n => exact h.answer _
    | none =>
      simp only
      split
      · rename_i left right hk
        cases left.stringLiteral? with
        | none => exact h.answer _
        | some name =>
          refine h.map (h.elementType fun c typeArgs args hr a ha => ?_) _
          have hright : right ∈ e.parts :=
            Expr.mem_parts_of_mem_children (by simp [Expr.children, hk])
          refine he _ (Expr.mem_nodes.2 (Or.inl (Expr.mem_parts_trans hright ?_)))
          refine Expr.mem_nodes.2 (Or.inl (Expr.mem_parts_of_mem_children ?_))
          simp only [Expr.children, hr]
          exact List.mem_cons_of_mem _ (List.mem_map_of_mem ha)
      · rename_i body hk
        have hbody : ∀ x ∈ body.exprs, x ∈ e.parts := fun x hx =>
          Expr.mem_parts_of_mem_children (by simpa [Expr.children, hk] using hx)
        cases hf : body.columnFroms? with
        | none =>
          refine h.map (h.blockType fun x hx => he x (Expr.mem_nodes.2 (Or.inl ?_))) _
          exact hbody x (Block.mem_exprs_of_tail? hx)
        | some columns =>
          refine h.map (h.columnsArg fun c hc => he _ (Expr.mem_nodes.2 (Or.inl ?_))) _
          obtain ⟨x, hx, hcx⟩ := Block.exists_of_mem_columnFroms? hf hc
          exact Expr.mem_parts_trans (hbody x hx)
            (Expr.mem_nodes.2 (Or.inl (Expr.mem_parts_of_mem_children hcx)))
      · exact h.dataArg (he e e.mem_nodes_self)

/-! ### Bindings -/

theorem navigated {receiver : Expr} (hr : A receiver) (name : String) :
    P _ fun i => (q i).navigated receiver name := h.map (h.binding hr) _

theorem ifBinding {thenBranch elseBranch : Expr} (ht : A thenBranch) (he : A elseBranch) :
    P _ fun i => (q i).ifBinding thenBranch elseBranch :=
  h.next (h.binding ht) fun _ => h.map (h.binding he) _

theorem whenBinding {branches : List WhenBranch} (hb : ∀ b ∈ branches, A b.body) :
    P _ fun i => (q i).whenBinding branches := by
  simp only [Queries.whenBinding]
  split
  · exact h.map (h.mapM fun b hm => h.binding (hb b hm)) _
  · exact h.answer _

theorem blockBinding {b : Block} (hb : ∀ e, b.tail? = some e → A e) :
    P _ fun i => (q i).blockBinding b := by
  simp only [Queries.blockBinding]
  cases ht : b.tail? with
  | none => exact h.answer _
  | some e => exact h.binding (hb e ht)

theorem rowParam {lambda : ExprId} {index : Nat}
    (hr : ∀ receiver, Queries.rowReceiver? p lambda index = some receiver → A receiver) :
    P _ fun i => (q i).rowParam p lambda index := by
  simp only [Queries.rowParam]
  cases hrow : Queries.rowReceiver? p lambda index with
  | none => exact h.answer _
  | some receiver =>
    refine h.next (h.binding (hr receiver hrow)) fun b => ?_
    split <;> exact h.answer _

/-! ### Calls -/

theorem callReceiver {e : Expr} {c : Callee} (he : e.Covered p A)
    (hc : p.names.callee? e = some c) :
    P _ fun i => (q i).callReceiver p c := by
  simp only [Queries.callReceiver]
  cases hr : c.receiver with
  | none => exact h.answer _
  | some id =>
    simp only
    cases hx : p.names.expr? id with
    | none => exact h.answer _
    | some receiver =>
      have hA : A receiver := he.receiver c receiver hc (by rw [hr, Option.bind_some, hx])
      refine h.next (h.binding hA) fun b => ?_
      cases ReceiverKind.of b with
      | some kind => exact h.answer _
      | none => cases b.isKnown <;> exact h.answer _

theorem typeArgument (type : TypeRef) : P _ fun _ => Queries.typeArgument p type := by
  refine h.next (h.schema type.simpleName) fun s => ?_
  cases s <;> exact h.answer _

theorem callOperation {e callee : Expr} {typeArgs : List TypeRef} {args : List Argument}
    (he : e.Covered p A) (hk : e.kind = .call callee typeArgs args) :
    P _ fun i => (q i).callOperation p e args := by
  simp only [Queries.callOperation]
  cases hc : p.names.callee? e with
  | none => exact h.answer _
  | some c =>
    refine h.next (h.callReceiver he hc) fun r => ?_
    rcases r with _ | ⟨receiver, kind⟩
    · exact h.answer _
    · simp only
      cases p.operations.lookupCall kind c.name c.argCount c.userDefined with
      | error => exact h.answer _
      | ok rule =>
        refine h.next (h.mapM fun a ha => h.argument fun x hx => he.part x ?_) fun args => ?_
        · exact Expr.mem_parts.2 ⟨a.value, by
            simp only [Expr.children, hk]
            exact List.mem_cons_of_mem _ (List.mem_map_of_mem ha), hx⟩
        · exact h.next (h.mapM fun type _ => h.typeArgument type) fun typeArgs => h.answer _

theorem bindingOfType (type : TypeRef) : P _ fun _ => p.bindingOfType type := by
  simp only [Program.bindingOfType]
  split
  · rename_i shape marker _ _
    refine h.next (h.schema marker.simpleName) fun s => ?_
    cases s with
    | none => exact h.answer _
    | some schema =>
      simp only
      split
      · exact h.next (h.schema _) fun rows => h.answer _
      · exact h.answer _
  · exact h.answer _

theorem writtenBinding (type : TypeRef) : P _ fun _ => Queries.writtenBinding p type :=
  h.map (h.bindingOfType type) _

theorem nameBinding {e : Expr} {n : String} (he : e.Covered p A) (hn : e.kind = .name n) :
    P _ fun i => (q i).nameBinding p e := by
  simp only [Queries.nameBinding]
  cases hd : p.names.declaration? e with
  | none => exact h.answer _
  | some d =>
    simp only
    cases hk : d.kind with
    | lambdaParam lambda index =>
      exact h.rowParam fun r hr => he.rows n d lambda index r hn hd hk hr
    | _ =>
      simp only
      cases p.names.isStable d with
      | false => exact h.answer _
      | true =>
        cases hb : d.init.bind p.names.expr? with
        | none => exact h.answer _
        | some init => exact h.binding (he.initializer n d init hn hd hb)

/-! ### The rules -/

/-- The pass over the rule for bindings. The step that records a failure is a hypothesis, for
it is the only one that depends on the expression itself. Only calls without a written type get
there. -/
theorem newBinding {e : Expr} (he : e.Covered p A)
    (ha : p.names.typeOf? e = none → ∀ callee typeArgs args, e.kind = .call callee typeArgs args →
      ∀ rule operation, P _ fun _ => Queries.applied e rule operation) :
    P _ fun i => (q i).newBinding p e := by
  have hchild : ∀ x ∈ e.children, A x := fun x hx => he.part x (Expr.mem_parts_of_mem_children hx)
  simp only [Queries.newBinding]
  cases htype : p.names.typeOf? e with
  | some type => exact h.writtenBinding type
  | none =>
    obtain ⟨id, span, kind⟩ := e
    cases kind with
    | name => exact h.nameBinding he rfl
    | notNull inner => exact h.binding (hchild _ (by simp [Expr.children]))
    | block b => exact h.blockBinding fun x hx => hchild x (Block.mem_exprs_of_tail? hx)
    | ifElse condition thenBranch elseBranch =>
      cases elseBranch with
      | none => exact h.answer _
      | some elseBranch =>
        exact h.ifBinding (hchild _ (by simp [Expr.children])) (hchild _ (by simp [Expr.children]))
    | whenOf subject branches =>
      refine h.whenBinding fun b hb => hchild _ ?_
      simp only [Expr.children, List.mem_append, List.mem_flatMap]
      exact Or.inr ⟨b, hb, by simp [WhenBranch.exprs]⟩
    | member receiver name => exact h.navigated (hchild _ (by simp [Expr.children])) name
    | index receiver indices =>
      rcases indices with _ | ⟨i, _ | ⟨j, rest⟩⟩
      · exact h.answer _
      · simp only
        cases i.stringLiteral? with
        | none => exact h.answer _
        | some name => exact h.navigated (hchild _ (by simp [Expr.children])) name
      · exact h.answer _
    | call callee typeArgs args =>
      refine h.next (h.callOperation he rfl) fun o => ?_
      rcases o with _ | ⟨rule, operation⟩
      · exact h.answer _
      · exact ha htype _ _ _ rfl rule operation
    | _ => exact h.answer _

/-- The pass over the rule for types, which may ask for the binding of the expression itself. -/
theorem typeRule {e : Expr} (he : e.Covered p A) (hself : P _ fun i => (q i).binding e) :
    P _ fun i => (q i).typeRule p e := by
  have hchild : ∀ x ∈ e.children, A x := fun x hx => he.part x (Expr.mem_parts_of_mem_children hx)
  obtain ⟨id, span, kind⟩ := e
  simp only [Queries.typeRule]
  cases kind with
  | binary op left right =>
    exact h.binaryType op (hchild _ (by simp [Expr.children])) (hchild _ (by simp [Expr.children]))
  | unary op operand =>
    cases op with
    | not => exact h.answer _
    | _ => exact h.type (hchild _ (by simp [Expr.children]))
  | notNull inner => exact h.map (h.type (hchild _ (by simp [Expr.children]))) _
  | member receiver name =>
    refine h.next (h.columnType (hchild _ (by simp [Expr.children])) name) fun t => ?_
    cases t <;> exact h.answer _
  | index receiver indices =>
    rcases indices with _ | ⟨i, _ | ⟨j, rest⟩⟩
    · exact h.answer _
    · simp only
      cases i.stringLiteral? with
      | none => exact h.answer _
      | some name => exact h.columnType (hchild _ (by simp [Expr.children])) name
    · exact h.answer _
  | ifElse condition thenBranch elseBranch =>
    cases elseBranch with
    | none => exact h.plainType hself
    | some elseBranch =>
      exact h.ifType (hchild _ (by simp [Expr.children])) (hchild _ (by simp [Expr.children]))
  | whenOf subject branches =>
    simp only
    split
    · refine h.branchesType none fun b hb => hchild _ ?_
      simp only [Expr.children, List.mem_append, List.mem_flatMap]
      exact Or.inr ⟨b, hb, by simp [WhenBranch.exprs]⟩
    · exact h.answer _
  | block b => exact h.blockType fun x hx => hchild x (Block.mem_exprs_of_tail? hx)
  | lambda params implicitIt b =>
    exact h.blockType fun x hx => hchild x (Block.mem_exprs_of_tail? hx)
  | name => exact h.nameType hself fun d init => he.initializer _ d init rfl
  | _ => exact h.plainType hself

end Admits

end FrameCheck
