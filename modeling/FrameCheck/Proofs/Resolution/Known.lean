import FrameCheck.Proofs.Parse.Units
import FrameCheck.Resolution.Basic
import Mathlib.Data.List.Nodup

/-!
# The expressions that a resolution knows

The walk over a unit meets each expression in the bodies of the unit and no other
(`SourceUnit.expr_mem_facts`), and tells at most once what a name refers to. Ids differ in a unit
that was parsed, so an expression is found again by its id (`Resolution.expr?_eq_some_iff`), and
what is found for a name is what the walk tells of it (`Resolution.references_eq_some_iff`).
-/

namespace FrameCheck

/-! ## What facts tell of -/

namespace Fact

/-- The fact tells what the name with this id refers to. -/
def isOfName (id : ExprId) : Fact → Bool
  | refers name _ => name == id
  | _ => false

/-- The fact tells neither of an expression that is there nor of what a name refers to. -/
@[simp] def isQuiet : Fact → Bool
  | expr _ | refers _ _ => false
  | _ => true

end Fact

/-- The facts tell of the nodes of these trees, and of no other expression. What a name refers to
they tell at most as often as the name is there. -/
structure Tells (fs : List Fact) (es : List Expr) : Prop where
  mem : ∀ x, Fact.expr x ∈ fs ↔ ∃ e ∈ es, x ∈ e.nodes
  once : ∀ id, fs.countP (Fact.isOfName id) ≤ (Expr.idsOf es).count id

namespace Tells

variable {f g : List Fact} {es es' : List Expr}

theorem silent (h : ∀ x ∈ f, x.isQuiet) : Tells f [] where
  mem x := by
    simp only [List.not_mem_nil, false_and, exists_false, iff_false]
    exact fun hx => Bool.false_ne_true (h _ hx)
  once id := by
    refine Nat.le_of_eq (List.countP_eq_zero.2 fun x hx hid => ?_)
    cases x with
    | refers => exact Bool.false_ne_true (h _ hx)
    | _ => exact Bool.false_ne_true hid

theorem append (h : Tells f es) (h' : Tells g es') : Tells (f ++ g) (es ++ es') where
  mem x := by simp only [List.mem_append, h.mem x, h'.mem x, or_and_right, exists_or]
  once id := by
    rw [List.countP_append, Expr.idsOf_append, List.count_append]
    exact Nat.add_le_add (h.once id) (h'.once id)

/-- Quiet facts tell of no expression. -/
theorem before (h : Tells g es) (hf : ∀ x ∈ f, x.isQuiet) : Tells (f ++ g) es :=
  (silent hf).append h

theorem after (h : Tells f es) (hg : ∀ x ∈ g, x.isQuiet) : Tells (f ++ g) es := by
  simpa using h.append (silent hg)

/-- The fact of an expression stands before those of its children. -/
theorem node {e : Expr} (h : Tells f e.children) : Tells (.expr e :: f) [e] where
  mem x := by
    rw [List.mem_cons, Fact.expr.injEq, h.mem x, ← Expr.mem_parts, or_comm, ← Expr.mem_nodes]
    simp
  once id := by
    rw [Expr.idsOf, List.flatMap_singleton, Expr.nodes_eq, List.map_append, List.count_append, Expr.parts,
      List.countP_cons_of_neg (by simp [Fact.isOfName])]
    exact Nat.le_add_right_of_le (h.once id)

end Tells

theorem Expr.nodes_of_isName {e : Expr} (h : e.isName) : e.nodes = [e] := by
  obtain ⟨id, span, kind⟩ := e
  cases kind <;> simp [isName] at h
  simp [nodes_eq, parts, children]

/-- A name is told of with what it refers to. -/
theorem Tells.name {e : Expr} (h : e.isName) (sc : Scope) : Tells (e.facts sc) [e] := by
  obtain ⟨id, span, kind⟩ := e
  cases kind with
  | name n =>
    cases hd : sc.lookup? n with
    | none => exact node (by simpa [ExprKind.facts, hd, Expr.children] using silent (by simp))
    | some d =>
      refine ⟨fun x => ?_, fun i => ?_⟩
      · simp [Expr.facts, ExprKind.facts, hd, Expr.nodes_of_isName h]
      · simp [Expr.facts, ExprKind.facts, hd, Expr.idsOf, Expr.nodes_of_isName h, Fact.isOfName,
          List.countP_cons, List.count_cons]
  | _ => exact absurd h Bool.false_ne_true

/-- Where ids differ, what a name refers to is told once. -/
theorem Tells.eq_of_refers {fs : List Fact} {es : List Expr} (h : Tells fs es)
    (hids : (Expr.idsOf es).Nodup) {id : ExprId} {d d' : DeclId}
    (hd : Fact.refers id d ∈ fs) (hd' : Fact.refers id d' ∈ fs) : d = d' := by
  have hone : fs.countP (Fact.isOfName id) ≤ 1 :=
    Nat.le_trans (h.once id) (List.nodup_iff_count_le_one.1 hids id)
  by_contra hne
  have hsub : [Fact.refers id d, Fact.refers id d'].Subperm fs :=
    List.subperm_of_subset (by simpa using hne) (by simp [hd, hd'])
  have := hsub.countP_le (Fact.isOfName id)
  simp [Fact.isOfName] at this
  omega

/-- The walk tells of an expression in any scope. -/
def Expr.Told (e : Expr) : Prop := ∀ sc, Tells (e.facts sc) [e]

theorem isQuiet_of_mem_expectedFacts {type : Option TypeRef} {e : ExprId} {x : Fact}
    (h : x ∈ expectedFacts type e) : x.isQuiet := by
  cases type <;> simp [expectedFacts] at h
  rw [h]
  rfl

theorem isQuiet_of_mem_passedFacts {call : ExprId} {e : Expr} {x : Fact}
    (h : x ∈ passedFacts call e) : x.isQuiet := by
  unfold passedFacts at h
  split at h
  · simp only [List.mem_cons, List.mem_map] at h
    rcases h with rfl | ⟨c, -, rfl⟩ <;> rfl
  · exact absurd h List.not_mem_nil

theorem isQuiet_of_mem_assignedFacts {sc : Scope} {target : Expr} {x : Fact}
    (h : x ∈ assignedFacts sc target) : x.isQuiet := by
  unfold assignedFacts at h
  split at h
  · obtain ⟨d, -, rfl⟩ := Option.map_eq_some_iff.1 (Option.mem_toList.1 h)
    rfl
  · exact absurd h List.not_mem_nil

/-! ## Lists of expressions -/

namespace Tells

theorem exprs (sc : Scope) : ∀ {l : List Expr}, (∀ e ∈ l, e.Told) → Tells (Expr.factsOf sc l) l
  | [], _ => silent (by simp [Expr.factsOf])
  | e :: es, h => by
    have hrest := exprs (l := es) sc fun c hc => h c (by simp [hc])
    exact (h e (by simp) sc).append hrest

theorem expr? (sc : Scope) : ∀ {o : Option Expr}, (∀ e ∈ o.toList, e.Told) →
    Tells (Expr.factsOf? sc o) o.toList
  | none, _ => silent (by simp [Expr.factsOf?])
  | some e, h => h e (by simp) sc

theorem typed (sc : Scope) (type : Option TypeRef) : ∀ {o : Option Expr}, (∀ e ∈ o.toList, e.Told) →
    Tells (Expr.factsTyped sc type o) o.toList
  | none, _ => silent (by simp [Expr.factsTyped])
  | some e, h => (h e (by simp) sc).before fun _ => isQuiet_of_mem_expectedFacts

theorem arguments (sc : Scope) (call : ExprId) : ∀ {l : List Argument},
    (∀ e ∈ l.map Argument.value, e.Told) →
      Tells (Argument.facts sc call l) (l.map Argument.value)
  | [], _ => silent (by simp [Argument.facts])
  | ⟨_, e⟩ :: args, h => by
    have hrest := arguments (l := args) sc call fun c hc => h c (List.mem_cons_of_mem e hc)
    exact ((h e (by simp) sc).before fun _ => isQuiet_of_mem_passedFacts).append hrest

theorem branches (sc : Scope) : ∀ {l : List WhenBranch},
    (∀ e ∈ l.flatMap WhenBranch.exprs, e.Told) →
      Tells (WhenBranch.facts sc l) (l.flatMap WhenBranch.exprs)
  | [], _ => silent (by simp [WhenBranch.facts])
  | ⟨conditions, isElse, body⟩ :: bs, h => by
    have hconditions := exprs (l := conditions) sc fun c hc => h c (by simp [WhenBranch.exprs, hc])
    have hbody := h body (by simp [WhenBranch.exprs]) sc
    have hrest := branches (l := bs) sc fun c hc => h c (by
      rw [List.flatMap_cons]
      exact List.mem_append_right _ hc)
    exact (hconditions.append hbody).append hrest

theorem params : ∀ (sc : Scope) {l : List Param}, (∀ e ∈ Param.defaults l, e.Told) →
    Tells (Param.facts sc l) (Param.defaults l)
  | _, [], _ => silent (by simp [Param.facts])
  | sc, ⟨decl, name, type, default, span⟩ :: ps, h => by
    rw [Param.defaults_cons] at h ⊢
    have hdefault := typed (o := default) sc type fun c hc => h c (by simp [hc])
    have hrest := params (sc.declare name decl) (l := ps) fun c hc => h c (by simp [hc])
    exact hdefault.append (hrest.before (f := [_]) (by simp))

/-! ## Statements -/

mutual

theorem block (sc : Scope) : ∀ {b : Block}, (∀ e ∈ b.exprs, e.Told) → Tells (b.facts sc) b.exprs
  | ⟨_, _⟩, h => statements sc h

theorem statements : ∀ (sc : Scope) {l : List Stmt}, (∀ e ∈ Stmt.exprsOf l, e.Told) →
    Tells (Stmt.facts sc l) (Stmt.exprsOf l)
  | _, [], _ => silent (by simp [Stmt.facts])
  | sc, s :: ss, h => by
    have hs := statement sc (s := s) fun e he => h e (List.mem_append_left _ he)
    have hss := statements (sc.afterStmt s) (l := ss) fun e he => h e (List.mem_append_right _ he)
    exact hs.append hss

theorem statement (sc : Scope) : ∀ {s : Stmt}, (∀ e ∈ s.exprs, e.Told) →
    Tells (Stmt.factsOne sc s) s.exprs
  | .val v, h => (valDecl sc (v := v) h).after (by simp)
  | .function f, h => (funDecl sc f.receiver (f := f) h).before (f := [.function f]) (by simp)
  | .expr e, h => h e (by simp [Stmt.exprs]) sc
  | .assign target value _, h => by
    have htarget := h target (by simp [Stmt.exprs]) sc
    have hvalue := h value (by simp [Stmt.exprs]) sc
    exact (htarget.append hvalue).after fun _ => isQuiet_of_mem_assignedFacts
  | .ret value _, h => expr? sc h

theorem body (sc : Scope) (type : Option TypeRef) : ∀ {b : Body}, (∀ e ∈ b.exprs, e.Told) →
    Tells (b.facts sc type) b.exprs
  | .absent, _ => silent (by simp [Body.facts])
  | .expr e, h =>
    (h e (by simp [Body.exprs]) sc).before fun _ => isQuiet_of_mem_expectedFacts
  | .block b, h => block sc (b := b) h

theorem valDecl (sc : Scope) : ∀ {v : ValDecl}, (∀ e ∈ v.exprs, e.Told) →
    Tells (v.facts sc) v.exprs
  | ⟨_, _, _, _, _, type, init, getter, _⟩, h => by
    have hinit := typed (o := init) sc type fun e he => h e (List.mem_append_left _ he)
    have hgetter := body sc type (b := getter) fun e he => h e (List.mem_append_right _ he)
    exact hinit.append hgetter

theorem funDecl (sc : Scope) (thisType : Option TypeRef) : ∀ {f : FunDecl},
    (∀ e ∈ f.exprs, e.Told) → Tells (f.facts sc thisType) f.exprs
  | ⟨_, _, _, ps, returnType, b, _, _⟩, h => by
    have hparams := params (sc.withThis thisType) (l := ps) fun e he =>
      h e (List.mem_append_left _ he)
    have hbody := body ((sc.withThis thisType).declareParams ps) returnType (b := b) fun e he =>
      h e (List.mem_append_right _ he)
    exact hparams.append hbody

end

end Tells

/-! ## Expressions -/

/-- The walk over an expression tells of its nodes. -/
theorem Expr.told (e : Expr) : e.Told := by
  induction e using Expr.childrenInduction with
  | step e ih =>
    obtain ⟨id, span, kind⟩ := e
    intro sc
    by_cases hname : (Expr.mk id span kind).isName
    · exact Tells.name hname sc
    refine Tells.node ?_
    cases kind with
    | name => exact absurd rfl hname
    | literal => exact Tells.silent (by simp [ExprKind.facts])
    | this =>
      refine Tells.silent ?_
      cases h : sc.thisType <;> simp [ExprKind.facts, h, Fact.isQuiet]
    | call callee typeArgs args =>
      have hargs := Tells.arguments sc id (l := args) fun c hc => ih c (by simp [children, hc])
      have hcallee : Tells (if callee.isName then [.expr callee] else callee.facts sc)
          [callee] := by
        split
        · rename_i hn
          refine Tells.node ?_
          obtain ⟨_, _, _ | _⟩ := callee <;> first | exact Tells.silent (by simp) | cases hn
        · exact ih callee (by simp [children]) sc
      exact hcallee.append hargs
    | index receiver indices =>
      exact (ih receiver (by simp [children]) sc).append
        (Tells.exprs sc fun c hc => ih c (by simp [children, hc]))
    | binary op left right =>
      exact (ih left (by simp [children]) sc).append (ih right (by simp [children]) sc)
    | ifElse condition thenBranch elseBranch =>
      exact ((ih condition (by simp [children]) sc).append
        (ih thenBranch (by simp [children]) sc)).append
        (Tells.expr? sc fun c hc => ih c (by simp [children, hc]))
    | whenOf subject branches =>
      exact (Tells.expr? sc fun c hc => ih c (List.mem_append_left _ hc)).append
        (Tells.branches sc fun c hc => ih c (List.mem_append_right _ hc))
    | template parts => exact Tells.exprs sc fun c hc => ih c hc
    | block body => exact Tells.block sc fun c hc => ih c hc
    | lambda params implicitIt body =>
      exact (Tells.block (sc.ofLambda params implicitIt) fun c hc => ih c hc).before (by simp)
    | member receiver => exact ih receiver (by simp [children]) sc
    | unary op operand => exact ih operand (by simp [children]) sc
    | notNull inner => exact ih inner (by simp [children]) sc
    | cast operand => exact ih operand (by simp [children]) sc

/-! ## Units -/

namespace Tells

theorem flatMap {α : Type} {f : α → List Fact} {g : α → List Expr} (h : ∀ a, Tells (f a) (g a)) :
    ∀ l : List α, Tells (l.flatMap f) (l.flatMap g)
  | [] => silent (by simp)
  | a :: l => (h a).append (flatMap h l)

theorem property (sc : Scope) (p : PropertyDecl) :
    Tells (Expr.factsTyped sc p.type p.init ++ p.getter.facts sc p.type) p.exprs :=
  (typed sc p.type fun e _ => e.told).append (body sc p.type fun e _ => e.told)

theorem classDecl (sc : Scope) (c : ClassDecl) : Tells (c.facts sc) (Item.classDecl c).roots := by
  have hparams := params (c.scope sc) (l := c.params) fun e _ => e.told
  have hproperties := flatMap (property ((c.scope sc).declareParams c.params)) c.properties
  have hmethods := flatMap (fun m : FunDecl =>
    funDecl (c.scope sc) (m.receiver.or c.thisType) (f := m) fun e _ => e.told) c.methods
  exact ((hparams.before (by simp)).append hproperties).append hmethods

theorem item (sc : Scope) : ∀ i : Item, Tells (i.facts sc) i.roots
  | .classDecl c => classDecl sc c
  | .function f => funDecl sc f.receiver fun e _ => e.told
  | .property _ => valDecl sc fun e _ => e.told

end Tells

theorem Item.isQuiet_of_mem_globalFacts {i : Item} {x : Fact} (h : x ∈ i.globalFacts) :
    x.isQuiet := by
  cases i with
  | classDecl c =>
    obtain ⟨f, -, rfl⟩ := List.mem_map.1 h
    rfl
  | function | property =>
    obtain rfl := List.mem_singleton.1 h
    rfl

namespace SourceUnit

/-- In any scope the walk over the items tells of them. -/
theorem tells_in (u : SourceUnit) (sc : Scope) :
    Tells (u.items.flatMap Item.globalFacts ++ u.items.flatMap (Item.facts sc))
      (u.items.flatMap Item.roots) :=
  (Tells.flatMap (Tells.item sc) u.items).before fun _ hx => by
    obtain ⟨i, -, hx⟩ := List.mem_flatMap.1 hx
    exact Item.isQuiet_of_mem_globalFacts hx

theorem tells (u : SourceUnit) : Tells u.facts (u.items.flatMap Item.roots) := u.tells_in u.scope

/-- The walk over a unit tells of the expressions in its bodies. -/
theorem expr_mem_facts {u : SourceUnit} {x : Expr} : Fact.expr x ∈ u.facts ↔ x ∈ u.exprs := by
  rw [u.tells.mem x, exprs_eq_flatMap, List.mem_flatMap]

theorem nodup_nodes {u : SourceUnit} (hu : (u.exprs.map Expr.id).Nodup) :
    (Expr.idsOf (u.items.flatMap Item.roots)).Nodup := by
  rwa [Expr.idsOf, ← exprs_eq_flatMap]

end SourceUnit

namespace Resolution

/-! ### Tables -/

/-- Facts fill the table : each adds at most one entry, and the last one with a key counts. -/
structure Filled {β : Type} (table : Resolution → Std.TreeMap Nat β)
    (entry : Fact → Option (Nat × β)) : Prop where
  empty : table empty = ∅
  add : ∀ r f, table (r.add f) = ((entry f).elim (table r) fun e => (table r).insert e.1 e.2)
  addMarker : ∀ r c, table (r.addMarker c) = table r

namespace Filled

variable {β : Type} {table : Resolution → Std.TreeMap Nat β} {entry : Fact → Option (Nat × β)}
  (h : Filled table entry) {k : Nat} {v : β}

include h

theorem foldl_addMarker (cs : List ClassDecl) :
    ∀ r : Resolution, table (cs.foldl Resolution.addMarker r) = table r := by
  induction cs with
  | nil => exact fun _ => rfl
  | cons c cs ih => exact fun r => (ih (r.addMarker c)).trans (h.addMarker r c)

/-- An entry that is found stems from a fact, or was there before. -/
theorem of_foldl_add : ∀ {l : List Fact} {r : Resolution},
    (table (l.foldl Resolution.add r))[k]? = some v →
      (∃ f ∈ l, entry f = some (k, v)) ∨ (table r)[k]? = some v
  | [], _, hv => Or.inr hv
  | f :: fs, r, hv => by
    rcases of_foldl_add (l := fs) hv with ⟨x, hx, hxv⟩ | hv
    · exact Or.inl ⟨x, List.mem_cons_of_mem _ hx, hxv⟩
    · rw [h.add] at hv
      cases hf : entry f with
      | none =>
        rw [hf] at hv
        exact Or.inr hv
      | some e =>
        simp only [hf, Option.elim_some, Std.TreeMap.getElem?_insert,
          Std.LawfulEqOrd.compare_eq_iff_eq] at hv
        split at hv
        · cases hv
          subst ‹e.1 = k›
          exact Or.inl ⟨f, List.mem_cons_self, hf⟩
        · exact Or.inr hv

/-- A key stays in the table. -/
theorem mem_foldl_add : ∀ {l : List Fact} {r : Resolution},
    (k ∈ table r ∨ ∃ f ∈ l, ∃ v, entry f = some (k, v)) → k ∈ table (l.foldl Resolution.add r)
  | [], _, hk => by simpa using hk
  | f :: fs, r, hk => by
    refine mem_foldl_add (l := fs) ?_
    rw [h.add]
    rcases hk with hk | ⟨x, hx, v, hxv⟩
    · left
      cases entry f with
      | none => exact hk
      | some e => exact Std.TreeMap.mem_insert.2 (Or.inr hk)
    · rcases List.mem_cons.1 hx with rfl | hx
      · simp [hxv]
      · exact Or.inr ⟨x, hx, v, hxv⟩

variable {u : SourceUnit}

/-- What is found stems from a fact of the unit. -/
theorem exists_fact (hv : (table (ofUnit u))[k]? = some v) :
    ∃ f ∈ u.facts, entry f = some (k, v) := by
  rw [ofUnit, h.foldl_addMarker] at hv
  rcases h.of_foldl_add hv with hf | hv
  · exact hf
  · simp [h.empty] at hv

theorem exists_getElem? {f : Fact} (hf : f ∈ u.facts) (hk : entry f = some (k, v)) :
    ∃ v', (table (ofUnit u))[k]? = some v' := by
  have hmem : k ∈ table (ofUnit u) := by
    rw [ofUnit, h.foldl_addMarker]
    exact h.mem_foldl_add (Or.inr ⟨f, hf, v, hk⟩)
  exact ⟨_, Std.TreeMap.getElem?_eq_some_getElem hmem⟩

/-- Where all facts with a key agree, exactly their entry is found. -/
theorem getElem?_eq_some_iff
    (hone : ∀ f ∈ u.facts, ∀ g ∈ u.facts, ∀ v w, entry f = some (k, v) → entry g = some (k, w) →
      v = w) :
    (table (ofUnit u))[k]? = some v ↔ ∃ f ∈ u.facts, entry f = some (k, v) := by
  refine ⟨h.exists_fact, fun ⟨f, hf, hv⟩ => ?_⟩
  obtain ⟨w, hw⟩ := h.exists_getElem? hf hv
  obtain ⟨g, hg, hgw⟩ := h.exists_fact hw
  rw [hw, hone g hg f hf w v hgw hv]

end Filled

/-- The expression that a fact is about. -/
def exprEntry : Fact → Option (ExprId × Expr)
  | .expr e => some (e.id, e)
  | _ => none

def declarationEntry : Fact → Option (DeclId × Declaration)
  | .declares d => some (d.id, d)
  | _ => none

def referenceEntry : Fact → Option (ExprId × DeclId)
  | .refers name d => some (name, d)
  | _ => none

def lambdaCallEntry : Fact → Option (ExprId × ExprId)
  | .passed lambda call => some (lambda, call)
  | _ => none

theorem filled_exprs : Filled exprs exprEntry where
  empty := rfl
  add r f := by
    cases f with
    | function f =>
      simp only [add]
      split <;> rfl
    | _ => rfl
  addMarker _ _ := rfl

theorem filled_declarations : Filled declarations declarationEntry where
  empty := rfl
  add r f := by
    cases f with
    | function f =>
      simp only [add]
      split <;> rfl
    | _ => rfl
  addMarker _ _ := rfl

theorem filled_references : Filled references referenceEntry where
  empty := rfl
  add r f := by
    cases f with
    | function f =>
      simp only [add]
      split <;> rfl
    | _ => rfl
  addMarker _ _ := rfl

theorem filled_lambdaCalls : Filled lambdaCalls lambdaCallEntry where
  empty := rfl
  add r f := by
    cases f with
    | function f =>
      simp only [add]
      split <;> rfl
    | _ => rfl
  addMarker _ _ := rfl

theorem exprEntry_eq_some_iff {f : Fact} {id : ExprId} {e : Expr} :
    exprEntry f = some (id, e) ↔ f = .expr e ∧ e.id = id := by
  cases f <;> simp [exprEntry, and_comm, eq_comm]
  rintro rfl
  exact Iff.rfl

theorem declarationEntry_eq_some_iff {f : Fact} {id : DeclId} {d : Declaration} :
    declarationEntry f = some (id, d) ↔ f = .declares d ∧ d.id = id := by
  cases f <;> simp [declarationEntry, and_comm, eq_comm]
  rintro rfl
  exact Iff.rfl

theorem referenceEntry_eq_some_iff {f : Fact} {id : ExprId} {d : DeclId} :
    referenceEntry f = some (id, d) ↔ f = .refers id d := by
  cases f <;> simp [referenceEntry]

theorem lambdaCallEntry_eq_some_iff {f : Fact} {lambda call : ExprId} :
    lambdaCallEntry f = some (lambda, call) ↔ f = .passed lambda call := by
  cases f <;> simp [lambdaCallEntry]

/-- An id is found exactly if it is that of an expression of the unit, and this is found. -/
theorem expr?_eq_some_iff {u : SourceUnit} (hu : (u.exprs.map Expr.id).Nodup) {id : ExprId}
    {x : Expr} : (ofUnit u).expr? id = some x ↔ x ∈ u.exprs ∧ x.id = id := by
  rw [expr?, filled_exprs.getElem?_eq_some_iff]
  · simp only [exprEntry_eq_some_iff]
    exact ⟨fun ⟨_, hf, rfl, hid⟩ => ⟨SourceUnit.expr_mem_facts.1 hf, hid⟩,
      fun ⟨hx, hid⟩ => ⟨_, SourceUnit.expr_mem_facts.2 hx, rfl, hid⟩⟩
  · simp only [exprEntry_eq_some_iff]
    rintro _ hf _ hg v w ⟨rfl, hv⟩ ⟨rfl, hw⟩
    exact List.inj_on_of_nodup_map hu (SourceUnit.expr_mem_facts.1 hf)
      (SourceUnit.expr_mem_facts.1 hg) (hv.trans hw.symm)

/-- What is found for a name is what the walk tells of it. -/
theorem references_eq_some_iff {u : SourceUnit} (hu : (u.exprs.map Expr.id).Nodup) {id : ExprId}
    {d : DeclId} : (ofUnit u).references[id]? = some d ↔ Fact.refers id d ∈ u.facts := by
  rw [filled_references.getElem?_eq_some_iff]
  · simp [referenceEntry_eq_some_iff]
  · simp only [referenceEntry_eq_some_iff]
    rintro _ hf _ hg v w rfl rfl
    exact u.tells.eq_of_refers (SourceUnit.nodup_nodes hu) hf hg

/-! ### Markers -/

theorem markers_foldl_add : ∀ (l : List Fact) (r : Resolution), (l.foldl add r).markers = r.markers
  | [], _ => rfl
  | f :: fs, r => by
    rw [List.foldl_cons, markers_foldl_add fs]
    cases f with
    | function f =>
      simp only [add]
      split <;> rfl
    | _ => rfl

/-- A marker that is found is one of the list with that name, or was there before. -/
theorem of_markers_foldl_addMarker {name : String} {c : ClassDecl} :
    ∀ {l : List ClassDecl} {r : Resolution}, (l.foldl addMarker r).markers[name]? = some c →
      (c ∈ l ∧ c.name = name) ∨ r.markers[name]? = some c
  | [], _, h => Or.inr h
  | d :: l, r, h => by
    rcases of_markers_foldl_addMarker (l := l) h with ⟨hc, hname⟩ | h
    · exact Or.inl ⟨List.mem_cons_of_mem _ hc, hname⟩
    · rw [addMarker, Std.TreeMap.getElem?_insertIfNew] at h
      split at h
      · rename_i hd
        cases h
        exact Or.inl ⟨List.mem_cons_self .., Std.LawfulEqOrd.compare_eq_iff_eq.1 hd.1⟩
      · exact Or.inr h

variable {u : SourceUnit} {name : String} {c : ClassDecl}

/-- A marker that is found is one of the unit with that name. -/
theorem of_marker? (h : (ofUnit u).marker? name = some c) : c ∈ u.markers ∧ c.name = name := by
  rw [marker?, ofUnit] at h
  rcases of_markers_foldl_addMarker h with hc | h
  · exact hc
  · rw [markers_foldl_add] at h
    simp [empty] at h

theorem mem_markers_of_marker? (h : (ofUnit u).marker? name = some c) : c ∈ u.markers :=
  (of_marker? h).1

theorem name_of_marker? (h : (ofUnit u).marker? name = some c) : c.name = name := (of_marker? h).2

end Resolution

end FrameCheck
