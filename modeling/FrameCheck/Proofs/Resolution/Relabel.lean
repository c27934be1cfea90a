import FrameCheck.Checker.Visit
import FrameCheck.Proofs.Resolution.RelabelledFacts
import FrameCheck.Resolution.Basic

/-!
# Resolutions do not depend on names

The places to check in a unit with other spans and names are those of the unit. A resolution is a set
of tables of facts, so in a unit that the new names suit it gives the same answers, up to the spans
and names of the trees that it answers with.

* `SourceUnit.visits_relabel` : the places to check.
* `Resolution.Relabels` : resolutions that answer alike up to spans and names.
-/

namespace FrameCheck

theorem SourceUnit.markers_relabel (g : Relabel) (u : SourceUnit) :
    (u.relabel g).markers = u.markers.map (ClassDecl.relabel g) := by
  unfold markers
  rw [show (u.relabel g).items = u.items.map (Item.relabel g) from rfl, List.filterMap_map,
    List.filter_filterMap, List.filter_filterMap, List.map_filterMap]
  congr 1
  funext i
  cases i
  case classDecl c =>
    simp only [Function.comp, Item.relabel, Option.filter_some, ClassDecl.isMarker_relabel]
    split <;> rfl
  all_goals rfl

/-! ## Places to check -/

def Visit.relabel (g : Relabel) : Visit → Visit
  | .marker c => .marker (c.relabel g)
  | .call e => .call (e.relabel g)
  | .column access receiver name indexed =>
    .column (access.relabel g) (receiver.relabel g) name indexed

section

variable (g : Relabel)

theorem Expr.visits_of_isName (called : Bool) {e : Expr} (h : e.isName) :
    e.visits called = [] := by
  rcases e with ⟨id, span, kind⟩
  cases kind with
  | name => rfl
  | _ => cases h

theorem indexVisits_relabel (access receiver : Expr) (indices : List Expr) :
    indexVisits (access.relabel g) (receiver.relabel g) (indices.map (Expr.relabel g))
      = (indexVisits access receiver indices).map (Visit.relabel g) := by
  rcases indices with _ | ⟨i, _ | ⟨j, rest⟩⟩
  · rfl
  · simp only [List.map_cons, List.map_nil, indexVisits, Expr.stringLiteral?_relabel]
    cases i.stringLiteral? <;> rfl
  · rfl

mutual

theorem Expr.visits_relabel (called : Bool) :
    ∀ e : Expr, (e.relabel g).visits called = (e.visits called).map (Visit.relabel g)
  | ⟨id, span, kind⟩ => by
    have h := kind.visits_relabel called ⟨id, span, kind⟩
    rw [Expr.relabel] at h ⊢
    simp only [Expr.visits]
    exact h

theorem ExprKind.visits_relabel (called : Bool) (e : Expr) : ∀ k : ExprKind,
    (k.relabel g (g.name e.id)).visits called (e.relabel g) = (k.visits called e).map (Visit.relabel g)
  | .literal _ | .name _ | .this => rfl
  | .member receiver name _ _ => by
    simp only [ExprKind.relabel, ExprKind.visits, receiver.visits_relabel false, List.map_append]
    cases called <;> rfl
  | .call callee _ args => by
    have hcallee : (callee.relabelCalled g).visits true
        = (callee.visits true).map (Visit.relabel g) := by
      by_cases hn : callee.isName
      · rw [Expr.visits_of_isName true hn, Expr.visits_of_isName true (by simpa using hn)]
        rfl
      · rw [Expr.relabelCalled_of_not_isName g hn, callee.visits_relabel true]
    rw [ExprKind.relabel_call, ← Argument.relabelAll_eq_map]
    simp only [ExprKind.visits, hcallee, Argument.visits_relabel args, List.map_append,
      List.map_cons, Visit.relabel]
  | .index receiver indices => by
    simp only [ExprKind.relabel, ExprKind.visits, receiver.visits_relabel false,
      Expr.visitsOf_relabel indices, List.map_append]
    rw [Expr.relabelAll_eq_map, indexVisits_relabel]
  | .binary _ left right => by
    simp only [ExprKind.relabel, ExprKind.visits, left.visits_relabel false,
      right.visits_relabel false, List.map_append]
  | .unary _ operand => by
    simp only [ExprKind.relabel, ExprKind.visits, operand.visits_relabel false]
  | .notNull inner => by
    simp only [ExprKind.relabel, ExprKind.visits, inner.visits_relabel false]
  | .cast operand _ _ => by
    simp only [ExprKind.relabel, ExprKind.visits, operand.visits_relabel false]
  | .ifElse condition thenBranch elseBranch => by
    simp only [ExprKind.relabel, ExprKind.visits, condition.visits_relabel false,
      thenBranch.visits_relabel false, Expr.visitsOf?_relabel elseBranch, List.map_append]
  | .whenOf subject branches => by
    simp only [ExprKind.relabel, ExprKind.visits, Expr.visitsOf?_relabel subject,
      WhenBranch.visits_relabel branches, List.map_append]
  | .template parts => by
    simp only [ExprKind.relabel, ExprKind.visits, Expr.visitsOf_relabel parts]
  | .block body => by simp only [ExprKind.relabel, ExprKind.visits, body.visits_relabel]
  | .lambda _ _ body => by simp only [ExprKind.relabel, ExprKind.visits, body.visits_relabel]

theorem Expr.visitsOf_relabel : ∀ es : List Expr,
    Expr.visitsOf (Expr.relabelAll g es) = (Expr.visitsOf es).map (Visit.relabel g)
  | [] => rfl
  | e :: rest => by
    simp only [Expr.relabelAll, Expr.visitsOf, e.visits_relabel false, Expr.visitsOf_relabel rest,
      List.map_append]

theorem Expr.visitsOf?_relabel : ∀ e : Option Expr,
    Expr.visitsOf? (Expr.relabel? g e) = (Expr.visitsOf? e).map (Visit.relabel g)
  | none => rfl
  | some e => by simp only [Expr.relabel?, Expr.visitsOf?, e.visits_relabel false]

theorem Argument.visits_relabel : ∀ as : List Argument,
    Argument.visits (Argument.relabelAll g as) = (Argument.visits as).map (Visit.relabel g)
  | [] => rfl
  | ⟨_, e⟩ :: rest => by
    simp only [Argument.relabelAll, Argument.relabel, Argument.visits, e.visits_relabel false,
      Argument.visits_relabel rest, List.map_append]

theorem WhenBranch.visits_relabel : ∀ bs : List WhenBranch,
    WhenBranch.visits (WhenBranch.relabelAll g bs) = (WhenBranch.visits bs).map (Visit.relabel g)
  | [] => rfl
  | ⟨conditions, _, body⟩ :: rest => by
    simp only [WhenBranch.relabelAll, WhenBranch.relabel, WhenBranch.visits,
      Expr.visitsOf_relabel conditions, body.visits_relabel false, WhenBranch.visits_relabel rest,
      List.map_append]

theorem Block.visits_relabel :
    ∀ b : Block, (b.relabel g).visits = b.visits.map (Visit.relabel g)
  | ⟨stmts, _⟩ => by simp only [Block.relabel, Block.visits, Stmt.visits_relabel stmts]

theorem Stmt.visits_relabel : ∀ ss : List Stmt,
    Stmt.visits (Stmt.relabelAll g ss) = (Stmt.visits ss).map (Visit.relabel g)
  | [] => rfl
  | s :: rest => by
    simp only [Stmt.relabelAll, Stmt.visits, s.visitsOne_relabel, Stmt.visits_relabel rest,
      List.map_append]

theorem Stmt.visitsOne_relabel :
    ∀ s : Stmt, (s.relabel g).visitsOne = s.visitsOne.map (Visit.relabel g)
  | .val v => by simp only [Stmt.relabel, Stmt.visitsOne, v.visits_relabel]
  | .function d => by simp only [Stmt.relabel, Stmt.visitsOne, d.visits_relabel]
  | .expr e => by simp only [Stmt.relabel, Stmt.visitsOne, e.visits_relabel false]
  | .assign target value _ => by
    simp only [Stmt.relabel, Stmt.visitsOne, target.visits_relabel false,
      value.visits_relabel false, List.map_append]
  | .ret value _ => by simp only [Stmt.relabel, Stmt.visitsOne, Expr.visitsOf?_relabel value]

theorem Body.visits_relabel : ∀ b : Body, (b.relabel g).visits = b.visits.map (Visit.relabel g)
  | .absent => rfl
  | .expr e => by simp only [Body.relabel, Body.visits, e.visits_relabel false]
  | .block b => by simp only [Body.relabel, Body.visits, b.visits_relabel]

theorem ValDecl.visits_relabel :
    ∀ v : ValDecl, (v.relabel g).visits = v.visits.map (Visit.relabel g)
  | ⟨_, _, _, _, _, _, init, getter, _⟩ => by
    simp only [ValDecl.relabel, ValDecl.visits, Expr.visitsOf?_relabel init, getter.visits_relabel,
      List.map_append]

theorem Param.visits_relabel : ∀ ps : List Param,
    Param.visits (Param.relabelAll g ps) = (Param.visits ps).map (Visit.relabel g)
  | [] => rfl
  | ⟨_, _, _, default, _⟩ :: rest => by
    simp only [Param.relabelAll, Param.relabel, Param.visits, Expr.visitsOf?_relabel default,
      Param.visits_relabel rest, List.map_append]

theorem FunDecl.visits_relabel :
    ∀ d : FunDecl, (d.relabel g).visits = d.visits.map (Visit.relabel g)
  | ⟨_, _, _, params, _, body, _, _⟩ => by
    simp only [FunDecl.relabel, FunDecl.visits, Param.visits_relabel params, body.visits_relabel,
      List.map_append]

end

theorem PropertyDecl.visits_relabel (p : PropertyDecl) :
    (p.relabel g).visits = p.visits.map (Visit.relabel g) := by
  unfold visits
  rw [List.map_append, ← Expr.visitsOf?_relabel, ← Body.visits_relabel, Expr.relabel?_eq_map]
  rfl

theorem ClassDecl.visits_relabel (c : ClassDecl) :
    (c.relabel g).visits = c.visits.map (Visit.relabel g) := by
  have hmarker : (if (c.relabel g).isMarker then [Visit.marker (c.relabel g)] else [])
      = (if c.isMarker then [Visit.marker c] else []).map (Visit.relabel g) := by
    rw [isMarker_relabel]
    split <;> rfl
  unfold visits
  rw [hmarker]
  simp [relabel, ← Param.relabelAll_eq_map, Param.visits_relabel, List.flatMap_map,
    List.map_flatMap, PropertyDecl.visits_relabel, FunDecl.visits_relabel]

theorem Item.visits_relabel (i : Item) : (i.relabel g).visits = i.visits.map (Visit.relabel g) := by
  cases i
  case classDecl c => exact c.visits_relabel g
  case function d => exact d.visits_relabel g
  case property v => exact v.visits_relabel g

theorem SourceUnit.visits_relabel (u : SourceUnit) :
    (u.relabel g).visits = u.visits.map (Visit.relabel g) := by
  simp [visits, relabel, List.flatMap_map, List.map_flatMap, Item.visits_relabel]

end

/-! ## Tables -/

/-- The table `t'` has the values of `t` at its keys, each changed by `g`. -/
def Changed {α β γ : Type} [Ord α] (g : β → γ) (t : Std.TreeMap α β) (t' : Std.TreeMap α γ) :
    Prop :=
  ∀ k : α, t'[k]? = t[k]?.map g

namespace Changed

variable {α β γ : Type} [Ord α] [Std.TransOrd α] {g : β → γ} {t : Std.TreeMap α β}
  {t' : Std.TreeMap α γ}

theorem empty : Changed g (∅ : Std.TreeMap α β) ∅ := fun k => by simp

theorem contains_eq (h : Changed g t t') (k : α) : t'.contains k = t.contains k := by
  rw [Std.TreeMap.contains_eq_isSome_getElem?, Std.TreeMap.contains_eq_isSome_getElem?, h k,
    Option.isSome_map]

theorem insert (h : Changed g t t') (k : α) (v : β) :
    Changed g (t.insert k v) (t'.insert k (g v)) := fun a => by
  rw [Std.TreeMap.getElem?_insert, Std.TreeMap.getElem?_insert, h a]
  split <;> rfl

theorem insertIfNew (h : Changed g t t') (k : α) (v : β) :
    Changed g (t.insertIfNew k v) (t'.insertIfNew k (g v)) := fun a => by
  simp only [Std.TreeMap.getElem?_insertIfNew, h a, Std.TreeMap.mem_iff_contains, h.contains_eq]
  split <;> rfl

variable [Std.LawfulEqOrd α]

theorem equiv (h : Changed g t t') : t'.Equiv (t.map fun _ => g) :=
  Std.TreeMap.Equiv.of_forall_constGet?_eq fun k =>
    (h k).trans (Std.TreeMap.getElem?_map (f := fun _ => g)).symm

theorem size_eq (h : Changed g t t') : t'.size = t.size := by
  rw [h.equiv.size_eq, Std.TreeMap.size_map]

theorem toList_eq (h : Changed g t t') : t'.toList = t.toList.map fun p => (p.1, g p.2) := by
  rw [h.equiv.toList_eq, Std.TreeMap.toList_map]

end Changed

/-! ## Resolutions -/

/-- The resolution `r'` holds what `r` does, with other spans and names. -/
structure Resolution.Relabels (g : Relabel) (r r' : Resolution) : Prop where
  exprs : Changed (Expr.relabel g) r.exprs r'.exprs
  functions : Changed (FunDecl.relabel g) r.functions r'.functions
  extensionProperties :
    Changed (FunDecl.relabel g) r.extensionProperties r'.extensionProperties
  markers : Changed (ClassDecl.relabel g) r.markers r'.markers
  declarations : Changed (Declaration.relabel g) r.declarations r'.declarations
  references : r'.references = r.references
  assigned : r'.assigned = r.assigned
  expected : r'.expected = r.expected
  thisTypes : r'.thisTypes = r.thisTypes
  lambdaCalls : r'.lambdaCalls = r.lambdaCalls

namespace Resolution.Relabels

variable {g : Relabel} {r r' : Resolution}

theorem empty : Relabels g Resolution.empty Resolution.empty :=
  ⟨Changed.empty, Changed.empty, Changed.empty, Changed.empty, Changed.empty, rfl, rfl, rfl, rfl,
    rfl⟩

theorem add (h : Relabels g r r') (fact : Fact) :
    Relabels g (r.add fact) (r'.add (fact.relabel g)) := by
  cases fact
  case expr e =>
    simp only [Resolution.add, Fact.relabel, Expr.id_relabel]
    exact { h with exprs := h.exprs.insert e.id e }
  case declares d =>
    exact { h with declarations := h.declarations.insert d.id d }
  case refers name decl =>
    exact { h with references := congrArg (fun t => t.insert name decl) h.references }
  case assigns decl =>
    exact { h with assigned := congrArg (fun t => t.insert decl ()) h.assigned }
  case expects e type =>
    exact { h with expected := congrArg (fun t => t.insert e type) h.expected }
  case thisType e type =>
    exact { h with thisTypes := congrArg (fun t => t.insert e type) h.thisTypes }
  case passed lambda call =>
    exact { h with lambdaCalls := congrArg (fun t => t.insert lambda call) h.lambdaCalls }
  case function d =>
    simp only [Resolution.add, Fact.relabel, FunDecl.isProperty_relabel, FunDecl.name_relabel]
    split
    · exact { h with extensionProperties := h.extensionProperties.insertIfNew d.name d }
    · exact { h with functions := h.functions.insertIfNew d.name d }

theorem addMarker (h : Relabels g r r') (c : ClassDecl) :
    Relabels g (r.addMarker c) (r'.addMarker (c.relabel g)) :=
  { h with markers := h.markers.insertIfNew c.name c }

theorem ofUnit {u : SourceUnit} (hu : u.Suits g) :
    Relabels g (Resolution.ofUnit u) (Resolution.ofUnit (u.relabel g)) := by
  have hfacts (facts : List Fact) : ∀ {r r' : Resolution}, Relabels g r r' →
      Relabels g (facts.foldl Resolution.add r)
        ((facts.map (Fact.relabel g)).foldl Resolution.add r') := by
    induction facts with
    | nil => exact fun h => h
    | cons fact facts ih => exact fun h => ih (h.add fact)
  have hmarkers (cs : List ClassDecl) : ∀ {r r' : Resolution}, Relabels g r r' →
      Relabels g (cs.foldl Resolution.addMarker r)
        ((cs.map (ClassDecl.relabel g)).foldl Resolution.addMarker r') := by
    induction cs with
    | nil => exact fun h => h
    | cons c cs ih => exact fun h => ih (h.addMarker c)
  unfold Resolution.ofUnit
  rw [SourceUnit.facts_relabel hu, u.markers_relabel]
  exact hmarkers u.markers (hfacts u.facts empty)

/-! ### Answers -/

variable (h : Relabels g r r')

include h

theorem expr? (id : ExprId) : r'.expr? id = (r.expr? id).map (Expr.relabel g) := h.exprs id

theorem marker? (name : String) : r'.marker? name = (r.marker? name).map (ClassDecl.relabel g) :=
  h.markers name

theorem declaration? (e : Expr) :
    r'.declaration? (e.relabel g) = (r.declaration? e).map (Declaration.relabel g) := by
  unfold Resolution.declaration?
  rw [h.references, Expr.id_relabel]
  cases r.references[e.id]? with
  | none => rfl
  | some d => exact h.declarations d

theorem isStable (d : Declaration) : r'.isStable (d.relabel g) = r.isStable d := by
  unfold Resolution.isStable
  rw [h.assigned]
  rfl

theorem expected? (e : Expr) : r'.expected? (e.relabel g) = r.expected? e := by
  unfold Resolution.expected?
  rw [h.expected, Expr.id_relabel]

theorem lambdaCall? (lambda : ExprId) : r'.lambdaCall? lambda = r.lambdaCall? lambda := by
  unfold Resolution.lambdaCall?
  rw [h.lambdaCalls]

theorem extensionProperty? (name : String) :
    r'.extensionProperty? name = (r.extensionProperty? name).map (FunDecl.relabel g) :=
  h.extensionProperties name

theorem plainFunction? (name : String) :
    r'.plainFunction? name = (r.plainFunction? name).map (FunDecl.relabel g) := by
  unfold Resolution.plainFunction?
  rw [h.functions name, Option.filter_map]
  simp [Function.comp_def]

theorem extensionFunction? (name : String) :
    r'.extensionFunction? name = (r.extensionFunction? name).map (FunDecl.relabel g) := by
  unfold Resolution.extensionFunction?
  rw [h.functions name, Option.filter_map]
  simp [Function.comp_def]

theorem callee? (e : Expr) : r'.callee? (e.relabel g) = r.callee? e := by
  unfold Resolution.callee?
  rw [Expr.kind_relabel]
  cases e.kind
  case call callee typeArgs args =>
    simp only [ExprKind.relabel_call, Expr.relabelCalled, List.length_map]
    cases callee.kind
    case name n => simp only [ExprKind.relabel, h.functions.contains_eq]
    case member receiver n nameSpan safe =>
      simp only [ExprKind.relabel, Expr.id_relabel, h.extensionFunction?, Option.isSome_map]
    case call => simp [ExprKind.relabel_call]
    all_goals simp [ExprKind.relabel]
  all_goals simp [ExprKind.relabel]

theorem typeOf? (e : Expr) : r'.typeOf? (e.relabel g) = r.typeOf? e := by
  have htype (o : Option FunDecl) :
      (o.map (FunDecl.relabel g)).bind FunDecl.returnType = o.bind FunDecl.returnType := by
    cases o <;> simp
  have hdeclaration := h.declaration? e
  unfold Resolution.typeOf?
  rw [Expr.kind_relabel]
  cases e.kind
  case name n =>
    simp only [ExprKind.relabel, hdeclaration]
    cases r.declaration? e <;> rfl
  case member receiver n nameSpan safe =>
    simp only [ExprKind.relabel, h.extensionProperty?, htype]
  case this => simp only [ExprKind.relabel, h.thisTypes, Expr.id_relabel]
  case call callee typeArgs args =>
    simp only [ExprKind.relabel_call, Expr.relabelCalled]
    cases callee.kind
    case name n => simp only [ExprKind.relabel, h.plainFunction?, htype]
    case member receiver n nameSpan safe =>
      simp only [ExprKind.relabel, h.extensionFunction?, htype]
    case call => simp [ExprKind.relabel_call]
    all_goals simp [ExprKind.relabel]
  all_goals simp [ExprKind.relabel]

end Resolution.Relabels

end FrameCheck
