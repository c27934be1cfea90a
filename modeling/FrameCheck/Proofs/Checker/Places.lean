import FrameCheck.Checker.Visit
import FrameCheck.Proofs.Parse.Units
import FrameCheck.Resolution.Facts
import Mathlib.Data.List.Nodup
import Mathlib.Data.List.Perm.Basic

/-!
# The walk of the checker goes everywhere once

The checker has a walk of its own through the kinds of expressions, and it tells a member that a
call starts with from other members. Here this walk is compared with `Expr.children`. One layer
of it visits the place of the expression itself and goes on to each child, with a flag on the one
that is called (`Expr.occurrences`). So the visits of a unit are, up to their order, the places of
all its expressions, each where it occurs (`SourceUnit.visits_perm`).

* `Expr.visits_perm` : the visits of an expression.
* `SourceUnit.occurrences` : the expressions of a unit, each once.
* `SourceUnit.mem_occurrences_true`, `SourceUnit.mem_occurrences_false` : which ones are called.
-/

namespace FrameCheck

/-! ## The walk along lists and statements -/

theorem Expr.visitsOf_eq (es : List Expr) : visitsOf es = es.flatMap (visits false) := by
  induction es with
  | nil => rfl
  | cons e es ih => rw [visitsOf, ih, List.flatMap_cons]

theorem Expr.visitsOf?_eq (o : Option Expr) : visitsOf? o = o.toList.flatMap (visits false) := by
  cases o <;> simp [visitsOf?]

theorem Argument.visits_eq : ∀ args : List Argument,
    visits args = (args.map Argument.value).flatMap (Expr.visits false)
  | [] => rfl
  | ⟨_, e⟩ :: args => by rw [visits, visits_eq args, List.map_cons, List.flatMap_cons]

theorem WhenBranch.visits_eq : ∀ bs : List WhenBranch,
    visits bs = (bs.flatMap WhenBranch.exprs).flatMap (Expr.visits false)
  | [] => rfl
  | ⟨conditions, _, body⟩ :: bs => by
    rw [visits, visits_eq bs, Expr.visitsOf_eq, List.flatMap_cons, List.flatMap_append, exprs,
      List.flatMap_append, List.flatMap_singleton]

theorem Param.visits_eq : ∀ ps : List Param,
    visits ps = (Param.defaults ps).flatMap (Expr.visits false)
  | [] => rfl
  | ⟨_, _, _, default, _⟩ :: ps => by
    rw [visits, visits_eq ps, Expr.visitsOf?_eq]
    cases default <;> simp [Param.defaults]

mutual

theorem Block.visits_eq : ∀ b : Block, b.visits = b.exprs.flatMap (Expr.visits false)
  | ⟨stmts, _⟩ => by rw [Block.visits, Stmt.visits_eq stmts, Block.exprs]

theorem Stmt.visits_eq : ∀ ss : List Stmt,
    Stmt.visits ss = (Stmt.exprsOf ss).flatMap (Expr.visits false)
  | [] => rfl
  | s :: ss => by
    rw [Stmt.visits, Stmt.visitsOne_eq s, Stmt.visits_eq ss, Stmt.exprsOf, List.flatMap_append]

theorem Stmt.visitsOne_eq : ∀ s : Stmt, s.visitsOne = s.exprs.flatMap (Expr.visits false)
  | .val v => by rw [Stmt.visitsOne, ValDecl.visits_eq v, Stmt.exprs]
  | .function f => by rw [Stmt.visitsOne, FunDecl.visits_eq f, Stmt.exprs]
  | .expr e => by rw [Stmt.visitsOne, Stmt.exprs, List.flatMap_singleton]
  | .assign target value _ => by simp [Stmt.visitsOne, Stmt.exprs]
  | .ret value _ => by rw [Stmt.visitsOne, Stmt.exprs, Expr.visitsOf?_eq]

theorem ValDecl.visits_eq : ∀ v : ValDecl, v.visits = v.exprs.flatMap (Expr.visits false)
  | ⟨_, _, _, _, _, _, init, getter, _⟩ => by
    rw [ValDecl.visits, Expr.visitsOf?_eq, Body.visits_eq getter, ValDecl.exprs,
      List.flatMap_append]

theorem FunDecl.visits_eq : ∀ f : FunDecl, f.visits = f.exprs.flatMap (Expr.visits false)
  | ⟨_, _, _, params, _, body, _, _⟩ => by
    rw [FunDecl.visits, Param.visits_eq, Body.visits_eq body, FunDecl.exprs, List.flatMap_append]

theorem Body.visits_eq : ∀ b : Body, b.visits = b.exprs.flatMap (Expr.visits false)
  | .absent => rfl
  | .expr e => by rw [Body.visits, Body.exprs, List.flatMap_singleton]
  | .block b => by rw [Body.visits, Block.visits_eq b, Body.exprs]

end

theorem PropertyDecl.visits_eq (p : PropertyDecl) :
    p.visits = p.exprs.flatMap (Expr.visits false) := by
  rw [visits, Expr.visitsOf?_eq, Body.visits_eq, exprs, List.flatMap_append]

/-! ## Occurrences -/

/-- An expression where it occurs : whether a call starts with it. -/
abbrev Occurrence : Type := Expr × Bool

namespace Expr

/-- The children as they occur. -/
def occurrences (e : Expr) : List Occurrence :=
  match e.kind with
  | .call callee _ args => (callee, true) :: args.map fun a => (a.value, false)
  | _ => e.children.map (·, false)

/-- What is visited for an expression itself. -/
def places (e : Expr) (called : Bool) : List Visit :=
  match e.kind with
  | .member receiver name _ _ => if called then [] else [.column e receiver name false]
  | .call .. => [.call e]
  | .index receiver indices => indexVisits e receiver indices
  | _ => []

/-- The expression reads a column of its receiver, as a member or by its only index. -/
inductive Reads (e receiver : Expr) (name : String) : Bool → Prop where
  | member {nameSpan : Span} {safe : Bool} (h : e.kind = .member receiver name nameSpan safe) :
      Reads e receiver name false
  | index {i : Expr} (h : e.kind = .index receiver [i]) (hi : i.stringLiteral? = some name) :
      Reads e receiver name true

theorem Reads.mem_children {e receiver : Expr} {name : String} {indexed : Bool}
    (h : e.Reads receiver name indexed) : receiver ∈ e.children := by
  cases h with
  | member hk => simp [children, hk]
  | index hk hi => simp [children, hk]

theorem mem_indexVisits {e receiver : Expr} {indices : List Expr} {v : Visit} :
    v ∈ indexVisits e receiver indices ↔ ∃ i name, indices = [i] ∧
      i.stringLiteral? = some name ∧ v = .column e receiver name true := by
  unfold indexVisits
  split
  · rename_i i
    cases hi : i.stringLiteral? <;> simp [hi]
  · rename_i hne
    simp only [List.not_mem_nil, false_iff]
    rintro ⟨i, name, rfl, -⟩
    exact hne i rfl

/-- What is visited for an expression itself is a call, or a read of a column that is not the
member that a call starts with. -/
theorem mem_places {e : Expr} {called : Bool} {v : Visit} : v ∈ e.places called ↔
    (v = .call e ∧ ∃ callee typeArgs args, e.kind = .call callee typeArgs args) ∨
      ∃ receiver name indexed, e.Reads receiver name indexed ∧
        (indexed = false → called = false) ∧ v = .column e receiver name indexed := by
  constructor
  · intro h
    unfold places at h
    split at h
    · rename_i receiver name nameSpan safe hk
      cases called with
      | true => simp at h
      | false =>
        rw [if_neg Bool.false_ne_true, List.mem_singleton] at h
        exact Or.inr ⟨receiver, name, false, .member hk, fun _ => rfl, h⟩
    · rename_i callee typeArgs args hk
      exact Or.inl ⟨List.mem_singleton.1 h, callee, typeArgs, args, hk⟩
    · rename_i receiver indices hk
      obtain ⟨i, name, rfl, hi, rfl⟩ := mem_indexVisits.1 h
      exact Or.inr ⟨receiver, name, true, .index hk hi, by simp, rfl⟩
    · simp at h
  · rintro (⟨rfl, callee, typeArgs, args, hk⟩ | ⟨receiver, name, indexed, hreads, hcalled, rfl⟩)
    · simp [places, hk]
    · cases hreads with
      | member hk => simp [places, hk, hcalled rfl]
      | index hk hi => simp [places, hk, mem_indexVisits, hi]

theorem length_places_le (e : Expr) (called : Bool) : (e.places called).length ≤ 1 := by
  obtain ⟨id, span, kind⟩ := e
  cases kind with
  | index receiver indices =>
    simp only [places, indexVisits]
    split
    · split <;> simp
    · simp
  | member => cases called <;> simp [places]
  | _ => simp [places]

theorem map_fst_occurrences (e : Expr) : e.occurrences.map Prod.fst = e.children := by
  obtain ⟨id, span, kind⟩ := e
  cases kind <;> simp [occurrences, children, Function.comp_def]

/-- An expression occurs as a called one if it is the callee of a call. -/
theorem mem_occurrences_true {e x : Expr} :
    (x, true) ∈ e.occurrences ↔ ∃ typeArgs args, e.kind = .call x typeArgs args := by
  obtain ⟨id, span, kind⟩ := e
  cases kind with
  | call callee typeArgs args => simp [occurrences, eq_comm]
  | _ => simp [occurrences]

theorem flatMap_occurrences_of_not_call {β : Type} {e : Expr} {f : Occurrence → List β}
    (h : ∀ callee typeArgs args, e.kind ≠ .call callee typeArgs args) :
    e.occurrences.flatMap f = e.children.flatMap fun x => f (x, false) := by
  obtain ⟨id, span, kind⟩ := e
  cases kind with
  | call callee typeArgs args => exact absurd rfl (h callee typeArgs args)
  | _ => simp [occurrences, List.flatMap_map]

/-- One layer of the walk : the place of the expression, and then its children. -/
theorem visits_perm_occurrences (e : Expr) (called : Bool) :
    (e.visits called).Perm
      (e.places called ++ e.occurrences.flatMap fun c => c.1.visits c.2) := by
  obtain ⟨id, span, kind⟩ := e
  by_cases h : ∃ callee typeArgs args, kind = .call callee typeArgs args
  · obtain ⟨callee, typeArgs, args, rfl⟩ := h
    refine List.Perm.of_eq ?_
    simp [visits, ExprKind.visits, places, occurrences, Argument.visits_eq, List.flatMap_map]
  · have hk : ∀ callee typeArgs args, (Expr.mk id span kind).kind ≠ .call callee typeArgs args :=
      fun callee typeArgs args hk => h ⟨callee, typeArgs, args, hk⟩
    rw [flatMap_occurrences_of_not_call hk]
    refine List.Perm.trans (List.Perm.of_eq ?_) List.perm_append_comm
    cases kind <;> simp_all [visits, ExprKind.visits, places, children, Expr.visitsOf_eq,
      Expr.visitsOf?_eq, WhenBranch.visits_eq, Block.visits_eq, List.append_assoc]

/-- What goes through an expression layer by layer goes through all that is inside of it. -/
theorem perm_of_layers {β : Type} {f g : Occurrence → List β}
    (h : ∀ c, (f c).Perm (g c ++ c.1.occurrences.flatMap f)) (e : Expr) :
    ∀ called, (f (e, called)).Perm
      (g (e, called) ++ (e.nodes.flatMap occurrences).flatMap g) := by
  induction e using childrenInduction with
  | step e ih =>
    intro called
    have hnodes : e.nodes.flatMap occurrences =
        (e.occurrences.flatMap fun c => c.1.nodes.flatMap occurrences) ++ e.occurrences := by
      rw [nodes_eq, List.flatMap_append, List.flatMap_singleton, parts, ← map_fst_occurrences,
        List.flatMap_map, List.flatMap_assoc]
    have hinside : ∀ c ∈ e.occurrences,
        (f c).Perm (g c ++ (c.1.nodes.flatMap occurrences).flatMap g) := fun c hc =>
      ih c.1 (map_fst_occurrences e ▸ List.mem_map_of_mem hc) c.2
    refine (h (e, called)).trans (List.Perm.append_left _ ?_)
    rw [hnodes, List.flatMap_append, List.flatMap_assoc]
    exact (List.Perm.flatMap_left _ hinside).trans
      ((List.flatMap_append_perm _ _ _).symm.trans List.perm_append_comm)

/-- The visits of an expression are the places of all that is inside of it. -/
theorem visits_perm (e : Expr) (called : Bool) : (e.visits called).Perm
    (e.places called ++ (e.nodes.flatMap occurrences).flatMap fun c => c.1.places c.2) :=
  perm_of_layers (fun c => visits_perm_occurrences c.1 c.2) e called

/-- Each expression inside of another occurs once there. -/
theorem nodes_perm (e : Expr) : e.nodes.Perm (e :: (e.nodes.flatMap occurrences).map Prod.fst) := by
  have h := perm_of_layers (f := fun c => c.1.nodes) (g := fun c => [c.1]) (fun c => ?_) e false
  · exact h.trans (List.Perm.of_eq (by simp [List.map_eq_flatMap]))
  · rw [nodes_eq, parts, ← map_fst_occurrences, List.flatMap_map]
    exact List.perm_append_comm

end Expr

/-! ## Units -/

/-- The marker that an item declares. -/
def Item.markers : Item → List ClassDecl
  | classDecl c => if c.isMarker then [c] else []
  | _ => []

theorem Item.visits_eq (i : Item) :
    i.visits = i.markers.map Visit.marker ++ i.roots.flatMap (Expr.visits false) := by
  cases i with
  | classDecl c =>
    have hp : PropertyDecl.visits = fun p => p.exprs.flatMap (Expr.visits false) :=
      funext PropertyDecl.visits_eq
    have hm : FunDecl.visits = fun f => f.exprs.flatMap (Expr.visits false) :=
      funext FunDecl.visits_eq
    rw [Item.visits, ClassDecl.visits, Param.visits_eq, roots, hp, hm, List.flatMap_append,
      List.flatMap_append, List.flatMap_assoc, List.flatMap_assoc, markers]
    cases c.isMarker <;> simp
  | function f => simp [Item.visits, FunDecl.visits_eq, roots, markers]
  | property v => simp [Item.visits, ValDecl.visits_eq, roots, markers]

namespace SourceUnit

theorem markers_eq (u : SourceUnit) : u.markers = u.items.flatMap Item.markers := by
  rw [markers, List.filter_filterMap, List.filterMap_eq_flatMap_toList]
  refine List.flatMap_congr fun i _ => ?_
  cases i with
  | classDecl c => cases h : c.isMarker <;> simp [Item.markers, Option.filter, h]
  | _ => rfl

/-- The expressions of a unit as they occur. -/
def occurrences (u : SourceUnit) : List Occurrence :=
  (u.items.flatMap Item.roots).map (·, false) ++ u.exprs.flatMap Expr.occurrences

theorem flatMap_occurrences_perm {β : Type} (u : SourceUnit) {f g : Occurrence → List β}
    (h : ∀ e, (f (e, false)).Perm (g (e, false) ++ (e.nodes.flatMap Expr.occurrences).flatMap g)) :
    ((u.items.flatMap Item.roots).flatMap fun e => f (e, false)).Perm
      (u.occurrences.flatMap g) := by
  rw [occurrences, exprs_eq_flatMap]
  generalize u.items.flatMap Item.roots = roots
  have hinside : (roots.flatMap Expr.nodes).flatMap Expr.occurrences =
      roots.flatMap fun e => e.nodes.flatMap Expr.occurrences := List.flatMap_assoc ..
  rw [hinside, List.flatMap_append, List.flatMap_map, List.flatMap_assoc]
  exact (List.Perm.flatMap_left _ fun e _ => h e).trans (List.flatMap_append_perm _ _ _).symm

/-- Each expression of a unit occurs once. -/
theorem occurrences_perm (u : SourceUnit) : u.exprs.Perm (u.occurrences.map Prod.fst) := by
  rw [exprs_eq_flatMap, List.map_eq_flatMap]
  refine flatMap_occurrences_perm u (f := fun c => c.1.nodes) fun e => ?_
  rw [← List.map_eq_flatMap]
  exact e.nodes_perm

/-- The visits of a unit are its markers and the places of all its expressions. -/
theorem visits_perm (u : SourceUnit) : u.visits.Perm
    (u.markers.map Visit.marker ++ u.occurrences.flatMap fun c => c.1.places c.2) := by
  have hitems : Item.visits =
      fun i => i.markers.map Visit.marker ++ i.roots.flatMap (Expr.visits false) :=
    funext Item.visits_eq
  rw [visits, hitems, markers_eq, List.map_flatMap]
  refine (List.flatMap_append_perm _ _ _).symm.trans (List.Perm.append_left _ ?_)
  rw [← List.flatMap_assoc]
  exact flatMap_occurrences_perm u (f := fun c => c.1.visits c.2) fun e => e.visits_perm false

end SourceUnit

/-- Some call of the unit starts with the expression. -/
def SourceUnit.Calls (u : SourceUnit) (e : Expr) : Prop :=
  ∃ call ∈ u.exprs, ∃ typeArgs args, call.kind = .call e typeArgs args

namespace SourceUnit

variable {u : SourceUnit} (hu : (u.exprs.map Expr.id).Nodup)

include hu

theorem nodup_occurrences : (u.occurrences.map Prod.fst).Nodup :=
  u.occurrences_perm.nodup_iff.1 (List.Nodup.of_map _ hu)

omit hu in
theorem mem_occurrences_true {e : Expr} : (e, true) ∈ u.occurrences ↔ u.Calls e := by
  simp only [occurrences, List.mem_append, List.mem_map, Prod.mk.injEq, List.mem_flatMap,
    Expr.mem_occurrences_true, Calls]
  simp

/-- An expression is either called or not. -/
theorem mem_occurrences_false {e : Expr} :
    (e, false) ∈ u.occurrences ↔ e ∈ u.exprs ∧ ¬u.Calls e := by
  rw [← mem_occurrences_true, u.occurrences_perm.mem_iff, List.mem_map]
  constructor
  · intro h
    refine ⟨⟨_, h, rfl⟩, fun h' => ?_⟩
    have heq := List.inj_on_of_nodup_map (nodup_occurrences hu) h h' rfl
    simp at heq
  · rintro ⟨⟨⟨x, called⟩, h, rfl⟩, h'⟩
    cases called with
    | false => exact h
    | true => exact absurd h h'

end SourceUnit

end FrameCheck
