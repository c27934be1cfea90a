import FrameCheck.Proofs.Tree.Nodes
import FrameCheck.Resolution.Facts

/-!
# Shadowed names

What the walk over a unit finds depends on a scope only through what is in sight in it
(`Expr.facts_congr`). So behind a declaration nothing depends on what its name was before
(`Stmt.facts_declare`).
-/

namespace FrameCheck

namespace Scope

/-- The same is in sight in both scopes, but for the names in the set. -/
structure Alike (hidden : String → Prop) (sc sc' : Scope) : Prop where
  lookup? : ∀ name, ¬hidden name → sc.lookup? name = sc'.lookup? name
  thisType : sc.thisType = sc'.thisType

/-- The same is in sight in both scopes. -/
abbrev Same (sc sc' : Scope) : Prop := Alike (fun _ => False) sc sc'

namespace Alike

variable {hidden : String → Prop} {sc sc' : Scope}

/-- A declaration hides what its name was before. -/
theorem shadow {name : String} (h : Alike (· = name) sc sc') (d : DeclId) :
    Same (sc.declare name d) (sc'.declare name d) where
  lookup? n _ := by
    unfold Scope.lookup? declare
    rw [List.lookup_cons, List.lookup_cons]
    by_cases hn : n = name
    · simp [hn]
    · rw [beq_eq_false_iff_ne.2 hn]
      exact h.lookup? n hn
  thisType := h.thisType

theorem declare (h : Same sc sc') (name : String) (d : DeclId) :
    Same (sc.declare name d) (sc'.declare name d) :=
  shadow ⟨fun n _ => h.lookup? n id, h.thisType⟩ d

theorem declareParams (h : Same sc sc') (ps : List Param) :
    Same (sc.declareParams ps) (sc'.declareParams ps) := by
  induction ps generalizing sc sc' with
  | nil => exact h
  | cons p ps ih => exact ih (h.declare p.name p.decl)

theorem declareLambdaParams (h : Same sc sc') (ps : List LambdaParam) :
    Same (sc.declareLambdaParams ps) (sc'.declareLambdaParams ps) := by
  induction ps generalizing sc sc' with
  | nil => exact h
  | cons p ps ih => exact ih (h.declare p.name p.decl)

theorem ofLambda (h : Same sc sc') (ps : List LambdaParam) (it : DeclId) :
    Same (sc.ofLambda ps it) (sc'.ofLambda ps it) := by
  unfold Scope.ofLambda
  split
  · exact h.declare "it" it
  · exact h.declareLambdaParams ps

theorem withThis (h : Same sc sc') (type : Option TypeRef) :
    Same (sc.withThis type) (sc'.withThis type) where
  lookup? := h.lookup?
  thisType := rfl

theorem afterStmt (h : Same sc sc') (s : Stmt) : Same (sc.afterStmt s) (sc'.afterStmt s) := by
  cases s with
  | val v => exact h.declare v.name v.decl
  | function | expr | assign | ret => exact h

end Alike

end Scope

/-! ## Facts in scopes -/

/-- The walk over the expression finds the same in scopes in which the same is in sight. -/
def Expr.Scoped (e : Expr) : Prop := ∀ {sc sc'}, Scope.Same sc sc' → e.facts sc = e.facts sc'

namespace Scope.Alike

variable {sc sc' : Scope}

theorem exprs (h : Same sc sc') : ∀ {l : List Expr}, (∀ e ∈ l, e.Scoped) →
    Expr.factsOf sc l = Expr.factsOf sc' l
  | [], _ => by rw [Expr.factsOf, Expr.factsOf]
  | e :: l, hl => by
    rw [Expr.factsOf, Expr.factsOf, hl e List.mem_cons_self h,
      h.exprs fun x hx => hl x (List.mem_cons_of_mem e hx)]

theorem expr? (h : Same sc sc') {o : Option Expr} (ho : ∀ e ∈ o.toList, e.Scoped) :
    Expr.factsOf? sc o = Expr.factsOf? sc' o := by
  cases o with
  | none => rw [Expr.factsOf?, Expr.factsOf?]
  | some e => exact ho e (List.mem_singleton_self e) h

theorem typed (h : Same sc sc') (type : Option TypeRef) {o : Option Expr}
    (ho : ∀ e ∈ o.toList, e.Scoped) : Expr.factsTyped sc type o = Expr.factsTyped sc' type o := by
  cases o with
  | none => rw [Expr.factsTyped, Expr.factsTyped]
  | some e => rw [Expr.factsTyped, Expr.factsTyped, ho e (List.mem_singleton_self e) h]

theorem arguments (h : Same sc sc') (call : ExprId) : ∀ {l : List Argument},
    (∀ a ∈ l, a.value.Scoped) → Argument.facts sc call l = Argument.facts sc' call l
  | [], _ => by rw [Argument.facts, Argument.facts]
  | ⟨n, e⟩ :: l, hl => by
    rw [Argument.facts, Argument.facts, hl _ List.mem_cons_self h,
      h.arguments call fun a ha => hl a (List.mem_cons_of_mem _ ha)]

theorem branches (h : Same sc sc') : ∀ {l : List WhenBranch},
    (∀ e ∈ l.flatMap WhenBranch.exprs, e.Scoped) → WhenBranch.facts sc l = WhenBranch.facts sc' l
  | [], _ => by rw [WhenBranch.facts, WhenBranch.facts]
  | ⟨conditions, isElse, body⟩ :: l, hl => by
    rw [List.flatMap_cons, List.forall_mem_append, WhenBranch.exprs, List.forall_mem_append] at hl
    rw [WhenBranch.facts, WhenBranch.facts, h.exprs hl.1.1, hl.1.2 body (List.mem_singleton_self _) h,
      h.branches hl.2]

theorem params : ∀ {l : List Param} {sc sc' : Scope}, Same sc sc' →
    (∀ e ∈ Param.defaults l, e.Scoped) → Param.facts sc l = Param.facts sc' l
  | [], _, _, _, _ => by rw [Param.facts, Param.facts]
  | ⟨decl, name, type, default, span⟩ :: l, sc, sc', h, hl => by
    have hparts : (∀ e ∈ default.toList, e.Scoped) ∧ ∀ e ∈ Param.defaults l, e.Scoped := by
      cases default with
      | none => exact ⟨fun e he => absurd he List.not_mem_nil, hl⟩
      | some d =>
        have hl : ∀ e ∈ [d] ++ Param.defaults l, e.Scoped := hl
        exact List.forall_mem_append.1 hl
    rw [Param.facts, Param.facts, h.typed type hparts.1, params (h.declare name decl) hparts.2]

theorem assigned (h : Same sc sc') (target : Expr) :
    assignedFacts sc target = assignedFacts sc' target := by
  unfold assignedFacts
  cases target.kind with
  | name n => simp only [h.lookup? n id]
  | _ => rfl


mutual

theorem block : ∀ {b : Block} {sc sc' : Scope}, Same sc sc' → (∀ e ∈ b.exprs, e.Scoped) →
    b.facts sc = b.facts sc'
  | ⟨_, _⟩, _, _, h, hb => statements h hb

theorem statements : ∀ {ss : List Stmt} {sc sc' : Scope}, Same sc sc' →
    (∀ e ∈ Stmt.exprsOf ss, e.Scoped) → Stmt.facts sc ss = Stmt.facts sc' ss
  | [], _, _, _, _ => by rw [Stmt.facts, Stmt.facts]
  | s :: ss, _, _, h, hs => by
    rw [Stmt.exprsOf, List.forall_mem_append] at hs
    rw [Stmt.facts, Stmt.facts, statement h hs.1, statements (h.afterStmt s) hs.2]

theorem statement : ∀ {s : Stmt} {sc sc' : Scope}, Same sc sc' → (∀ e ∈ s.exprs, e.Scoped) →
    Stmt.factsOne sc s = Stmt.factsOne sc' s
  | .val v, _, _, h, hs => by rw [Stmt.factsOne, Stmt.factsOne, valDecl h hs]
  | .function f, _, _, h, hs => by rw [Stmt.factsOne, Stmt.factsOne, funDecl h _ hs]
  | .expr e, _, _, h, hs => hs e (List.mem_singleton_self e) h
  | .assign target value _, _, _, h, hs => by
    rw [Stmt.factsOne, Stmt.factsOne, hs target List.mem_cons_self h,
      hs value (List.mem_cons_of_mem _ (List.mem_singleton_self value)) h, h.assigned target]
  | .ret value _, _, _, h, hs => h.expr? hs

theorem body : ∀ {b : Body} {sc sc' : Scope}, Same sc sc' → ∀ type : Option TypeRef,
    (∀ e ∈ b.exprs, e.Scoped) → b.facts sc type = b.facts sc' type
  | .absent, _, _, _, _, _ => by rw [Body.facts, Body.facts]
  | .expr e, _, _, h, type, hb => by
    rw [Body.facts, Body.facts, hb e (List.mem_singleton_self e) h]
  | .block b, _, _, h, _, hb => block (b := b) h hb

theorem valDecl : ∀ {v : ValDecl} {sc sc' : Scope}, Same sc sc' → (∀ e ∈ v.exprs, e.Scoped) →
    v.facts sc = v.facts sc'
  | ⟨_, _, _, _, _, type, init, getter, _⟩, _, _, h, hv => by
    rw [ValDecl.exprs, List.forall_mem_append] at hv
    rw [ValDecl.facts, ValDecl.facts, h.typed type hv.1, body h type hv.2]

theorem funDecl : ∀ {f : FunDecl} {sc sc' : Scope}, Same sc sc' → ∀ thisType : Option TypeRef,
    (∀ e ∈ f.exprs, e.Scoped) → f.facts sc thisType = f.facts sc' thisType
  | ⟨_, _, _, ps, returnType, b, _, _⟩, _, _, h, thisType, hf => by
    rw [FunDecl.exprs, List.forall_mem_append] at hf
    have hthis := h.withThis thisType
    rw [FunDecl.facts, FunDecl.facts, params hthis hf.1,
      body (hthis.declareParams ps) returnType hf.2]

end

end Scope.Alike

/-- The walk over an expression depends on what is in sight alone. -/
theorem Expr.scoped (e : Expr) : e.Scoped := by
  induction e using Expr.childrenInduction with
  | step e ih =>
  obtain ⟨id, span, kind⟩ := e
  intro sc sc' h
  rw [Expr.facts, Expr.facts]
  refine congrArg (_ :: ·) ?_
  have hchild {c : Expr} (hc : c ∈ children ⟨id, span, kind⟩) : c.facts sc = c.facts sc' := ih c hc h
  cases kind with
  | literal => rw [ExprKind.facts, ExprKind.facts]
  | name n => rw [ExprKind.facts, ExprKind.facts, h.lookup? n not_false]
  | this => rw [ExprKind.facts, ExprKind.facts, h.thisType]
  | member receiver => exact hchild (by simp [children])
  | call callee typeArgs args =>
    rw [ExprKind.facts, ExprKind.facts, hchild (c := callee) (by simp [children]),
      h.arguments id fun a ha => ih _ (by simpa [children] using .inr ⟨a, ha, rfl⟩)]
  | index receiver indices =>
    rw [ExprKind.facts, ExprKind.facts, hchild (c := receiver) (by simp [children]),
      h.exprs fun e he => ih e (by simp [children, he])]
  | binary op left right =>
    rw [ExprKind.facts, ExprKind.facts, hchild (c := left) (by simp [children]),
      hchild (c := right) (by simp [children])]
  | unary op operand => exact hchild (by simp [children])
  | notNull inner => exact hchild (by simp [children])
  | cast operand => exact hchild (by simp [children])
  | ifElse condition thenBranch elseBranch =>
    rw [ExprKind.facts, ExprKind.facts, hchild (c := condition) (by simp [children]),
      hchild (c := thenBranch) (by simp [children]),
      h.expr? fun e he => ih e (by simp [children, Option.mem_toList.1 he])]
  | whenOf subject bs =>
    rw [ExprKind.facts, ExprKind.facts,
      h.expr? fun e he => ih e (by simp [children, Option.mem_toList.1 he]),
      h.branches fun e he => ih e (List.mem_append_right _ he)]
  | template parts => exact h.exprs fun e he => ih e he
  | block body => exact h.block fun e he => ih e he
  | lambda ps it body =>
    rw [ExprKind.facts, ExprKind.facts, (h.ofLambda ps it).block fun e he => ih e he]

/-- Behind a declaration nothing that is found depends on what its name was before. -/
theorem Stmt.facts_declare {name : String} {sc sc' : Scope} (h : Scope.Alike (· = name) sc sc')
    (d : DeclId) (ss : List Stmt) :
    Stmt.facts (sc.declare name d) ss = Stmt.facts (sc'.declare name d) ss :=
  (h.shadow d).statements fun e _ => e.scoped

end FrameCheck
