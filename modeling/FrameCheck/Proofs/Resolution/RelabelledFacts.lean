import FrameCheck.Proofs.Resolution.Walked
import FrameCheck.Proofs.Tree.Relabel

/-!
# Facts under other names

A name refers to what its scope looks up, so other names leave the facts of a unit as they are if
each name is looked up alike with the new names in the scope where it stands (`Relabel.Keeps`). The
walk is followed construct by construct; the scope of each is an extension of the scope around it by
names that the facts before it declare (`Scope.DeclaredBy`).

* `Relabel.Keeps.left`, `Relabel.Keeps.rest` : what holds of a walk holds of its parts.
* `Expr.relabels`, `SourceUnit.facts_relabel` : the facts of trees with other names.
-/

namespace FrameCheck

/-- A parameter of a lambda is declared. -/
theorem LambdaParam.exists_declaration (lambda : ExprId) : ∀ {ps : List LambdaParam}
    (index : Nat) {p : LambdaParam}, p ∈ ps →
      ∃ d ∈ LambdaParam.declarations lambda index ps, (d.name, d.id) = (p.name, p.decl)
  | q :: ps, index, p, hp => by
    rcases List.mem_cons.1 hp with rfl | hp
    · exact ⟨_, List.mem_cons_self, rfl⟩
    · obtain ⟨d, hd, hdp⟩ := exists_declaration lambda (index + 1) hp
      exact ⟨d, List.mem_cons_of_mem _ hd, hdp⟩

/-! ## Scopes -/

namespace Scope

def relabel (g : Relabel) (sc : Scope) : Scope :=
  { sc with names := sc.names.map fun n => (g.declared n.2 n.1, n.2) }

section

variable (g : Relabel)

theorem declare_relabel (sc : Scope) (name : String) (d : DeclId) :
    (sc.relabel g).declare (g.declared d name) d = (sc.declare name d).relabel g := rfl

theorem withThis_relabel (sc : Scope) (type : Option TypeRef) :
    (sc.relabel g).withThis type = (sc.withThis type).relabel g := rfl

theorem declareParams_relabel : ∀ (ps : List Param) (sc : Scope),
    (sc.relabel g).declareParams (ps.map (Param.relabel g)) = (sc.declareParams ps).relabel g
  | [], _ => rfl
  | p :: ps, sc => by
    have h := declareParams_relabel ps (sc.declare p.name p.decl)
    rw [← declare_relabel] at h
    simpa [declareParams] using h

theorem declareLambdaParams_relabel : ∀ (ps : List LambdaParam) (sc : Scope),
    (sc.relabel g).declareLambdaParams (ps.map (LambdaParam.relabel g))
      = (sc.declareLambdaParams ps).relabel g
  | [], _ => rfl
  | p :: ps, sc => declareLambdaParams_relabel ps (sc.declare p.name p.decl)

theorem ofLambda_relabel {ps : List LambdaParam} {it : DeclId}
    (h : ps = [] → g.declared it "it" = "it") (sc : Scope) :
    (sc.relabel g).ofLambda (ps.map (LambdaParam.relabel g)) it
      = (sc.ofLambda ps it).relabel g := by
  cases ps with
  | nil =>
    have hit := declare_relabel g sc "it" it
    rwa [h rfl] at hit
  | cons p ps => exact declareLambdaParams_relabel g (p :: ps) sc

theorem afterStmt_relabel (sc : Scope) (s : Stmt) :
    (sc.relabel g).afterStmt (s.relabel g) = (sc.afterStmt s).relabel g := by
  cases s with
  | val v =>
    simp only [Stmt.relabel, afterStmt, ValDecl.name_relabel, ValDecl.decl_relabel]
    exact declare_relabel g sc v.name v.decl
  | function | expr | assign | ret => rfl

end

/-- The names that the function puts before those of a scope are declared by the facts. -/
def DeclaredBy (t : Scope → Scope) (fs : Scope → List Fact) : Prop :=
  ∀ sc, ∀ n ∈ (t sc).names, n ∈ sc.names ∨ ∃ d, Fact.declares d ∈ fs sc ∧ (d.name, d.id) = n

namespace DeclaredBy

variable {t t' : Scope → Scope} {f f' : Scope → List Fact}

theorem of_names (h : ∀ sc, (t sc).names = sc.names) : DeclaredBy t f := fun sc _ hn =>
  Or.inl (h sc ▸ hn)

theorem mono (h : DeclaredBy t f) (hsub : ∀ sc, f sc ⊆ f' sc) : DeclaredBy t f' := fun sc n hn =>
  (h sc n hn).imp_right fun ⟨d, hd, hn⟩ => ⟨d, hsub sc hd, hn⟩

theorem comp (h : DeclaredBy t f) (h' : DeclaredBy t' f') :
    DeclaredBy (fun sc => t' (t sc)) fun sc => f sc ++ f' (t sc) := fun sc n hn => by
  rcases h' (t sc) n hn with hn | ⟨d, hd, hn⟩
  · exact (h sc n hn).imp_right fun ⟨d, hd, hn⟩ => ⟨d, List.mem_append_left _ hd, hn⟩
  · exact Or.inr ⟨d, List.mem_append_right _ hd, hn⟩

theorem declare {d : Declaration} (h : ∀ sc, Fact.declares d ∈ f sc) :
    DeclaredBy (fun sc => sc.declare d.name d.id) f := fun sc n hn => by
  rcases List.mem_cons.1 hn with rfl | hn
  · exact Or.inr ⟨d, h sc, rfl⟩
  · exact Or.inl hn

theorem withThis (type : Option TypeRef) : DeclaredBy (fun sc => sc.withThis type) f :=
  of_names fun _ => rfl

theorem declareParams (ps : List Param) :
    DeclaredBy (fun sc => sc.declareParams ps) fun sc => Param.facts sc ps := fun sc n hn => by
  rw [names_declareParams, List.mem_append, List.mem_reverse, List.mem_map] at hn
  rcases hn with ⟨p, hp, rfl⟩ | hn
  · have hcovers := Covers.params .param (by simp) (fun _ => rfl) ps
    exact Or.inr ⟨p.declaration,
      hcovers.declarations (.param p) (List.mem_map_of_mem hp) _ rfl sc, rfl⟩
  · exact Or.inl hn

theorem ofLambda (lambda : ExprId) (ps : List LambdaParam) (it : DeclId) :
    DeclaredBy (fun sc => sc.ofLambda ps it) fun _ =>
      (LambdaParam.allDeclarations lambda ps it).map Fact.declares := by
  cases ps with
  | nil => exact declare (d := ⟨it, "it", none, none, false, .lambdaParam lambda 0⟩) (by
      simp [LambdaParam.allDeclarations])
  | cons p ps =>
    intro sc n (hn : n ∈ (sc.declareLambdaParams (p :: ps)).names)
    rw [names_declareLambdaParams, List.mem_append, List.mem_reverse, List.mem_map] at hn
    rcases hn with ⟨q, hq, rfl⟩ | hn
    · obtain ⟨d, hd, hq⟩ := LambdaParam.exists_declaration lambda 0 hq
      exact Or.inr ⟨d, List.mem_map_of_mem hd, hq⟩
    · exact Or.inl hn

theorem afterStmt (s : Stmt) :
    DeclaredBy (fun sc => sc.afterStmt s) fun sc => Stmt.factsOne sc s := by
  cases s with
  | val v =>
    exact declare (d := v.declaration .localVal) fun sc =>
      List.mem_append_right _ (List.mem_singleton_self _)
  | function | expr | assign | ret => exact of_names fun _ => rfl

end DeclaredBy

end Scope

theorem ClassDecl.declaredBy_scope (c : ClassDecl) : Scope.DeclaredBy (fun sc => c.scope sc) fun _ =>
    c.properties.map fun p => .declares p.declaration := by
  have hfold : ∀ ps : List PropertyDecl, Scope.DeclaredBy (fun sc =>
      ps.foldl (fun sc p => sc.declare p.name p.decl) sc) fun _ =>
        ps.map fun p => .declares p.declaration := by
    intro ps
    induction ps with
    | nil => exact .of_names fun _ => rfl
    | cons p ps ih =>
      have hp : Scope.DeclaredBy (fun sc => sc.declare p.name p.decl) fun _ =>
          [.declares p.declaration] :=
        .declare (d := p.declaration) fun _ => List.mem_singleton_self _
      exact hp.comp ih
  exact (Scope.DeclaredBy.withThis (f := fun _ => []) c.thisType).comp (hfold c.properties)

/-! ## Names that are looked up alike -/

/-- Each name that is walked over, in the extension of the scope where that happens, is looked up
alike with the new names. -/
def Relabel.Keeps (g : Relabel) (fs : Scope → List Fact) (sc : Scope) : Prop :=
  ∀ (x : Expr) (n : String) (t : Scope → Scope), x.kind = .name n → x.WalkedIn fs t →
    Scope.DeclaredBy t fs → ((t sc).relabel g).lookup? (g.name x.id n) = (t sc).lookup? n

namespace Relabel.Keeps

variable {g : Relabel} {f f' : Scope → List Fact} {sc : Scope}

/-- Other spans alone keep all names. -/
theorem spans (h : Span → Span) : (Relabel.spans h).Keeps f sc := fun x n t _ _ _ => by
  rw [show (t sc).relabel (.spans h) = t sc from congrArg (fun l => (⟨l, (t sc).thisType⟩ : Scope))
    (List.map_id _)]
  rfl

theorem mono (h : g.Keeps f' sc) (hsub : ∀ sc, f sc ⊆ f' sc) : g.Keeps f sc :=
  fun x n t hk hwalk hdeclared => h x n t hk (hwalk.mono hsub) (hdeclared.mono hsub)

theorem left (h : g.Keeps (fun sc => f sc ++ f' sc) sc) : g.Keeps f sc :=
  h.mono fun _ => List.subset_append_left _ _

theorem right (h : g.Keeps (fun sc => f sc ++ f' sc) sc) : g.Keeps f' sc :=
  h.mono fun _ => List.subset_append_right _ _

theorem tail {x : Scope → Fact} (h : g.Keeps (fun sc => x sc :: f sc) sc) : g.Keeps f sc :=
  h.mono fun _ => List.subset_cons_self _ _

theorem of_mem {α : Type} {f : α → Scope → List Fact} {l : List α}
    (h : g.Keeps (fun sc => l.flatMap fun a => f a sc) sc) {a : α} (ha : a ∈ l) :
    g.Keeps (f a) sc :=
  h.mono fun _ _ hx => List.mem_flatMap.2 ⟨a, ha, hx⟩

/-- What is walked over in an extension of the scope by what was declared before. -/
theorem rest {t : Scope → Scope} (ht : Scope.Extends t) (hdeclared : Scope.DeclaredBy t f)
    (h : g.Keeps (fun sc => f sc ++ f' (t sc)) sc) : g.Keeps f' (t sc) :=
  fun x n t' hk hwalk hdeclared' => h x n (fun sc => t' (t sc)) hk
    ((hwalk.under ht).mono fun _ => List.subset_append_right _ _) (hdeclared.comp hdeclared')

theorem under {t : Scope → Scope} (ht : Scope.Extends t)
    (hnames : ∀ sc, (t sc).names = sc.names) (h : g.Keeps (fun sc => f (t sc)) sc) :
    g.Keeps f (t sc) :=
  rest (f := fun _ => []) ht (.of_names hnames) h

/-- A name that is walked over at once. -/
theorem lookup? {x : Expr} {n : String} (h : g.Keeps (fun sc => x.facts sc) sc)
    (hk : x.kind = .name n) : (sc.relabel g).lookup? (g.name x.id n) = sc.lookup? n :=
  h x n (fun sc => sc) hk (.self x) (.of_names fun _ => rfl)

end Relabel.Keeps

/-! ## Facts -/

def Declaration.relabel (g : Relabel) (d : Declaration) : Declaration :=
  { d with name := g.declared d.id d.name }

def Fact.relabel (g : Relabel) : Fact → Fact
  | .expr e => .expr (e.relabel g)
  | .declares d => .declares (d.relabel g)
  | .function f => .function (f.relabel g)
  | fact => fact

section

variable (g : Relabel)

@[simp] theorem Declaration.kind_relabel (d : Declaration) : (d.relabel g).kind = d.kind := rfl

@[simp] theorem Declaration.init_relabel (d : Declaration) : (d.relabel g).init = d.init := rfl

theorem Param.declaration_relabel (p : Param) :
    (p.relabel g).declaration = p.declaration.relabel g := by
  rcases p with ⟨decl, name, type, default, span⟩
  simp [Param.relabel, declaration, Declaration.relabel]

theorem ValDecl.declaration_relabel (v : ValDecl) (kind : DeclarationKind) :
    (v.relabel g).declaration kind = (v.declaration kind).relabel g := by
  rcases v with ⟨decl, mutable, receiver, name, nameSpan, type, init, getter, span⟩
  simp [ValDecl.relabel, declaration, Declaration.relabel, Function.comp_def]

theorem PropertyDecl.declaration_relabel {p : PropertyDecl}
    (h : g.declared p.decl p.name = p.name) :
    (p.relabel g).declaration = p.declaration.relabel g := by
  simp [PropertyDecl.relabel, declaration, Declaration.relabel, Function.comp_def, h]

theorem LambdaParam.declarations_relabel (lambda : ExprId) : ∀ (index : Nat) (ps : List LambdaParam),
    LambdaParam.declarations lambda index (ps.map (LambdaParam.relabel g))
      = (LambdaParam.declarations lambda index ps).map (Declaration.relabel g)
  | _, [] => rfl
  | index, p :: ps => by
    rw [List.map_cons, declarations, declarations, List.map_cons, declarations_relabel]
    rfl

theorem LambdaParam.allDeclarations_relabel (lambda : ExprId) {ps : List LambdaParam} {it : DeclId}
    (h : ps = [] → g.declared it "it" = "it") :
    LambdaParam.allDeclarations lambda (ps.map (LambdaParam.relabel g)) it
      = (LambdaParam.allDeclarations lambda ps it).map (Declaration.relabel g) := by
  cases ps with
  | nil => simp [allDeclarations, Declaration.relabel, h rfl]
  | cons p ps => exact declarations_relabel g lambda 0 (p :: ps)

theorem expectedFacts_relabel (type : Option TypeRef) (id : ExprId) :
    (expectedFacts type id).map (Fact.relabel g) = expectedFacts type id := by
  cases type <;> rfl

theorem passedFacts_relabel (call : ExprId) (e : Expr) :
    passedFacts call (e.relabel g) = (passedFacts call e).map (Fact.relabel g) := by
  unfold passedFacts
  rw [Expr.kind_relabel]
  cases e.kind with
  | lambda params implicitIt body =>
    simp only [ExprKind.relabel, Block.columnFroms?_relabel]
    cases body.columnFroms? <;> simp [Fact.relabel, Function.comp_def, List.filter_map]
  | call callee typeArgs args =>
    rw [ExprKind.relabel_call]
    rfl
  | _ => simp [ExprKind.relabel]

end

/-- In any scope where names are looked up alike, the facts of the expression with other names are
its facts with other names. -/
def Expr.Relabels (g : Relabel) (e : Expr) : Prop := ∀ sc, g.Keeps (fun sc => e.facts sc) sc →
  (e.relabel g).facts (sc.relabel g) = (e.facts sc).map (Fact.relabel g)

namespace Relabel.Keeps

variable {g : Relabel} {sc : Scope}

theorem assigned {target : Expr} (h : g.Keeps (fun sc => target.facts sc) sc) :
    assignedFacts (sc.relabel g) (target.relabel g)
      = (assignedFacts sc target).map (Fact.relabel g) := by
  unfold assignedFacts
  rw [Expr.kind_relabel]
  cases hk : target.kind with
  | name n =>
    simp only [ExprKind.relabel, h.lookup? hk]
    cases sc.lookup? n <;> rfl
  | call callee typeArgs args =>
    rw [ExprKind.relabel_call]
    rfl
  | _ => simp [ExprKind.relabel]

/-! ### Lists of expressions -/

theorem exprs : ∀ {l : List Expr}, (∀ e ∈ l, e.Relabels g) →
    g.Keeps (fun sc => Expr.factsOf sc l) sc →
      Expr.factsOf (sc.relabel g) (l.map (Expr.relabel g))
        = (Expr.factsOf sc l).map (Fact.relabel g)
  | [], _, _ => rfl
  | e :: l, hl, h => by
    rw [List.forall_mem_cons] at hl
    rw [List.map_cons, Expr.factsOf, Expr.factsOf, List.map_append, hl.1 sc h.left,
      exprs hl.2 h.right]

theorem expr? : ∀ {o : Option Expr}, (∀ e ∈ o.toList, e.Relabels g) →
    g.Keeps (fun sc => Expr.factsOf? sc o) sc →
      Expr.factsOf? (sc.relabel g) (o.map (Expr.relabel g))
        = (Expr.factsOf? sc o).map (Fact.relabel g)
  | none, _, _ => rfl
  | some e, ho, h => ho e (List.mem_singleton_self e) sc h

theorem typed (type : Option TypeRef) : ∀ {o : Option Expr}, (∀ e ∈ o.toList, e.Relabels g) →
    g.Keeps (fun sc => Expr.factsTyped sc type o) sc →
      Expr.factsTyped (sc.relabel g) type (o.map (Expr.relabel g))
        = (Expr.factsTyped sc type o).map (Fact.relabel g)
  | none, _, _ => rfl
  | some e, ho, h => by
    rw [Option.map_some, Expr.factsTyped, Expr.factsTyped, Expr.id_relabel, List.map_append,
      expectedFacts_relabel, ho e (List.mem_singleton_self e) sc h.right]

theorem arguments (call : ExprId) : ∀ {l : List Argument},
    (∀ e ∈ l.map Argument.value, e.Relabels g) → g.Keeps (fun sc => Argument.facts sc call l) sc →
      Argument.facts (sc.relabel g) call (l.map (Argument.relabel g))
        = (Argument.facts sc call l).map (Fact.relabel g)
  | [], _, _ => rfl
  | ⟨name, e⟩ :: l, hl, h => by
    rw [List.map_cons, List.forall_mem_cons] at hl
    rw [List.map_cons, Argument.relabel, Argument.facts, Argument.facts, List.map_append,
      List.map_append, passedFacts_relabel, hl.1 sc h.left.right, arguments call hl.2 h.right]

theorem branches : ∀ {l : List WhenBranch}, (∀ e ∈ l.flatMap WhenBranch.exprs, e.Relabels g) →
    g.Keeps (fun sc => WhenBranch.facts sc l) sc →
      WhenBranch.facts (sc.relabel g) (l.map (WhenBranch.relabel g))
        = (WhenBranch.facts sc l).map (Fact.relabel g)
  | [], _, _ => rfl
  | ⟨conditions, isElse, body⟩ :: l, hl, h => by
    rw [List.flatMap_cons, List.forall_mem_append, WhenBranch.exprs, List.forall_mem_append] at hl
    have hbody := hl.1.2 body (List.mem_singleton_self body) sc h.left.right
    rw [List.map_cons, WhenBranch.relabel, WhenBranch.facts, WhenBranch.facts, List.map_append,
      List.map_append, Expr.relabelAll_eq_map, exprs hl.1.1 h.left.left, hbody,
      branches hl.2 h.right]

theorem params : ∀ {l : List Param} {sc : Scope}, (∀ e ∈ Param.defaults l, e.Relabels g) →
    g.Keeps (fun sc => Param.facts sc l) sc →
      Param.facts (sc.relabel g) (l.map (Param.relabel g))
        = (Param.facts sc l).map (Fact.relabel g)
  | [], _, _, _ => rfl
  | ⟨decl, name, type, default, span⟩ :: l, sc, hl, h => by
    rw [Param.defaults_cons, List.forall_mem_append] at hl
    have hdeclared : Scope.DeclaredBy (fun sc => sc.declare name decl) fun _ =>
        [.declares (Param.declaration ⟨decl, name, type, default, span⟩)] :=
      .declare (d := Param.declaration ⟨decl, name, type, default, span⟩) fun _ =>
        List.mem_singleton_self _
    have hrest := params hl.2 (rest (Scope.extends_declare name decl) hdeclared h.right)
    rw [← Scope.declare_relabel] at hrest
    rw [List.map_cons, Param.relabel, Param.facts, Param.facts, List.map_append, List.map_cons,
      Expr.relabel?_eq_map, typed type hl.1 h.left, hrest]
    have hd := Param.declaration_relabel g ⟨decl, name, type, default, span⟩
    rw [Param.relabel, Expr.relabel?_eq_map] at hd
    rw [hd]
    rfl

/-! ### Statements -/

mutual

theorem block : ∀ {b : Block} {sc : Scope}, (∀ e ∈ b.exprs, e.Relabels g) →
    g.Keeps (fun sc => b.facts sc) sc →
      (b.relabel g).facts (sc.relabel g) = (b.facts sc).map (Fact.relabel g)
  | ⟨l, _⟩, _, hb, h => by
    have hl := statements hb h
    rw [Block.relabel, Stmt.relabelAll_eq_map]
    exact hl

theorem statements : ∀ {l : List Stmt} {sc : Scope}, (∀ e ∈ Stmt.exprsOf l, e.Relabels g) →
    g.Keeps (fun sc => Stmt.facts sc l) sc →
      Stmt.facts (sc.relabel g) (l.map (Stmt.relabel g)) = (Stmt.facts sc l).map (Fact.relabel g)
  | [], _, _, _ => rfl
  | s :: l, sc, hl, h => by
    rw [Stmt.exprsOf, List.forall_mem_append] at hl
    have hrest := statements hl.2
      (rest (Scope.extends_afterStmt s) (Scope.DeclaredBy.afterStmt s) h)
    rw [← Scope.afterStmt_relabel] at hrest
    rw [List.map_cons, Stmt.facts, Stmt.facts, List.map_append, statement hl.1 h.left, hrest]

theorem statement : ∀ {s : Stmt} {sc : Scope}, (∀ e ∈ s.exprs, e.Relabels g) →
    g.Keeps (fun sc => Stmt.factsOne sc s) sc →
      Stmt.factsOne (sc.relabel g) (s.relabel g) = (Stmt.factsOne sc s).map (Fact.relabel g)
  | .val v, sc, hs, h => by
    rw [Stmt.relabel, Stmt.factsOne, Stmt.factsOne, List.map_append, valDecl hs h.left,
      ValDecl.declaration_relabel]
    rfl
  | .function f, sc, hs, h => by
    rw [Stmt.relabel, Stmt.factsOne, Stmt.factsOne, List.map_cons, FunDecl.receiver_relabel,
      funDecl f.receiver hs (tail (x := fun _ => .function f) h)]
    rfl
  | .expr e, sc, hs, h => by
    rw [Stmt.relabel]
    exact hs e (List.mem_singleton_self e) sc h
  | .assign target value _, sc, hs, h => by
    have htarget := hs target (by simp [Stmt.exprs]) sc h.left.left
    have hvalue := hs value (by simp [Stmt.exprs]) sc h.left.right
    rw [Stmt.relabel, Stmt.factsOne, Stmt.factsOne, List.map_append, List.map_append, htarget,
      hvalue, assigned h.left.left]
  | .ret value _, sc, hs, h => by
    rw [Stmt.relabel, Expr.relabel?_eq_map]
    exact expr? hs h

theorem body (type : Option TypeRef) : ∀ {b : Body} {sc : Scope}, (∀ e ∈ b.exprs, e.Relabels g) →
    g.Keeps (fun sc => b.facts sc type) sc →
      (b.relabel g).facts (sc.relabel g) type = (b.facts sc type).map (Fact.relabel g)
  | .absent, _, _, _ => rfl
  | .expr e, sc, hb, h => by
    rw [Body.relabel, Body.facts, Body.facts, Expr.id_relabel, List.map_append,
      expectedFacts_relabel, hb e (List.mem_singleton_self e) sc h.right]
  | .block b, _, hb, h => by
    rw [Body.relabel]
    exact block (b := b) hb h

theorem valDecl : ∀ {v : ValDecl} {sc : Scope}, (∀ e ∈ v.exprs, e.Relabels g) →
    g.Keeps (fun sc => v.facts sc) sc →
      (v.relabel g).facts (sc.relabel g) = (v.facts sc).map (Fact.relabel g)
  | ⟨_, _, _, _, _, type, _, _, _⟩, sc, hv, h => by
    rw [ValDecl.exprs, List.forall_mem_append] at hv
    rw [ValDecl.relabel, ValDecl.facts, ValDecl.facts, List.map_append, Expr.relabel?_eq_map,
      typed type hv.1 h.left, body type hv.2 h.right]

theorem funDecl (thisType : Option TypeRef) : ∀ {d : FunDecl} {sc : Scope},
    (∀ e ∈ d.exprs, e.Relabels g) → g.Keeps (fun sc => d.facts sc thisType) sc →
      (d.relabel g).facts (sc.relabel g) thisType
        = (d.facts sc thisType).map (Fact.relabel g)
  | ⟨_, _, _, ps, returnType, b, _, _⟩, sc, hd, h => by
    rw [FunDecl.exprs, List.forall_mem_append] at hd
    have hinner : g.Keeps (fun sc => Param.facts sc ps ++ b.facts (sc.declareParams ps) returnType)
        (sc.withThis thisType) := under (Scope.extends_withThis thisType) (fun _ => rfl) h
    have hbody := body returnType hd.2
      (rest (Scope.extends_declareParams ps) (Scope.DeclaredBy.declareParams ps) hinner)
    rw [FunDecl.relabel, FunDecl.facts, FunDecl.facts, List.map_append, Param.relabelAll_eq_map,
      Scope.withThis_relabel, params hd.1 hinner.left, Scope.declareParams_relabel, hbody]

end

end Relabel.Keeps

/-! ## Expressions -/

/-- Of the expression and all inside of it, what a call starts with keeps its name, and an `it` is
named so. -/
structure Relabel.Spares (g : Relabel) (es : List Expr) : Prop where
  callees : ∀ x ∈ es, ∀ callee typeArgs args n, x.kind = .call callee typeArgs args →
    callee.kind = .name n → g.name callee.id n = n
  its : ∀ x ∈ es, ∀ it body, x.kind = .lambda [] it body → g.declared it "it" = "it"

theorem Relabel.Spares.mono {g : Relabel} {es es' : List Expr} (h : g.Spares es') (hsub : es ⊆ es') :
    g.Spares es :=
  ⟨fun x hx => h.callees x (hsub hx), fun x hx => h.its x (hsub hx)⟩

theorem Relabel.Spares.spans (f : Span → Span) (es : List Expr) : (Relabel.spans f).Spares es :=
  ⟨fun _ _ _ _ _ _ _ _ => rfl, fun _ _ _ _ _ => rfl⟩

theorem Expr.relabels {g : Relabel} (e : Expr) : g.Spares e.nodes → e.Relabels g := by
  induction e using Expr.childrenInduction with
  | step e ih =>
  intro hspares sc h
  have hchild : ∀ c ∈ e.children, c.Relabels g := fun c hc =>
    ih c hc (hspares.mono fun x hx => mem_nodes.2 (Or.inl (mem_parts.2 ⟨c, hc, hx⟩)))
  have hself := e.mem_nodes_self
  have hcallees := hspares.callees e hself
  have hits := hspares.its e hself
  obtain ⟨id, span, kind⟩ := e
  have hkind : g.Keeps (fun sc => kind.facts sc id) sc :=
    Relabel.Keeps.tail (x := fun _ => .expr ⟨id, span, kind⟩) h
  suffices hk : (kind.relabel g (g.name id)).facts (sc.relabel g) id
      = (kind.facts sc id).map (Fact.relabel g) by
    rw [Expr.relabel, Expr.facts, hk, Expr.facts, List.map_cons, Fact.relabel, Expr.relabel]
  cases kind with
  | literal => rfl
  | name n =>
    rw [ExprKind.relabel, ExprKind.facts, ExprKind.facts, h.lookup? rfl]
    cases sc.lookup? n <;> rfl
  | this =>
    rw [ExprKind.relabel, ExprKind.facts, ExprKind.facts,
      show (sc.relabel g).thisType = sc.thisType from rfl]
    cases sc.thisType <;> rfl
  | call callee typeArgs args =>
    have hargs := hkind.right.arguments id fun c hc => hchild c (List.mem_cons_of_mem _ hc)
    have hcallee : (if (callee.relabelCalled g).isName then [Fact.expr (callee.relabelCalled g)]
          else (callee.relabelCalled g).facts (sc.relabel g))
        = (if callee.isName then [.expr callee] else callee.facts sc).map (Fact.relabel g) := by
      rw [isName_relabelCalled]
      cases hn : callee.isName with
      | true =>
        obtain ⟨cid, cspan, ckind⟩ := callee
        cases ckind with
        | name n =>
          rw [relabelCalled_of_name g rfl, if_pos rfl, if_pos rfl, List.map_singleton,
            Fact.relabel, relabel_of_name g rfl, hcallees _ _ _ n rfl rfl]
        | _ => cases hn
      | false =>
        have hleft := hkind.left
        simp only [hn] at hleft
        rw [relabelCalled_of_not_isName g (by simp [hn]), if_neg Bool.false_ne_true,
          if_neg Bool.false_ne_true]
        exact hchild callee (by simp [children]) sc hleft
    rw [ExprKind.relabel_call, ExprKind.facts, ExprKind.facts, List.map_append, hcallee, hargs]
  | member receiver =>
    rw [ExprKind.relabel]
    exact hchild receiver (by simp [children]) sc hkind
  | index receiver indices =>
    rw [ExprKind.relabel, ExprKind.facts, ExprKind.facts, List.map_append, relabelAll_eq_map,
      hchild receiver (by simp [children]) sc hkind.left,
      hkind.right.exprs fun c hc => hchild c (by simp [children, hc])]
  | binary op left right =>
    rw [ExprKind.relabel, ExprKind.facts, ExprKind.facts, List.map_append,
      hchild left (by simp [children]) sc hkind.left,
      hchild right (by simp [children]) sc hkind.right]
  | unary op operand =>
    rw [ExprKind.relabel]
    exact hchild operand (by simp [children]) sc hkind
  | notNull inner =>
    rw [ExprKind.relabel]
    exact hchild inner (by simp [children]) sc hkind
  | cast operand =>
    rw [ExprKind.relabel]
    exact hchild operand (by simp [children]) sc hkind
  | ifElse condition thenBranch elseBranch =>
    rw [ExprKind.relabel, ExprKind.facts, ExprKind.facts, List.map_append, List.map_append,
      relabel?_eq_map, hchild condition (by simp [children]) sc hkind.left.left,
      hchild thenBranch (by simp [children]) sc hkind.left.right,
      hkind.right.expr? fun c hc => hchild c (by simp [children, Option.mem_toList.1 hc])]
  | whenOf subject branches =>
    rw [ExprKind.relabel, ExprKind.facts, ExprKind.facts, List.map_append, relabel?_eq_map,
      WhenBranch.relabelAll_eq_map,
      hkind.left.expr? fun c hc => hchild c (List.mem_append_left _ hc),
      hkind.right.branches fun c hc => hchild c (List.mem_append_right _ hc)]
  | template parts =>
    rw [ExprKind.relabel, relabelAll_eq_map]
    exact hkind.exprs hchild
  | block body =>
    rw [ExprKind.relabel]
    exact hkind.block hchild
  | lambda params it body =>
    have hit : params = [] → g.declared it "it" = "it" := by
      rintro rfl
      exact hits it body rfl
    have hbody := (Relabel.Keeps.rest (Scope.extends_ofLambda params it)
      (Scope.DeclaredBy.ofLambda id params it) hkind).block hchild
    rw [ExprKind.relabel, ExprKind.facts, ExprKind.facts, List.map_append,
      Scope.ofLambda_relabel g hit, hbody, LambdaParam.allDeclarations_relabel g id hit]
    simp only [List.map_map]
    rfl

/-! ## Units -/

/-- The new names suit the unit : its columns and functions keep theirs, and each name is looked up
alike. -/
structure SourceUnit.Suits (u : SourceUnit) (g : Relabel) : Prop where
  spares : g.Spares u.exprs
  properties : ∀ c, .classDecl c ∈ u.items → ∀ p ∈ c.properties, g.declared p.decl p.name = p.name
  keeps : g.Keeps (fun sc => u.items.flatMap Item.globalFacts ++ u.items.flatMap fun i => i.facts sc)
    u.scope

theorem SourceUnit.suits_spans (u : SourceUnit) (f : Span → Span) : u.Suits (.spans f) :=
  ⟨.spans f _, fun _ _ _ _ => rfl, .spans f⟩

theorem ClassDecl.scope_relabel {g : Relabel} {c : ClassDecl}
    (h : ∀ p ∈ c.properties, g.declared p.decl p.name = p.name) (sc : Scope) :
    (c.relabel g).scope (sc.relabel g) = (c.scope sc).relabel g := by
  have hfold : ∀ {ps : List PropertyDecl}, (∀ p ∈ ps, g.declared p.decl p.name = p.name) →
      ∀ sc : Scope, (ps.map (PropertyDecl.relabel g)).foldl (fun sc p => sc.declare p.name p.decl)
        (sc.relabel g) = (ps.foldl (fun sc p => sc.declare p.name p.decl) sc).relabel g := by
    intro ps
    induction ps with
    | nil => exact fun _ _ => rfl
    | cons p ps ih =>
      intro hps sc
      rw [List.forall_mem_cons] at hps
      have hp := Scope.declare_relabel g sc p.name p.decl
      rw [hps.1] at hp
      rw [List.map_cons, List.foldl_cons, List.foldl_cons, ← ih hps.2, ← hp]
      rfl
  exact hfold h (sc.withThis c.thisType)

namespace Relabel.Keeps

variable {g : Relabel} {sc : Scope}

theorem property {p : PropertyDecl} (hp : ∀ e ∈ p.exprs, e.Relabels g)
    (h : g.Keeps (fun sc => Expr.factsTyped sc p.type p.init ++ p.getter.facts sc p.type) sc) :
    Expr.factsTyped (sc.relabel g) (p.relabel g).type (p.relabel g).init
        ++ (p.relabel g).getter.facts (sc.relabel g) (p.relabel g).type
      = (Expr.factsTyped sc p.type p.init ++ p.getter.facts sc p.type).map (Fact.relabel g) := by
  rw [PropertyDecl.exprs, List.forall_mem_append] at hp
  rw [List.map_append, ← typed p.type hp.1 h.left, ← body p.type hp.2 h.right]
  rfl

theorem flatMap {α : Type} {f f' : α → List Fact} {l : List α}
    (h : ∀ a ∈ l, f' a = (f a).map (Fact.relabel g)) :
    l.flatMap f' = (l.flatMap f).map (Fact.relabel g) := by
  rw [List.map_flatMap]
  exact List.flatMap_congr h

theorem classDecl {c : ClassDecl} (hc : ∀ e ∈ (Item.classDecl c).roots, e.Relabels g)
    (hps : ∀ p ∈ c.properties, g.declared p.decl p.name = p.name)
    (h : g.Keeps (fun sc => c.facts sc) sc) :
    (c.relabel g).facts (sc.relabel g) = (c.facts sc).map (Fact.relabel g) := by
  simp only [Item.roots, List.forall_mem_append, List.forall_mem_flatMap] at hc
  obtain ⟨⟨hparams, hproperties⟩, hmethods⟩ := hc
  have hscope := c.extends_scope
  have hdeclared := c.declaredBy_scope
  have hkparams : g.Keeps (fun sc => Param.facts sc c.params) (c.scope sc) :=
    rest hscope hdeclared h.left.left
  have hkproperties : g.Keeps (fun sc => c.properties.flatMap fun p =>
      Expr.factsTyped sc p.type p.init ++ p.getter.facts sc p.type)
        ((c.scope sc).declareParams c.params) :=
    rest (hscope.comp (Scope.extends_declareParams c.params))
      (hdeclared.comp (Scope.DeclaredBy.declareParams c.params)) h.left
  have hkmethods : g.Keeps (fun sc => c.methods.flatMap fun m =>
      m.facts sc (m.receiver.or c.thisType)) (c.scope sc) := by
    refine rest hscope hdeclared (h.mono fun sc => ?_)
    exact List.append_subset.2 ⟨fun x hx => List.mem_append_left _ (List.mem_append_left _
      (List.mem_append_left _ hx)), List.subset_append_right _ _⟩
  unfold ClassDecl.facts
  rw [c.scope_relabel hps]
  simp only [List.map_append]
  congr 1
  · congr 1
    · congr 1
      · simp only [ClassDecl.relabel, List.map_map]
        refine List.map_congr_left fun p hp => ?_
        exact congrArg Fact.declares (p.declaration_relabel g (hps p hp))
      · exact params hparams hkparams
    · rw [show (c.relabel g).params = c.params.map (Param.relabel g) from rfl,
        Scope.declareParams_relabel, show (c.relabel g).properties
          = c.properties.map (PropertyDecl.relabel g) from rfl, List.flatMap_map]
      exact flatMap fun p hp => property (hproperties p hp) (hkproperties.of_mem hp)
  · rw [show (c.relabel g).methods = c.methods.map (FunDecl.relabel g) from rfl, List.flatMap_map]
    refine flatMap fun m hm => ?_
    rw [FunDecl.receiver_relabel]
    exact funDecl _ (hmethods m hm) (hkmethods.of_mem hm)

theorem item : ∀ {i : Item}, (∀ e ∈ i.roots, e.Relabels g) →
    (∀ c, i = .classDecl c → ∀ p ∈ c.properties, g.declared p.decl p.name = p.name) →
      g.Keeps (fun sc => i.facts sc) sc →
        (i.relabel g).facts (sc.relabel g) = (i.facts sc).map (Fact.relabel g)
  | .classDecl c, hi, hps, h => classDecl hi (hps c rfl) h
  | .function d, hi, _, h => by
    rw [Item.relabel, Item.facts, FunDecl.receiver_relabel]
    exact funDecl d.receiver hi h
  | .property v, hi, _, h => valDecl (v := v) hi h

end Relabel.Keeps

theorem Item.globalFacts_relabel (g : Relabel) (i : Item) :
    (i.relabel g).globalFacts = i.globalFacts.map (Fact.relabel g) := by
  cases i with
  | classDecl c =>
    simp [relabel, globalFacts, ClassDecl.relabel, List.filter_map, Function.comp_def, Fact.relabel]
  | function d => simp [relabel, globalFacts, Fact.relabel]
  | property v => simp [relabel, globalFacts, Fact.relabel, ValDecl.declaration_relabel]

namespace SourceUnit

variable {g : Relabel} {u : SourceUnit}

theorem scope_relabel (g : Relabel) (u : SourceUnit) : (u.relabel g).scope = u.scope.relabel g := by
  have hfold : ∀ (is : List Item) (sc : Scope), (is.map (Item.relabel g)).foldl Scope.withItem
      (sc.relabel g) = (is.foldl Scope.withItem sc).relabel g := by
    intro is
    induction is with
    | nil => exact fun _ => rfl
    | cons i is ih =>
      intro sc
      rw [List.map_cons, List.foldl_cons, List.foldl_cons, ← ih]
      cases i with
      | property v =>
        simp only [Item.relabel, Scope.withItem, ValDecl.name_relabel, ValDecl.decl_relabel,
          Scope.declare_relabel]
      | classDecl | function => rfl
  rw [scope_eq, scope_eq]
  exact hfold u.items Scope.empty

theorem facts_relabel (h : u.Suits g) : (u.relabel g).facts = u.facts.map (Fact.relabel g) := by
  have hroots : ∀ i ∈ u.items, ∀ e ∈ i.roots, e.Relabels g := fun i hi e he =>
    e.relabels (h.spares.mono fun x hx => by
      rw [exprs_eq_flatMap]
      exact List.mem_flatMap.2 ⟨e, List.mem_flatMap.2 ⟨i, hi, he⟩, hx⟩)
  have hitems : ∀ i ∈ u.items, (i.relabel g).facts (u.scope.relabel g)
      = (i.facts u.scope).map (Fact.relabel g) := fun i hi =>
    (h.keeps.right.of_mem hi).item (hroots i hi) fun c hc => h.properties c (hc ▸ hi)
  have hglobal : ∀ i ∈ u.items, (i.relabel g).globalFacts = i.globalFacts.map (Fact.relabel g) :=
    fun i _ => i.globalFacts_relabel g
  unfold facts
  rw [scope_relabel, List.map_append, show (u.relabel g).items = u.items.map (Item.relabel g) from rfl,
    List.flatMap_map, List.flatMap_map]
  exact congrArg₂ _ (Relabel.Keeps.flatMap hglobal) (Relabel.Keeps.flatMap hitems)

end SourceUnit

end FrameCheck
