import FrameCheck.Proofs.Resolution.Origins

/-!
# What a walk comes to

The walk over a unit walks over each expression in it, apart from the names that calls start with,
and it tells of all that declares. So a declaration is told of exactly if something in the unit
declares so, and a function exactly if it is declared in the unit.

* `Covers` : facts of what is walked over, and of what declares.
* `SourceUnit.facts_subset` : the facts of an expression are facts of the unit.
* `SourceUnit.declares_mem_facts`, `SourceUnit.function_mem_facts` : what is told of.
-/

namespace FrameCheck

/-! ## Leaves -/

/-- The name that an expression consists of. -/
def Expr.name? (e : Expr) : Option String :=
  match e.kind with
  | .name n => some n
  | _ => none

theorem Expr.kind_of_name? {e : Expr} {n : String} (h : e.name? = some n) : e.kind = .name n := by
  unfold name? at h
  split at h
  · cases h
    assumption
  · cases h

theorem Expr.occurrences_of_isName {e : Expr} (h : e.isName) : e.occurrences = [] := by
  obtain ⟨id, span, kind⟩ := e
  cases kind with
  | name => rfl
  | _ => cases h

theorem Expr.declarers_of_isName {e : Expr} (h : e.isName) : e.declarers = [] := by
  obtain ⟨id, span, kind⟩ := e
  cases kind with
  | name => rfl
  | _ => cases h

theorem LambdaParam.ne_function_of_mem_declarers {lambda : ExprId} {x : Declarer} :
    ∀ {ps : List LambdaParam} {index : Nat}, x ∈ LambdaParam.declarers lambda index ps →
      ∀ f, x ≠ .function f
  | p :: ps, index, hx, f => by
    rcases List.mem_cons.1 hx with rfl | hx
    · exact nofun
    · exact ne_function_of_mem_declarers hx f

theorem LambdaParam.mem_declarations {lambda : ExprId} {x : Declarer} {d : Declaration} :
    ∀ {ps : List LambdaParam} {index : Nat}, x ∈ LambdaParam.declarers lambda index ps →
      x.declaration? = some d → d ∈ LambdaParam.declarations lambda index ps
  | p :: ps, index, hx, hd => by
    rcases List.mem_cons.1 hx with rfl | hx
    · cases hd
      exact List.mem_cons_self
    · exact List.mem_cons_of_mem _ (mem_declarations hx hd)

theorem LambdaParam.mem_allDeclarations {lambda : ExprId} {ps : List LambdaParam} {it : DeclId}
    {x : Declarer} {d : Declaration}
    (hx : x ∈ LambdaParam.declarers lambda 0 ps ∨ x = .implicitIt lambda ps.isEmpty it)
    (hd : x.declaration? = some d) : d ∈ LambdaParam.allDeclarations lambda ps it := by
  unfold allDeclarations
  cases ps with
  | nil =>
    rcases hx with hx | rfl
    · exact absurd hx List.not_mem_nil
    · cases hd
      exact List.mem_singleton_self _
  | cons p ps =>
    rcases hx with hx | rfl
    · exact mem_declarations hx hd
    · cases hd

/-! ## Scopes -/

namespace Scope

theorem names_declareParams : ∀ (ps : List Param) (sc : Scope),
    (sc.declareParams ps).names = (ps.map fun p => (p.name, p.decl)).reverse ++ sc.names
  | [], _ => rfl
  | p :: ps, sc => by
    have h := names_declareParams ps (sc.declare p.name p.decl)
    rw [List.map_cons, List.reverse_cons, List.append_assoc]
    exact h

theorem names_declareLambdaParams : ∀ (ps : List LambdaParam) (sc : Scope),
    (sc.declareLambdaParams ps).names = (ps.map fun p => (p.name, p.decl)).reverse ++ sc.names
  | [], _ => rfl
  | p :: ps, sc => by
    have h := names_declareLambdaParams ps (sc.declare p.name p.decl)
    rw [List.map_cons, List.reverse_cons, List.append_assoc]
    exact h

/-- Of a scope the function keeps all, and puts declarations before. -/
def Extends (t : Scope → Scope) : Prop :=
  ∃ declared : List (String × DeclId), ∀ sc, (t sc).names = declared ++ sc.names

theorem extends_declare (name : String) (d : DeclId) : Extends fun sc => sc.declare name d :=
  ⟨[(name, d)], fun _ => rfl⟩

theorem extends_withThis (type : Option TypeRef) : Extends fun sc => sc.withThis type :=
  ⟨[], fun _ => rfl⟩

theorem extends_declareParams (ps : List Param) : Extends fun sc => sc.declareParams ps :=
  ⟨_, names_declareParams ps⟩

theorem extends_ofLambda (ps : List LambdaParam) (it : DeclId) :
    Extends fun sc => sc.ofLambda ps it := by
  cases ps with
  | nil => exact extends_declare "it" it
  | cons p ps => exact ⟨_, names_declareLambdaParams (p :: ps)⟩

theorem extends_afterStmt (s : Stmt) : Extends fun sc => sc.afterStmt s := by
  cases s with
  | val v => exact extends_declare v.name v.decl
  | function | expr | assign | ret => exact ⟨[], fun _ => rfl⟩

theorem Extends.comp {t t' : Scope → Scope} (h : Extends t) (h' : Extends t') :
    Extends fun sc => t' (t sc) := by
  obtain ⟨declared, h⟩ := h
  obtain ⟨declared', h'⟩ := h'
  exact ⟨declared' ++ declared, fun sc => by rw [h', h, List.append_assoc]⟩

end Scope

theorem ClassDecl.extends_scope (c : ClassDecl) : Scope.Extends fun sc => c.scope sc := by
  have hfold : ∀ ps : List PropertyDecl, Scope.Extends fun sc =>
      ps.foldl (fun sc p => sc.declare p.name p.decl) sc := by
    intro ps
    induction ps with
    | nil => exact ⟨[], fun _ => rfl⟩
    | cons p ps ih => exact (Scope.extends_declare p.name p.decl).comp ih
  exact (Scope.extends_withThis c.thisType).comp (hfold c.properties)

/-! ## What is covered -/

theorem Expr.expr_mem_facts (e : Expr) (sc : Scope) : Fact.expr e ∈ e.facts sc := by
  obtain ⟨id, span, kind⟩ := e
  exact List.mem_cons_self

/-- Where facts are found in a scope, the expression is walked over in an extension of the scope. -/
structure Expr.WalkedIn (e : Expr) (fs : Scope → List Fact) (t : Scope → Scope) : Prop where
  extends_ : Scope.Extends t
  subset : ∀ sc, e.facts (t sc) ⊆ fs sc

namespace Expr.WalkedIn

variable {e x : Expr} {f g : Scope → List Fact} {t t' : Scope → Scope}

theorem self (e : Expr) : e.WalkedIn (fun sc => e.facts sc) fun sc => sc :=
  ⟨⟨[], fun _ => rfl⟩, fun _ => List.Subset.refl _⟩

theorem mono (h : e.WalkedIn f t) (hsub : ∀ sc, f sc ⊆ g sc) : e.WalkedIn g t :=
  ⟨h.extends_, fun sc => List.Subset.trans (h.subset sc) (hsub sc)⟩

theorem under (h : e.WalkedIn f t) (ht' : Scope.Extends t') :
    e.WalkedIn (fun sc => f (t' sc)) fun sc => t (t' sc) :=
  ⟨ht'.comp h.extends_, fun sc => h.subset (t' sc)⟩

theorem trans (h : e.WalkedIn f t) (hx : x.WalkedIn (fun sc => e.facts sc) t') :
    x.WalkedIn f fun sc => t' (t sc) :=
  ⟨h.extends_.comp hx.extends_, fun sc => List.Subset.trans (hx.subset (t sc)) (h.subset sc)⟩

end Expr.WalkedIn

/-- The expressions are walked over and what declares is told of. What names refer to is told only
in the walks over the expressions. -/
structure Covers (fs : Scope → List Fact) (es : List Expr) (ds : List Declarer) : Prop where
  exprs : ∀ e ∈ es, ∃ t, e.WalkedIn fs t
  names : ∀ sc id d, Fact.refers id d ∈ fs sc →
    ∃ e ∈ es, ∃ t, e.WalkedIn fs t ∧ Fact.refers id d ∈ e.facts (t sc)
  functions : ∀ f, .function f ∈ ds → ∀ sc, Fact.function f ∈ fs sc
  declarations : ∀ x ∈ ds, ∀ d, x.declaration? = some d → ∀ sc, Fact.declares d ∈ fs sc

namespace Covers

variable {f g : Scope → List Fact} {es es' : List Expr} {ds ds' : List Declarer}

/-- Quiet facts cover nothing. -/
theorem quiet (h : ∀ sc, ∀ x ∈ f sc, x.isQuiet) : Covers f [] [] where
  exprs := nofun
  names sc _ _ hd := absurd (h sc _ hd) Bool.false_ne_true
  functions := nofun
  declarations := nofun

theorem nil : Covers (fun _ => []) [] [] := quiet nofun

theorem weaken (h : Covers f es ds) (hes : ∀ e, e ∈ es' ↔ e ∈ es) (hds : ds' ⊆ ds) :
    Covers f es' ds' where
  exprs e he := h.exprs e ((hes e).1 he)
  names sc id d hd := by
    obtain ⟨e, he, hwalk⟩ := h.names sc id d hd
    exact ⟨e, (hes e).2 he, hwalk⟩
  functions x hx := h.functions x (hds hx)
  declarations x hx := h.declarations x (hds hx)

theorem append (h : Covers f es ds) (h' : Covers g es' ds') :
    Covers (fun sc => f sc ++ g sc) (es ++ es') (ds ++ ds') where
  exprs e he := by
    rcases List.mem_append.1 he with he | he
    · obtain ⟨t, ht⟩ := h.exprs e he
      exact ⟨t, ht.mono fun sc => List.subset_append_left _ _⟩
    · obtain ⟨t, ht⟩ := h'.exprs e he
      exact ⟨t, ht.mono fun sc => List.subset_append_right _ _⟩
  names sc id d hd := by
    rcases List.mem_append.1 hd with hd | hd
    · obtain ⟨e, he, t, ht, hd⟩ := h.names sc id d hd
      exact ⟨e, List.mem_append_left _ he, t, ht.mono fun sc => List.subset_append_left _ _, hd⟩
    · obtain ⟨e, he, t, ht, hd⟩ := h'.names sc id d hd
      exact ⟨e, List.mem_append_right _ he, t, ht.mono fun sc => List.subset_append_right _ _, hd⟩
  functions x hx sc := by
    rcases List.mem_append.1 hx with hx | hx
    · exact List.mem_append_left _ (h.functions x hx sc)
    · exact List.mem_append_right _ (h'.functions x hx sc)
  declarations x hx d hd sc := by
    rcases List.mem_append.1 hx with hx | hx
    · exact List.mem_append_left _ (h.declarations x hx d hd sc)
    · exact List.mem_append_right _ (h'.declarations x hx d hd sc)

theorem before (h : Covers g es ds) (hf : ∀ sc, ∀ x ∈ f sc, x.isQuiet) :
    Covers (fun sc => f sc ++ g sc) es ds :=
  (quiet hf).append h

theorem after (h : Covers f es ds) (hg : ∀ sc, ∀ x ∈ g sc, x.isQuiet) :
    Covers (fun sc => f sc ++ g sc) es ds := by
  simpa using h.append (quiet hg)

/-- What is walked over in an extension of the scope. -/
theorem under (h : Covers f es ds) {t : Scope → Scope} (ht : Scope.Extends t) :
    Covers (fun sc => f (t sc)) es ds where
  exprs e he := by
    obtain ⟨t', ht'⟩ := h.exprs e he
    exact ⟨_, ht'.under ht⟩
  names sc id d hd := by
    obtain ⟨e, he, t', ht', hd⟩ := h.names (t sc) id d hd
    exact ⟨e, he, _, ht'.under ht, hd⟩
  functions x hx sc := h.functions x hx (t sc)
  declarations x hx d hd sc := h.declarations x hx d hd (t sc)

theorem expr (e : Expr) : Covers (fun sc => e.facts sc) [e] [] where
  exprs x hx := by
    obtain rfl := List.mem_singleton.1 hx
    exact ⟨_, .self x⟩
  names sc id d hd := ⟨e, List.mem_singleton_self e, _, .self e, hd⟩
  functions := nofun
  declarations := nofun

/-- A declarer that is no function covers with what it declares. -/
theorem declarer {x : Declarer} (hx : ∀ f, x ≠ .function f) (hf : ∀ sc, ∀ y ∈ f sc, y.isQuiet)
    (h : ∀ d, x.declaration? = some d → ∀ sc, Fact.declares d ∈ f sc) : Covers f [] [x] where
  exprs := nofun
  names := (quiet hf).names
  functions g hg := absurd (List.mem_singleton.1 hg).symm (hx g)
  declarations _ hy := List.mem_singleton.1 hy ▸ h

theorem declares {x : Declarer} (hx : ∀ f, x ≠ .function f) {d : Declaration}
    (h : x.declaration? = some d) : Covers (fun _ => [.declares d]) [] [x] := by
  refine declarer hx (by simp) fun d' hd' _ => ?_
  rw [h] at hd'
  cases hd'
  exact List.mem_singleton_self _

theorem function (d : FunDecl) : Covers (fun _ => [.function d]) [] [.function d] where
  exprs := nofun
  names := by simp
  functions x hx _ := by
    cases List.mem_singleton.1 hx
    exact List.mem_singleton_self _
  declarations x hx d hd := by
    cases List.mem_singleton.1 hx
    cases hd

theorem flatMap {α : Type} {f : α → Scope → List Fact} {g : α → List Expr}
    {d : α → List Declarer} {l : List α} (h : ∀ a ∈ l, Covers (f a) (g a) (d a)) :
    Covers (fun sc => l.flatMap fun a => f a sc) (l.flatMap g) (l.flatMap d) := by
  induction l with
  | nil => exact nil
  | cons a l ih =>
    rw [List.forall_mem_cons] at h
    exact h.1.append (ih h.2)

/-! ## Lists of expressions -/

theorem exprsOf (l : List Expr) : Covers (fun sc => Expr.factsOf sc l) l [] := by
  induction l with
  | nil => exact nil
  | cons e l ih => exact (expr e).append ih

theorem expr? (o : Option Expr) : Covers (fun sc => Expr.factsOf? sc o) o.toList [] := by
  cases o with
  | none => exact nil
  | some e => exact expr e

theorem typed (type : Option TypeRef) (o : Option Expr) :
    Covers (fun sc => Expr.factsTyped sc type o) o.toList [] := by
  cases o with
  | none => exact nil
  | some e => exact (expr e).before fun _ _ => isQuiet_of_mem_expectedFacts

theorem arguments (call : ExprId) (l : List Argument) :
    Covers (fun sc => Argument.facts sc call l) (l.map Argument.value) [] := by
  induction l with
  | nil => exact nil
  | cons a l ih =>
    obtain ⟨name, e⟩ := a
    exact ((expr e).before fun _ _ => isQuiet_of_mem_passedFacts).append ih

theorem branches (l : List WhenBranch) :
    Covers (fun sc => WhenBranch.facts sc l) (l.flatMap WhenBranch.exprs) [] := by
  induction l with
  | nil => exact nil
  | cons b l ih =>
    obtain ⟨conditions, isElse, body⟩ := b
    exact ((exprsOf conditions).append (expr body)).append ih

/-- Parameters are told of as declarers of either kind. -/
theorem params (kind : Param → Declarer) (hk : ∀ p f, kind p ≠ .function f)
    (hd : ∀ p, (kind p).declaration? = some p.declaration) (l : List Param) :
    Covers (fun sc => Param.facts sc l) (Param.defaults l) (l.map kind) := by
  induction l with
  | nil => exact nil
  | cons p l ih =>
    obtain ⟨decl, name, type, default, span⟩ := p
    have hrest := ih.under (Scope.extends_declare name decl)
    rw [Param.defaults_cons]
    exact (typed type default).append ((declares (hk _) (hd _)).append hrest)

/-! ## Statements -/

mutual

theorem block : ∀ b : Block, Covers (fun sc => b.facts sc) b.exprs b.declarers
  | ⟨stmts, _⟩ => statements stmts

theorem statements : ∀ l : List Stmt,
    Covers (fun sc => Stmt.facts sc l) (Stmt.exprsOf l) (Stmt.declarersOf l)
  | [] => nil
  | s :: l => (statement s).append ((statements l).under (Scope.extends_afterStmt s))

theorem statement : ∀ s : Stmt, Covers (fun sc => Stmt.factsOne sc s) s.exprs s.declarers
  | .val v => by
    have hval : Covers (fun _ => [.declares (v.declaration .localVal)]) [] [.localVal v] :=
      declares (x := .localVal v) nofun rfl
    exact ((valDecl v).append hval).weaken (by simp [Stmt.exprs]) (List.Subset.refl _)
  | .function f => (function f).append (funDecl f.receiver f)
  | .expr e => expr e
  | .assign target value _ => ((expr target).append (expr value)).after fun _ _ => isQuiet_of_mem_assignedFacts
  | .ret value _ => expr? value

theorem body (type : Option TypeRef) : ∀ b : Body,
    Covers (fun sc => b.facts sc type) b.exprs b.declarers
  | .absent => nil
  | .expr e => (expr e).before fun _ _ => isQuiet_of_mem_expectedFacts
  | .block b => block b

theorem valDecl : ∀ v : ValDecl, Covers (fun sc => v.facts sc) v.exprs v.declarers
  | ⟨_, _, _, _, _, type, init, getter, _⟩ => (typed type init).append (body type getter)

theorem funDecl (thisType : Option TypeRef) : ∀ f : FunDecl,
    Covers (fun sc => f.facts sc thisType) f.exprs f.declarers
  | ⟨_, _, _, ps, returnType, b, _, _⟩ => by
    have hthis := Scope.extends_withThis thisType
    have hparams := (params .param nofun (fun _ => rfl) ps).under hthis
    exact hparams.append ((body returnType b).under (hthis.comp (Scope.extends_declareParams ps)))

end

/-! ## Items -/

theorem method (m : FunDecl) : Covers (fun _ => []) [] [.method m] :=
  declarer nofun nofun nofun

theorem classDecl (c : ClassDecl) : Covers (fun sc => c.facts sc) (Item.classDecl c).roots
    (Item.classDecl c).declarers := by
  have hinner := c.extends_scope.comp (Scope.extends_declareParams c.params)
  have hmembers : Covers (fun _ => c.properties.flatMap fun p => [.declares p.declaration])
      (c.properties.flatMap fun _ => []) (c.properties.flatMap fun p => [.classMember p]) :=
    flatMap fun p _ => declares (x := .classMember p) nofun rfl
  have hparams := (params .plainParam nofun (fun _ => rfl) c.params).under c.extends_scope
  have hproperties := (flatMap (l := c.properties) fun p _ =>
    (typed p.type p.init).append (body p.type p.getter)).under hinner
  have hmethods := (flatMap (l := c.methods) fun m _ =>
    (method m).append (funDecl (m.receiver.or c.thisType) m)).under c.extends_scope
  simp only [← List.map_eq_flatMap] at hmembers
  refine (((hmembers.append hparams).append hproperties).append hmethods).weaken ?_ ?_
  · intro e
    simp [Item.roots, PropertyDecl.exprs]
  · intro x hx
    simp only [Item.declarers, PropertyDecl.declarers, List.mem_append, List.mem_map,
      List.mem_flatMap, List.mem_cons, List.not_mem_nil, or_false, false_or] at hx ⊢
    rcases hx with (hx | ⟨p, hp, rfl | hx⟩) | hx
    · exact Or.inl (Or.inl (Or.inr hx))
    · exact Or.inl (Or.inl (Or.inl ⟨p, hp, rfl⟩))
    · exact Or.inl (Or.inr ⟨p, hp, hx⟩)
    · exact Or.inr hx

/-- What of an item is told of before the walk. -/
theorem global (i : Item) : Covers (fun _ => i.globalFacts) [] (match i with
    | .classDecl _ => []
    | .function f => [.function f]
    | .property v => [.topLevel v]) := by
  cases i with
  | classDecl c => exact quiet fun _ _ => Item.isQuiet_of_mem_globalFacts
  | function f => exact function f
  | property v => exact declares (x := .topLevel v) nofun rfl

theorem item (i : Item) : Covers (fun sc => i.facts sc) i.roots (match i with
    | .classDecl c => (Item.classDecl c).declarers
    | .function f => f.declarers
    | .property v => v.declarers) := by
  cases i with
  | classDecl c => exact classDecl c
  | function f => exact funDecl f.receiver f
  | property v => exact valDecl v

theorem unit (u : SourceUnit) :
    Covers (fun sc => u.items.flatMap Item.globalFacts ++ u.items.flatMap fun i => i.facts sc)
      (u.items.flatMap Item.roots) (u.items.flatMap Item.declarers) := by
  have hglobal := flatMap (l := u.items) fun i _ => global i
  have hitems := flatMap (l := u.items) fun i _ => item i
  refine (hglobal.append hitems).weaken (by simp) fun x hx => ?_
  obtain ⟨i, hi, hx⟩ := List.mem_flatMap.1 hx
  simp only [List.mem_append, List.mem_flatMap]
  cases i with
  | classDecl c => exact Or.inr ⟨_, hi, hx⟩
  | function f | property v =>
    rcases List.mem_cons.1 hx with rfl | hx
    · exact Or.inl ⟨_, hi, List.mem_singleton_self _⟩
    · exact Or.inr ⟨_, hi, hx⟩

end Covers

/-! ## Expressions -/

/-- The children that are walked over; a name that a call starts with is only told of. -/
def Expr.walkedChildren (e : Expr) : List Expr :=
  match e.kind with
  | .call callee _ args => (if callee.isName then [] else [callee]) ++ args.map Argument.value
  | _ => e.children

theorem Expr.mem_walkedChildren {e : Expr} {o : Occurrence} (ho : o ∈ e.occurrences)
    (hname : o.2 → ¬o.1.isName) : o.1 ∈ e.walkedChildren := by
  obtain ⟨id, span, kind⟩ := e
  cases kind with
  | call callee typeArgs args =>
    rcases List.mem_cons.1 ho with rfl | ho
    · exact List.mem_append_left _ (by simp [hname rfl])
    · obtain ⟨a, ha, rfl⟩ := List.mem_map.1 ho
      exact List.mem_append_right _ (List.mem_map_of_mem ha)
  | _ =>
    obtain ⟨c, hc, rfl⟩ := List.mem_map.1 ho
    exact hc

theorem Covers.node {f : Scope → List Fact} {es : List Expr} {ds : List Declarer}
    (h : Covers f es ds) (e : Expr) : Covers (fun sc => .expr e :: f sc) es ds where
  exprs x hx := by
    obtain ⟨t, ht⟩ := h.exprs x hx
    exact ⟨t, ht.mono fun _ => List.subset_cons_self _ _⟩
  names sc id d hd := by
    obtain ⟨x, hx, t, ht, hd⟩ := h.names sc id d (by simpa using hd)
    exact ⟨x, hx, t, ht.mono fun _ => List.subset_cons_self _ _, hd⟩
  functions x hx sc := List.mem_cons_of_mem _ (h.functions x hx sc)
  declarations x hx d hd sc := List.mem_cons_of_mem _ (h.declarations x hx d hd sc)

theorem Expr.mem_children_of_mem_walkedChildren {e c : Expr} (h : c ∈ e.walkedChildren) :
    c ∈ e.children := by
  obtain ⟨id, span, kind⟩ := e
  cases kind with
  | call callee typeArgs args =>
    rcases List.mem_append.1 h with h | h
    · split at h
      · exact absurd h List.not_mem_nil
      · exact List.mem_cons.2 (Or.inl (List.mem_singleton.1 h))
    · exact List.mem_cons_of_mem _ h
  | _ => exact h

/-- The walk over an expression, if it is no name, goes on to its children. -/
theorem Expr.covers {e : Expr} (hname : ¬e.isName) :
    Covers (fun sc => e.facts sc) e.walkedChildren e.declarers := by
  obtain ⟨id, span, kind⟩ := e
  refine Covers.node (f := fun sc => kind.facts sc id) ?_ ⟨id, span, kind⟩
  cases kind with
  | name => exact absurd rfl hname
  | literal => exact Covers.nil
  | this =>
    refine Covers.quiet fun sc x hx => ?_
    obtain ⟨type, -, rfl⟩ := Option.map_eq_some_iff.1 (Option.mem_toList.1 hx)
    rfl
  | member receiver => exact Covers.expr receiver
  | call callee typeArgs args =>
    have hcallee : Covers (fun sc => if callee.isName then [.expr callee] else callee.facts sc)
        (if callee.isName then [] else [callee]) [] := by
      cases callee.isName with
      | true => exact Covers.nil.node callee
      | false => exact Covers.expr callee
    exact hcallee.append (Covers.arguments id args)
  | index receiver indices => exact (Covers.expr receiver).append (Covers.exprsOf indices)
  | binary op left right => exact (Covers.expr left).append (Covers.expr right)
  | unary op operand => exact Covers.expr operand
  | notNull inner => exact Covers.expr inner
  | cast operand => exact Covers.expr operand
  | ifElse condition thenBranch elseBranch =>
    exact ((Covers.expr condition).append (Covers.expr thenBranch)).append
      (Covers.expr? elseBranch)
  | whenOf subject branches => exact (Covers.expr? subject).append (Covers.branches branches)
  | template parts => exact Covers.exprsOf parts
  | block body => exact Covers.block body
  | lambda params it body =>
    have hdeclared : Covers (fun _ => (LambdaParam.allDeclarations id params it).map Fact.declares) []
        (LambdaParam.declarers id 0 params ++ [.implicitIt id params.isEmpty it]) := by
      refine ⟨nofun, by simp, fun f hf => ?_, fun x hx d hd _ => ?_⟩
      · rcases List.mem_append.1 hf with hf | hf
        · exact absurd rfl (LambdaParam.ne_function_of_mem_declarers hf f)
        · cases List.mem_singleton.1 hf
      · refine List.mem_map_of_mem (LambdaParam.mem_allDeclarations ?_ hd)
        simpa using hx
    have hbody := hdeclared.append ((Covers.block body).under (Scope.extends_ofLambda params it))
    rwa [List.append_assoc] at hbody

/-! ## What is inside of expressions -/

theorem Expr.id_of_refers_mem_facts {e : Expr} (hname : e.isName) {sc : Scope} {id : ExprId}
    {d : DeclId} (h : Fact.refers id d ∈ e.facts sc) : e.id = id := by
  obtain ⟨eid, span, kind⟩ := e
  cases kind with
  | name n =>
    simp only [facts, ExprKind.facts, List.mem_cons, reduceCtorEq, false_or, Option.mem_toList,
      Option.map_eq_some_iff, Fact.refers.injEq] at h
    obtain ⟨_, -, rfl, -⟩ := h
    rfl
  | _ => cases hname

/-- The walk over an expression walks over all that is inside of it, in extensions of the scope. -/
theorem Expr.walkedIn_of_mem_nodes (e : Expr) : ∀ x ∈ e.nodes, ∀ o ∈ x.occurrences,
    (o.2 → ¬o.1.isName) → ∃ t, o.1.WalkedIn (fun sc => e.facts sc) t := by
  induction e using Expr.childrenInduction with
  | step e ih =>
  intro x hx o ho hname
  have he : ¬e.isName := fun hn => by
    rw [nodes_of_isName hn] at hx
    obtain rfl := List.mem_singleton.1 hx
    rw [occurrences_of_isName hn] at ho
    exact absurd ho List.not_mem_nil
  rcases mem_nodes.1 hx with hx | rfl
  · obtain ⟨c, hc, hx⟩ := mem_parts.1 hx
    rw [← map_fst_occurrences] at hc
    obtain ⟨oc, hoc, rfl⟩ := List.mem_map.1 hc
    have hcname : oc.2 → ¬oc.1.isName := by
      intro _ hn
      rw [nodes_of_isName hn] at hx
      obtain rfl := List.mem_singleton.1 hx
      rw [occurrences_of_isName hn] at ho
      exact absurd ho List.not_mem_nil
    obtain ⟨t, ht⟩ := (covers he).exprs oc.1 (mem_walkedChildren hoc hcname)
    have hchild : oc.1 ∈ e.children := map_fst_occurrences e ▸ List.mem_map_of_mem hoc
    obtain ⟨t', ht'⟩ := ih oc.1 hchild x hx o ho hname
    exact ⟨_, ht.trans ht'⟩
  · exact (covers he).exprs o.1 (mem_walkedChildren ho hname)

/-- What a name refers to is told in the walk over the name. -/
theorem Expr.walkedIn_of_refers (e : Expr) {sc : Scope} {id : ExprId} {d : DeclId}
    (h : Fact.refers id d ∈ e.facts sc) : ∃ x ∈ e.nodes, x.isName ∧
      ∃ t, x.WalkedIn (fun sc => e.facts sc) t ∧ Fact.refers id d ∈ x.facts (t sc) := by
  induction e using Expr.childrenInduction generalizing sc with
  | step e ih =>
  by_cases hname : e.isName
  · exact ⟨e, e.mem_nodes_self, hname, _, .self e, h⟩
  · obtain ⟨c, hc, t, ht, hd⟩ := (covers hname).names sc id d h
    have hchild : c ∈ e.children := mem_children_of_mem_walkedChildren hc
    obtain ⟨x, hx, hxname, t', ht', hd'⟩ := ih c hchild hd
    exact ⟨x, mem_nodes.2 (Or.inl (mem_parts.2 ⟨c, hchild, hx⟩)), hxname, _, ht.trans ht', hd'⟩

namespace Covers

variable {f : Scope → List Fact} {es : List Expr} {ds : List Declarer}

/-- What is inside of the expressions is walked over, but for names that calls start with. -/
theorem inside (h : Covers f es ds) {o : Occurrence} (ho : o ∈ Expr.allOccurrences es)
    (hname : o.2 → ¬o.1.isName) : ∃ t, o.1.WalkedIn f t := by
  obtain ⟨e, he, rfl | ⟨x, hx, ho⟩⟩ := Expr.mem_allOccurrences.1 ho
  · exact h.exprs e he
  · obtain ⟨t, ht⟩ := h.exprs e he
    obtain ⟨t', ht'⟩ := e.walkedIn_of_mem_nodes x hx o ho hname
    exact ⟨_, ht.trans ht'⟩

/-- What a name refers to is what it is looked up to in the scope where it is walked over. -/
theorem refers_iff (h : Covers f es ds) (htells : ∀ sc, Tells (f sc) es)
    (hids : (Expr.idsOf es).Nodup) {x : Expr} {t : Scope → Scope} (ht : x.WalkedIn f t) {n : String}
    (hk : x.kind = .name n) (sc : Scope) (d : DeclId) :
    Fact.refers x.id d ∈ f sc ↔ (t sc).lookup? n = some d := by
  have hfact : ∀ (sc : Scope) d, Fact.refers x.id d ∈ x.facts sc ↔ sc.names.lookup n = some d := by
    intro sc d
    obtain ⟨id, span, kind⟩ := x
    subst hk
    simp [Expr.facts, ExprKind.facts, Scope.lookup?, eq_comm]
  have hwalk {t : Scope → Scope} (ht : x.WalkedIn f t) {declared : List (String × DeclId)}
      (hdeclared : ∀ sc, (t sc).names = declared ++ sc.names) {sc : Scope} {d : DeclId}
      (hd : (declared ++ sc.names).lookup n = some d) : Fact.refers x.id d ∈ f sc :=
    ht.subset sc ((hfact (t sc) d).2 (hdeclared sc ▸ hd))
  have hxmem : x ∈ es.flatMap Expr.nodes := List.mem_flatMap.2
    (((htells sc).mem x).1 (ht.subset sc (x.expr_mem_facts (t sc))))
  obtain ⟨declared, hdeclared⟩ := ht.extends_
  rw [Scope.lookup?, hdeclared]
  refine ⟨fun hd => ?_, hwalk ht hdeclared⟩
  obtain ⟨t', ht', hd'⟩ : ∃ t', x.WalkedIn f t' ∧ Fact.refers x.id d ∈ x.facts (t' sc) := by
    obtain ⟨e, he, t₁, ht₁, hd₁⟩ := h.names sc x.id d hd
    obtain ⟨y, hy, hyname, t₂, ht₂, hd₂⟩ := e.walkedIn_of_refers hd₁
    have hyx : y = x := List.inj_on_of_nodup_map hids (List.mem_flatMap.2 ⟨e, he, hy⟩) hxmem
      (Expr.id_of_refers_mem_facts hyname hd₂)
    exact ⟨_, hyx ▸ ht₁.trans ht₂, hyx ▸ hd₂⟩
  obtain ⟨declared', hdeclared'⟩ := ht'.extends_
  -- both walks tell the same of the name in a scope that has nothing but the name
  have hsame : declared.lookup n = declared'.lookup n := by
    have hget : ∀ k : DeclId, (declared.lookup n).getD k = (declared'.lookup n).getD k := fun k =>
      (htells ⟨[(n, k)], none⟩).eq_of_refers hids
        (hwalk ht hdeclared (by simp [List.lookup_append, Option.or_some]))
        (hwalk ht' hdeclared' (by simp [List.lookup_append, Option.or_some]))
    cases h₁ : declared.lookup n with
    | none =>
      cases h₂ : declared'.lookup n with
      | none => rfl
      | some b => simpa [h₁, h₂] using hget (b + 1)
    | some a =>
      cases h₂ : declared'.lookup n with
      | none => simpa [h₁, h₂] using hget (a + 1)
      | some b => simpa [h₁, h₂] using hget 0
  have hlookup := (hfact (t' sc) d).1 hd'
  rw [hdeclared', List.lookup_append, ← hsame] at hlookup
  rw [List.lookup_append, hlookup]

/-- What a name refers to is declared around it in the part that is walked over, whatever the scope
is, or else it is what the name refers to in the scope. -/
theorem exists_declared (h : Covers f es ds) (htells : ∀ sc, Tells (f sc) es)
    (hids : (Expr.idsOf es).Nodup) {x : Expr}
    (hx : (x, false) ∈ Expr.allOccurrences es) {n : String} (hk : x.kind = .name n) :
    ∃ declared : List (String × DeclId), ∀ (sc : Scope) d,
      Fact.refers x.id d ∈ f sc ↔ (declared ++ sc.names).lookup n = some d := by
  obtain ⟨t, ht⟩ := h.inside hx nofun
  obtain ⟨declared, hdeclared⟩ := ht.extends_
  refine ⟨declared, fun sc d => ?_⟩
  rw [h.refers_iff htells hids ht hk, Scope.lookup?, hdeclared]

end Covers

/-! ## Units -/

namespace SourceUnit

/-- The walk over a unit tells of all that declares. -/
theorem declares_of_declarers {u : SourceUnit} {x : Declarer} (hx : x ∈ u.declarers) :
    (∀ f, x = .function f → Fact.function f ∈ u.facts) ∧
      ∀ d, x.declaration? = some d → Fact.declares d ∈ u.facts := by
  have hunit := Covers.unit u
  rcases List.mem_append.1 hx with hx | hx
  · exact ⟨fun f hf => hunit.functions f (hf ▸ hx) u.scope,
      fun d hd => hunit.declarations x hx d hd u.scope⟩
  · obtain ⟨e, he, hx⟩ := List.mem_flatMap.1 hx
    have hn : ¬e.isName := fun hn => by
      rw [e.declarers_of_isName hn] at hx
      exact absurd hx List.not_mem_nil
    obtain ⟨o, ho, rfl⟩ := List.mem_map.1 (u.occurrences_perm.mem_iff.1 he)
    obtain ⟨t, ht⟩ := hunit.inside (u.occurrences_eq ▸ ho) fun _ => hn
    have h := Expr.covers hn
    exact ⟨fun f hf => ht.subset u.scope (h.functions f (hf ▸ hx) _),
      fun d hd => ht.subset u.scope (h.declarations x hx d hd _)⟩

/-- A declaration is told of exactly if something in the unit declares so. -/
theorem declares_mem_facts {u : SourceUnit} {d : Declaration} :
    .declares d ∈ u.facts ↔ ∃ x ∈ u.declarers, x.declaration? = some d := by
  refine ⟨fun h => ?_, fun ⟨_, hx, hd⟩ => (declares_of_declarers hx).2 d hd⟩
  obtain ⟨x, hx, hxd⟩ := u.stems _ h
  exact ⟨x, part_declares.1 hx, hxd⟩

/-- A function is told of exactly if it is declared in the unit, at the top level or in a block. -/
theorem function_mem_facts {u : SourceUnit} {f : FunDecl} (hf : f.isProperty = false) :
    .function f ∈ u.facts ↔ .function f ∈ u.declarers := by
  refine ⟨fun h => ?_, fun h => (declares_of_declarers h).1 f rfl⟩
  rcases u.stems _ h with h | ⟨-, h⟩
  · exact part_declares.1 h
  · rw [hf] at h
    cases h

end SourceUnit

end FrameCheck
