import FrameCheck.Proofs.Parse.Identities
import FrameCheck.Proofs.Resolution.Walked

/-!
# Parameters of a constructor

The parameters of a primary constructor that are no properties are in sight where the class is
built : in the defaults of the parameters behind them and in initializers, and in getters as well. No
name in a method refers to one, and each resolves there as if the parameters were not there. A
name in a getter does so too unless it has the name of such a parameter and is not declared in
the getter; then it refers to the parameter.

* `Resolution.references_in_class` : what names in methods and in getters refer to.
-/

namespace FrameCheck

/-! ## Where a name is told of -/

theorem Expr.nodup_idsOf_of_mem {α : Type} {g : α → List Expr} {l : List α}
    (h : (Expr.idsOf (l.flatMap g)).Nodup) {a : α} (ha : a ∈ l) : (Expr.idsOf (g a)).Nodup := by
  refine h.sublist (List.Sublist.map _ (List.Sublist.flatMap ?_ _))
  simpa using (List.singleton_sublist.2 ha).flatMap g

namespace Tells

variable {f g : List Fact} {es es' : List Expr} {id : ExprId} {d : DeclId}

/-- What is told of a name is told of a name of the trees. -/
theorem exists_of_refers (h : Tells f es) (hd : Fact.refers id d ∈ f) :
    ∃ x ∈ es.flatMap Expr.nodes, x.id = id := by
  have hpos : 0 < f.countP (Fact.isOfName id) :=
    List.countP_pos_iff.2 ⟨_, hd, beq_self_eq_true id⟩
  exact List.mem_map.1 (List.count_pos_iff.1 (Nat.lt_of_lt_of_le hpos (h.once id)))

theorem not_refers (h : Tells g es') {x : Expr} (hx : x ∈ es.flatMap Expr.nodes)
    (hids : (Expr.idsOf (es ++ es')).Nodup) : Fact.refers x.id d ∉ g := by
  intro hd
  obtain ⟨y, hy, hyx⟩ := h.exists_of_refers hd
  rw [Expr.idsOf_append] at hids
  exact List.disjoint_of_nodup_append hids (List.mem_map_of_mem hx)
    (hyx ▸ List.mem_map_of_mem hy)

/-- A name of the first trees is told of in the first facts. -/
theorem refers_left (h : Tells g es') {x : Expr} (hx : x ∈ es.flatMap Expr.nodes)
    (hids : (Expr.idsOf (es ++ es')).Nodup) :
    Fact.refers x.id d ∈ f ++ g ↔ Fact.refers x.id d ∈ f := by
  rw [List.mem_append, or_iff_left (h.not_refers hx hids)]

theorem refers_right (h : Tells f es) {x : Expr} (hx : x ∈ es'.flatMap Expr.nodes)
    (hids : (Expr.idsOf (es ++ es')).Nodup) :
    Fact.refers x.id d ∈ f ++ g ↔ Fact.refers x.id d ∈ g := by
  have hperm : (Expr.idsOf (es' ++ es)).Nodup :=
    ((List.perm_append_comm.flatMap_right Expr.nodes).map Expr.id).nodup_iff.1 hids
  rw [List.mem_append, or_iff_right (h.not_refers hx hperm)]

theorem refers_flatMap {α : Type} {f : α → List Fact} {g : α → List Expr}
    (h : ∀ a, Tells (f a) (g a)) {l : List α}
    (hids : (Expr.idsOf (l.flatMap g)).Nodup) {a : α} (ha : a ∈ l) {x : Expr}
    (hx : x ∈ (g a).flatMap Expr.nodes) :
    Fact.refers x.id d ∈ l.flatMap f ↔ Fact.refers x.id d ∈ f a := by
  obtain ⟨before, after, rfl⟩ := List.append_of_mem ha
  simp only [List.flatMap_append, List.flatMap_cons] at hids ⊢
  have hx' : x ∈ (g a ++ after.flatMap g).flatMap Expr.nodes := by
    rw [List.flatMap_append]
    exact List.mem_append_left _ hx
  have hafter : (Expr.idsOf (g a ++ after.flatMap g)).Nodup := by
    rw [Expr.idsOf_append] at hids
    exact (List.nodup_append.1 hids).2.1
  rw [refers_right (flatMap h before) hx' hids]
  exact refers_left (flatMap h after) hx hafter

end Tells

/-! ## Names in a class -/

namespace SourceUnit

variable {u : SourceUnit} (hu : (u.exprs.map Expr.id).Nodup) {c : ClassDecl}
  (hc : .classDecl c ∈ u.items) {x : Expr} {d : DeclId}

include hu hc

theorem nodup_class : (Expr.idsOf (Item.classDecl c).roots).Nodup :=
  Expr.nodup_idsOf_of_mem (nodup_nodes hu) hc

/-- What a name in a class refers to is told in the walk over the class. -/
theorem refers_class (hx : x ∈ (Item.classDecl c).roots.flatMap Expr.nodes) :
    Fact.refers x.id d ∈ u.facts ↔ Fact.refers x.id d ∈ c.facts u.scope := by
  have hglobal : Fact.refers x.id d ∉ u.items.flatMap Item.globalFacts := fun h => by
    obtain ⟨i, -, h⟩ := List.mem_flatMap.1 h
    exact Bool.false_ne_true (Item.isQuiet_of_mem_globalFacts h)
  rw [facts, List.mem_append, or_iff_right hglobal]
  exact Tells.refers_flatMap (Tells.item u.scope) (nodup_nodes hu) hc hx

/-- What a name in a method refers to is told in the walk over the method. -/
theorem refers_method {m : FunDecl} (hm : m ∈ c.methods) (hx : x ∈ m.exprs.flatMap Expr.nodes) :
    Fact.refers x.id d ∈ u.facts ↔
      Fact.refers x.id d ∈ m.facts (c.scope u.scope) (m.receiver.or c.thisType) := by
  have hids := nodup_class hu hc
  have hmethods : x ∈ (c.methods.flatMap FunDecl.exprs).flatMap Expr.nodes := by
    rw [List.flatMap_assoc]
    exact List.mem_flatMap.2 ⟨m, hm, hx⟩
  have hroots : x ∈ (Item.classDecl c).roots.flatMap Expr.nodes := by
    rw [Item.roots, List.flatMap_append]
    exact List.mem_append_right _ hmethods
  have htells : ∀ m : FunDecl, Tells (m.facts (c.scope u.scope) (m.receiver.or c.thisType)) m.exprs :=
    fun m => Tells.funDecl _ _ fun e _ => e.told
  have hparams := Tells.params (c.scope u.scope) (l := c.params) fun e _ => e.told
  have hbefore := (hparams.before (f := c.properties.map fun p => .declares p.declaration)
    (by simp)).append
      (Tells.flatMap (Tells.property ((c.scope u.scope).declareParams c.params)) c.properties)
  rw [refers_class hu hc hroots, ClassDecl.facts, Tells.refers_right hbefore hmethods hids]
  rw [Item.roots, Expr.idsOf_append] at hids
  exact Tells.refers_flatMap htells (List.nodup_append.1 hids).2.1 hm hx

/-- What a name in a getter refers to is told in the walk over the getter. -/
theorem refers_getter {p : PropertyDecl} (hp : p ∈ c.properties)
    (hx : x ∈ p.getter.exprs.flatMap Expr.nodes) : Fact.refers x.id d ∈ u.facts ↔
      Fact.refers x.id d ∈ p.getter.facts ((c.scope u.scope).declareParams c.params) p.type := by
  have hids := nodup_class hu hc
  have hproperty : x ∈ p.exprs.flatMap Expr.nodes := by
    rw [PropertyDecl.exprs, List.flatMap_append]
    exact List.mem_append_right _ hx
  have hproperties : x ∈ (c.properties.flatMap PropertyDecl.exprs).flatMap Expr.nodes := by
    rw [List.flatMap_assoc]
    exact List.mem_flatMap.2 ⟨p, hp, hproperty⟩
  have hleft : x ∈ (Param.defaults c.params ++ c.properties.flatMap PropertyDecl.exprs).flatMap
      Expr.nodes := by
    rw [List.flatMap_append]
    exact List.mem_append_right _ hproperties
  have hroots : x ∈ (Item.classDecl c).roots.flatMap Expr.nodes := by
    rw [Item.roots, List.flatMap_append]
    exact List.mem_append_left _ hleft
  have hparams := (Tells.params (c.scope u.scope) (l := c.params) fun e _ => e.told).before
    (f := c.properties.map fun p => .declares p.declaration) (by simp)
  have hmethods := Tells.flatMap (fun m : FunDecl => Tells.funDecl (c.scope u.scope)
    (m.receiver.or c.thisType) (f := m) fun e _ => e.told) c.methods
  rw [refers_class hu hc hroots, ClassDecl.facts, Tells.refers_left hmethods hleft hids]
  rw [Item.roots, Expr.idsOf_append] at hids
  have hids := (List.nodup_append.1 hids).1
  rw [Tells.refers_right hparams hproperties hids]
  rw [Expr.idsOf_append] at hids
  have hids := (List.nodup_append.1 hids).2.1
  rw [Tells.refers_flatMap (Tells.property _) hids hp hproperty]
  exact Tells.refers_right (Tells.typed _ _ fun e _ => e.told) hx (Expr.nodup_idsOf_of_mem hids hp)

end SourceUnit

/-! ## Declarers inside of bodies -/

namespace Declarer

/-- The declarer stands in a body : it is no item, and no member or parameter of a class. -/
def isInner : Declarer → Bool
  | topLevel _ | classMember _ | plainParam _ | method _ => false
  | _ => true

variable {x : Declarer}

mutual

theorem isInner_of_mem_block : ∀ {b : Block}, x ∈ b.declarers → x.isInner
  | ⟨_, _⟩, hx => isInner_of_mem_statements hx

theorem isInner_of_mem_statements : ∀ {l : List Stmt}, x ∈ Stmt.declarersOf l → x.isInner
  | _ :: _, hx => (List.mem_append.1 hx).elim isInner_of_mem_statement isInner_of_mem_statements

theorem isInner_of_mem_statement : ∀ {s : Stmt}, x ∈ s.declarers → x.isInner
  | .val v, hx => by
    rcases List.mem_append.1 hx with hx | hx
    · exact isInner_of_mem_valDecl hx
    · exact List.mem_singleton.1 hx ▸ rfl
  | .function f, hx => by
    rcases List.mem_cons.1 hx with rfl | hx
    · rfl
    · exact isInner_of_mem_funDecl hx

theorem isInner_of_mem_body : ∀ {b : Body}, x ∈ b.declarers → x.isInner
  | .block b, hx => isInner_of_mem_block (b := b) hx

theorem isInner_of_mem_valDecl : ∀ {v : ValDecl}, x ∈ v.declarers → x.isInner
  | ⟨_, _, _, _, _, _, _, _, _⟩, hx => isInner_of_mem_body hx

theorem isInner_of_mem_funDecl : ∀ {f : FunDecl}, x ∈ f.declarers → x.isInner
  | ⟨_, _, _, _, _, _, _, _⟩, hx => by
    rcases List.mem_append.1 hx with hx | hx
    · obtain ⟨p, -, rfl⟩ := List.mem_map.1 hx
      rfl
    · exact isInner_of_mem_body hx

end

theorem isInner_of_mem_lambdaParams {lambda : ExprId} : ∀ {ps : List LambdaParam} {index : Nat},
    x ∈ LambdaParam.declarers lambda index ps → x.isInner
  | _ :: _, _, hx => by
    rcases List.mem_cons.1 hx with rfl | hx
    · rfl
    · exact isInner_of_mem_lambdaParams hx

theorem isInner_of_mem_expr {e : Expr} (hx : x ∈ e.declarers) : x.isInner := by
  obtain ⟨id, span, kind⟩ := e
  cases kind with
  | block b => exact isInner_of_mem_block (b := b) hx
  | lambda ps it b =>
    rcases List.mem_append.1 hx with hx | hx
    · exact isInner_of_mem_lambdaParams hx
    · rcases List.mem_cons.1 hx with rfl | hx
      · rfl
      · exact isInner_of_mem_block hx
  | _ => exact absurd hx List.not_mem_nil

end Declarer

/-- What declares in a body and in what is inside of it. -/
def Body.allDeclarers (b : Body) : List Declarer :=
  b.declarers ++ (b.exprs.flatMap Expr.nodes).flatMap Expr.declarers

/-- What declares in a function and in what is inside of it. -/
def FunDecl.allDeclarers (f : FunDecl) : List Declarer :=
  f.declarers ++ (f.exprs.flatMap Expr.nodes).flatMap Expr.declarers

theorem Body.isInner_of_mem_allDeclarers {b : Body} {x : Declarer} (hx : x ∈ b.allDeclarers) :
    x.isInner := by
  rcases List.mem_append.1 hx with hx | hx
  · exact Declarer.isInner_of_mem_body hx
  · obtain ⟨e, -, hx⟩ := List.mem_flatMap.1 hx
    exact Declarer.isInner_of_mem_expr hx

theorem FunDecl.isInner_of_mem_allDeclarers {f : FunDecl} {x : Declarer} (hx : x ∈ f.allDeclarers) :
    x.isInner := by
  rcases List.mem_append.1 hx with hx | hx
  · exact Declarer.isInner_of_mem_funDecl hx
  · obtain ⟨e, -, hx⟩ := List.mem_flatMap.1 hx
    exact Declarer.isInner_of_mem_expr hx

namespace SourceUnit

variable {u : SourceUnit} {c : ClassDecl} (hc : .classDecl c ∈ u.items)

include hc

theorem mem_declarers_class {x : Declarer} (hx : x ∈ (Item.classDecl c).declarers) :
    x ∈ u.declarers :=
  List.mem_append_left _ (List.mem_flatMap.2 ⟨_, hc, hx⟩)

theorem nodes_class_subset {es : List Expr} (hes : es ⊆ (Item.classDecl c).roots) :
    es.flatMap Expr.nodes ⊆ u.exprs := fun x hx => by
  obtain ⟨e, he, hx⟩ := List.mem_flatMap.1 hx
  exact mem_exprs.2 ⟨_, hc, e, hes he, hx⟩

theorem getter_declarers_subset {p : PropertyDecl} (hp : p ∈ c.properties) :
    p.getter.allDeclarers ⊆ u.declarers := fun x hx => by
  rcases List.mem_append.1 hx with hx | hx
  · refine mem_declarers_class hc (List.mem_append_left _ (List.mem_append_right _ ?_))
    exact List.mem_flatMap.2 ⟨p, hp, List.mem_cons_of_mem _ hx⟩
  · obtain ⟨e, he, hx⟩ := List.mem_flatMap.1 hx
    refine List.mem_append_right _ (List.mem_flatMap.2 ⟨e, nodes_class_subset hc ?_ he, hx⟩)
    intro y hy
    refine List.mem_append_left _ (List.mem_append_right _ (List.mem_flatMap.2 ⟨p, hp, ?_⟩))
    exact List.mem_append_right _ hy

theorem method_declarers_subset {m : FunDecl} (hm : m ∈ c.methods) :
    m.allDeclarers ⊆ u.declarers := fun x hx => by
  rcases List.mem_append.1 hx with hx | hx
  · refine mem_declarers_class hc (List.mem_append_right _ ?_)
    exact List.mem_flatMap.2 ⟨m, hm, List.mem_cons_of_mem _ hx⟩
  · obtain ⟨e, he, hx⟩ := List.mem_flatMap.1 hx
    refine List.mem_append_right _ (List.mem_flatMap.2 ⟨e, nodes_class_subset hc ?_ he, hx⟩)
    intro y hy
    exact List.mem_append_right _ (List.mem_flatMap.2 ⟨m, hm, hy⟩)

/-- In sight of all members of a class are properties of the class and of the top level. -/
theorem class_scope_within : (c.scope u.scope).Within fun d =>
    ∃ z ∈ u.declarers, z.isInner = false ∧ (∀ q, z ≠ .plainParam q) ∧ z.id = d := by
  refine c.scope_within (u.scope_within fun v hv => ?_) fun p hp => ?_
  · exact ⟨.topLevel v, List.mem_append_left _ (List.mem_flatMap.2 ⟨_, hv, List.mem_cons_self⟩),
      rfl, nofun, rfl⟩
  · refine ⟨.classMember p, mem_declarers_class hc (List.mem_append_left _ (List.mem_append_right _ ?_)),
      rfl, nofun, rfl⟩
    exact List.mem_flatMap.2 ⟨p, hp, List.mem_cons_self⟩

end SourceUnit

/-! ## A class without parameters -/

/-- The class without the parameters of its constructor that are no properties. -/
def ClassDecl.withoutParams (c : ClassDecl) : ClassDecl := { c with params := [] }

/-- The last parameter of the name, which the constructor has in sight. -/
def ClassDecl.plainParam? (c : ClassDecl) (name : String) : Option DeclId :=
  (c.params.reverse.find? fun q => q.name == name).map Param.decl

theorem Param.lookup_reverse (name : String) (ps : List Param) :
    (ps.map fun q => (q.name, q.decl)).reverse.lookup name =
      (ps.reverse.find? fun q => q.name == name).map Param.decl := by
  rw [← List.map_reverse]
  induction ps.reverse with
  | nil => rfl
  | cons q qs ih =>
    rw [List.map_cons, List.lookup_cons, List.find?_cons, ih, Bool.beq_comm]
    cases q.name == name <;> rfl

namespace SourceUnit

variable {u v : SourceUnit} {before after : List Item} {c : ClassDecl}
  (hu : u.items = before ++ .classDecl c :: after)
  (hv : v.items = before ++ .classDecl c.withoutParams :: after)

include hu hv

theorem scope_withoutParams : v.scope = u.scope := by
  rw [scope, scope, hu, hv, List.foldl_append, List.foldl_append]
  rfl

theorem nodup_withoutParams (hids : (u.exprs.map Expr.id).Nodup) :
    (v.exprs.map Expr.id).Nodup := by
  refine hids.sublist (List.Sublist.map _ ?_)
  have hroots : (Item.classDecl c.withoutParams).roots.Sublist (Item.classDecl c).roots :=
    List.Sublist.append (List.sublist_append_right _ _) (List.Sublist.refl _)
  rw [exprs_eq_flatMap, exprs_eq_flatMap, hu, hv]
  refine List.Sublist.flatMap ?_ _
  simp only [List.flatMap_append, List.flatMap_cons]
  exact (List.Sublist.refl _).append (hroots.append (List.Sublist.refl _))

end SourceUnit

namespace Resolution

variable {u v : SourceUnit} {c : ClassDecl} (hc : .classDecl c ∈ u.items)
  (hids : (u.exprs.map Expr.id).Nodup) (hdecls : (u.declarers.map Declarer.id).Nodup)

include hc hids

/-- What a name in a method refers to is found in the walk over the method. -/
theorem references_method {m : FunDecl} (hm : m ∈ c.methods) {x : Expr}
    (hx : x ∈ m.exprs.flatMap Expr.nodes) {d : DeclId} : (ofUnit u).references[x.id]? = some d ↔
      Fact.refers x.id d ∈ m.facts (c.scope u.scope) (m.receiver.or c.thisType) := by
  rw [references_eq_some_iff hids, SourceUnit.refers_method hids hc hm hx]

theorem references_getter {p : PropertyDecl} (hp : p ∈ c.properties) {x : Expr}
    (hx : x ∈ p.getter.exprs.flatMap Expr.nodes) {d : DeclId} :
    (ofUnit u).references[x.id]? = some d ↔
      Fact.refers x.id d ∈ p.getter.facts ((c.scope u.scope).declareParams c.params) p.type := by
  rw [references_eq_some_iff hids, SourceUnit.refers_getter hids hc hp hx]

include hdecls

theorem references_ne_plainParam {m : FunDecl} (hm : m ∈ c.methods) {x : Expr}
    (hx : x ∈ m.exprs.flatMap Expr.nodes) {q : Param} (hq : q ∈ c.params) :
    (ofUnit u).references[x.id]? ≠ some q.decl := by
  intro h
  have hfact := (references_method hc hids hm hx).1 h
  have hparam : .plainParam q ∈ u.declarers := SourceUnit.mem_declarers_class hc
    (List.mem_append_left _ (List.mem_append_left _ (List.mem_map_of_mem hq)))
  let part := Part.ofTrees m.exprs m.declarers fun d =>
    ∃ z ∈ u.declarers, z.isInner = false ∧ (∀ q, z ≠ .plainParam q) ∧ z.id = d
  have hsc : (c.scope u.scope).Within part.inSight :=
    ⟨fun n hn => Or.inl ((SourceUnit.class_scope_within hc).of_mem n hn)⟩
  have hholds : part.Holds (m.facts (c.scope u.scope) (m.receiver.or c.thisType)) :=
    Part.Holds.funDecl hsc _
      (fun e he => Part.walks (Expr.mem_allOccurrences.2 ⟨e, he, Or.inl rfl⟩))
      fun y hy => List.mem_append_left _ hy
  obtain ⟨-, ⟨z, hz, -, hne, hid⟩ | ⟨y, hy, hid⟩⟩ := hholds _ hfact
  · exact hne q (List.inj_on_of_nodup_map hdecls hz hparam hid)
  · have hinner := FunDecl.isInner_of_mem_allDeclarers hy
    rw [List.inj_on_of_nodup_map hdecls (SourceUnit.method_declarers_subset hc hm hy) hparam hid]
      at hinner
    cases hinner

omit hids in
/-- Around a getter is in sight what no declarer in the getter declares. -/
theorem scope_ne_of_mem_getter {p : PropertyDecl} (hp : p ∈ c.properties) {y : Declarer}
    (hy : y ∈ p.getter.allDeclarers) {n : String} : (c.scope u.scope).lookup? n ≠ some y.id := by
  intro h
  obtain ⟨z, hz, hinner, -, hid⟩ := (SourceUnit.class_scope_within hc).of_lookup? h
  rw [List.inj_on_of_nodup_map hdecls hz (SourceUnit.getter_declarers_subset hc hp hy) hid,
    Body.isInner_of_mem_allDeclarers hy] at hinner
  cases hinner

omit hdecls in
/-- What a name in a getter refers to in any scope. -/
theorem exists_declared_getter {p : PropertyDecl} (hp : p ∈ c.properties) {x : Expr}
    (hx : x ∈ p.getter.exprs.flatMap Expr.nodes) {n : String} (hk : x.kind = .name n)
    (hcalled : ¬u.Calls x) : ∃ declared : List (String × DeclId),
      (∀ d, declared.lookup n = some d → ∃ y ∈ p.getter.allDeclarers, y.id = d) ∧
      ∀ (sc : Scope) d, Fact.refers x.id d ∈ p.getter.facts sc p.type ↔
        (declared ++ sc.names).lookup n = some d := by
  have hoccurs : (x, false) ∈ Expr.allOccurrences p.getter.exprs := by
    rcases Expr.mem_allOccurrences_of_mem_nodes hx with h | ⟨call, hcall, typeArgs, args, hcallee⟩
    · exact h
    · refine absurd ⟨call, SourceUnit.nodes_class_subset hc (fun y hy => ?_) hcall, typeArgs, args,
        hcallee⟩ hcalled
      refine List.mem_append_left _ (List.mem_append_right _ (List.mem_flatMap.2 ⟨p, hp, ?_⟩))
      exact List.mem_append_right _ hy
  have hgetter : (Expr.idsOf p.getter.exprs).Nodup := by
    have hclass := SourceUnit.nodup_class hids hc
    rw [Item.roots, Expr.idsOf_append, Expr.idsOf_append] at hclass
    have hp := Expr.nodup_idsOf_of_mem (List.nodup_append.1 (List.nodup_append.1 hclass).1).2.1 hp
    rw [PropertyDecl.exprs, Expr.idsOf_append] at hp
    exact (List.nodup_append.1 hp).2.1
  obtain ⟨declared, hdeclared⟩ := (Covers.body p.type p.getter).exists_declared
    (fun sc => Tells.body sc p.type fun e _ => e.told) hgetter hoccurs hk
  refine ⟨declared, fun d hd => ?_, hdeclared⟩
  let part := Part.ofTrees p.getter.exprs p.getter.declarers fun _ => False
  have hholds : part.Holds (p.getter.facts Scope.empty p.type) :=
    Part.Holds.body ⟨fun n hn => absurd hn List.not_mem_nil⟩ _
      (fun e he => Part.walks (Expr.mem_allOccurrences.2 ⟨e, he, Or.inl rfl⟩))
      fun y hy => List.mem_append_left _ hy
  have hfact := (hdeclared Scope.empty d).2 (by simpa [Scope.empty] using hd)
  obtain ⟨-, hfalse | hy⟩ := hholds _ hfact
  · exact hfalse.elim
  · exact hy

omit hc hids hdecls in
/-- A name in a method of a class refers to no parameter of the constructor that is no property, and
it refers to the same as in the unit with the class without those parameters. A name in a getter,
unless a call starts with it, refers to the same too if it refers to something declared in the
getter; otherwise it refers to the last such parameter of its name, and only if there is none to the
same as without the parameters. -/
theorem references_in_class {text : String} (htext : SourceUnit.ofText text = .ok u)
    {before after : List Item} (hu : u.items = before ++ .classDecl c :: after)
    (hv : v.items = before ++ .classDecl c.withoutParams :: after) :
    (∀ m ∈ c.methods, ∀ x ∈ m.exprs.flatMap Expr.nodes,
      (ofUnit u).references[x.id]? = (ofUnit v).references[x.id]? ∧
        ∀ q ∈ c.params, (ofUnit u).references[x.id]? ≠ some q.decl) ∧
    ∀ p ∈ c.properties, ∀ x ∈ p.getter.exprs.flatMap Expr.nodes, ∀ n, x.kind = .name n → ¬u.Calls x →
      ((ofUnit u).references[x.id]? = (ofUnit v).references[x.id]? ∧
        ∃ y ∈ p.getter.allDeclarers, (ofUnit v).references[x.id]? = some y.id) ∨
      ((ofUnit u).references[x.id]? = (c.plainParam? n).or (ofUnit v).references[x.id]? ∧
        ∀ y ∈ p.getter.allDeclarers, (ofUnit v).references[x.id]? ≠ some y.id) := by
  have hids := SourceUnit.nodup_ids_of_ofText htext
  have hdecls := SourceUnit.nodup_declarers_of_ofText htext
  have hids' := SourceUnit.nodup_withoutParams hu hv hids
  have hscope := SourceUnit.scope_withoutParams hu hv
  have hc : .classDecl c ∈ u.items := by simp [hu]
  have hc' : .classDecl c.withoutParams ∈ v.items := by simp [hv]
  constructor
  · intro m hm x hx
    refine ⟨Option.ext fun d => ?_, fun q hq => references_ne_plainParam hc hids hdecls hm hx hq⟩
    rw [references_method hc hids hm hx, references_method hc' hids' hm hx, hscope]
    exact Iff.rfl
  · intro p hp x hx n hk hcalled
    obtain ⟨declared, hinner, hdeclared⟩ := exists_declared_getter hc hids hp hx hk hcalled
    have hreferences : (ofUnit u).references[x.id]? =
        (declared.lookup n).or ((c.plainParam? n).or ((c.scope u.scope).lookup? n)) := by
      refine Option.ext fun d => ?_
      rw [references_getter hc hids hp hx, hdeclared, Scope.names_declareParams, List.lookup_append,
        List.lookup_append, Param.lookup_reverse]
      exact Iff.rfl
    have hreferences' : (ofUnit v).references[x.id]? =
        (declared.lookup n).or ((c.scope u.scope).lookup? n) := by
      refine Option.ext fun d => ?_
      rw [references_getter hc' hids' hp hx, hdeclared, Scope.names_declareParams, List.lookup_append,
        hscope]
      exact Iff.rfl
    rw [hreferences, hreferences']
    cases hlookup : declared.lookup n with
    | some d =>
      obtain ⟨y, hy, rfl⟩ := hinner d hlookup
      exact Or.inl ⟨rfl, y, hy, rfl⟩
    | none =>
      refine Or.inr ⟨rfl, fun y hy => ?_⟩
      exact scope_ne_of_mem_getter hc hdecls hp hy

end Resolution

/-! ## A parameter in a getter -/

namespace Resolution

/-- A class with a parameter of the name of a property outside, which is named in a getter and in a
method. -/
def parameterText : String :=
  "val df = 1\nclass C(df: Int) \x7b\n    val g: Int\n        get() = df\n" ++
  "    fun m(): Int = df\n\x7d\n"

/-- Whether the unit has a property and a class with one parameter, one property and one method, and
the name of the parameter is what the getter and the method consist of. -/
def parameterTest (test : SourceUnit → Param → Expr → Bool) (u : SourceUnit) : Bool :=
  match u.items with
  | [.property _, .classDecl c] =>
    match c.params, c.properties, c.methods with
    | [q], [p], [m] =>
      match p.getter, m.body with
      | .expr x, .expr y => x.name? == some q.name && y.isName && test u q x
      | _, _ => false
    | _, _, _ => false
  | _ => false

theorem exists_of_parameterTest {test : SourceUnit → Param → Expr → Bool} {u : SourceUnit}
    (h : parameterTest test u = true) : ∃ w c q p m x y, u.items = [.property w, .classDecl c] ∧
      q ∈ c.params ∧ c.plainParam? q.name = some q.decl ∧ p ∈ c.properties ∧ p.getter = .expr x ∧
        m ∈ c.methods ∧ m.body = .expr y ∧ x.kind = .name q.name ∧ test u q x = true := by
  unfold parameterTest at h
  split at h
  · next w c hitems =>
    split at h
    · next q p m hparams hproperties hmethods =>
      split at h
      · next x y hgetter hbody =>
        simp only [Bool.and_eq_true, beq_iff_eq] at h
        refine ⟨w, c, q, p, m, x, y, hitems, by simp [hparams], ?_, by simp [hproperties], hgetter,
          by simp [hmethods], hbody, Expr.kind_of_name? h.1.1, h.2⟩
        simp [ClassDecl.plainParam?, hparams]
      · exact absurd h Bool.false_ne_true
    · exact absurd h Bool.false_ne_true
  · exact absurd h Bool.false_ne_true

/-- A getter that consists of a name declares nothing. -/
theorem allDeclarers_of_isName {b : Body} {x : Expr} (hb : b = .expr x) (hx : x.isName) :
    b.allDeclarers = [] := by
  rw [hb, Body.allDeclarers, Body.declarers, Body.exprs, List.flatMap_singleton,
    Expr.nodes_of_isName hx, List.flatMap_singleton, Expr.declarers_of_isName hx]
  rfl

/-- In the method the name refers to the same as without the parameter, in the getter to the
parameter. -/
theorem references_in_class_parameterText : ∃ u v, ∃ q : Param, ∃ x y,
    SourceUnit.ofText parameterText = .ok u ∧ x ∈ u.exprs ∧ y ∈ u.exprs ∧
      (ofUnit u).references[x.id]? = some q.decl ∧
        (ofUnit u).references[y.id]? = (ofUnit v).references[y.id]? ∧
          (ofUnit u).references[y.id]? ≠ some q.decl := by
  obtain ⟨u, hu, h⟩ : ∃ u, SourceUnit.ofText parameterText = .ok u ∧
      parameterTest (fun _ _ _ => true) u = true := by
    refine SourceUnit.exists_ofText (Token.eq_ofList_append rfl rfl) ?_
    decide +kernel
  obtain ⟨w, c, q, p, m, x, y, hitems, hq, hlast, hp, hgetter, hm, hbody, hk, -⟩ :=
    exists_of_parameterTest h
  let v : SourceUnit := ⟨[.property w, .classDecl c.withoutParams], []⟩
  have hv : v.items = [.property w] ++ .classDecl c.withoutParams :: [] := rfl
  obtain ⟨hmethods, hgetters⟩ := references_in_class hu hitems hv
  have hc : .classDecl c ∈ u.items := by simp [hitems]
  have hname : x.isName := by simp [Expr.isName, hk]
  have hxroot : x ∈ (Item.classDecl c).roots := by
    refine List.mem_append_left _ (List.mem_append_right _ (List.mem_flatMap.2 ⟨p, hp, ?_⟩))
    simp [PropertyDecl.exprs, hgetter, Body.exprs]
  have hybody : y ∈ m.exprs := by
    obtain ⟨_, _, _, _, _, _, _, _⟩ := m
    obtain rfl := hbody
    exact List.mem_append_right _ (List.mem_singleton_self y)
  have hyroot : y ∈ (Item.classDecl c).roots :=
    List.mem_append_right _ (List.mem_flatMap.2 ⟨m, hm, hybody⟩)
  have hcalled : ¬u.Calls x := by
    refine ((SourceUnit.mem_occurrences_false (SourceUnit.nodup_ids_of_ofText hu)).1 ?_).2
    exact List.mem_append_left _ (List.mem_map_of_mem (List.mem_flatMap.2 ⟨_, hc, hxroot⟩))
  obtain ⟨hsame, hne⟩ := hmethods m hm y (List.mem_flatMap.2 ⟨y, hybody, y.mem_nodes_self⟩)
  have hx : x ∈ p.getter.exprs.flatMap Expr.nodes := by
    simp [hgetter, Body.exprs, Expr.mem_nodes_self]
  refine ⟨u, v, q, x, y, hu, SourceUnit.mem_exprs.2 ⟨_, hc, x, hxroot, x.mem_nodes_self⟩,
    SourceUnit.mem_exprs.2 ⟨_, hc, y, hyroot, y.mem_nodes_self⟩, ?_, hsame, hne q hq⟩
  rcases hgetters p hp x hx q.name hk hcalled with ⟨-, z, hz, -⟩ | ⟨h, -⟩
  · rw [allDeclarers_of_isName hgetter hname] at hz
    exact absurd hz List.not_mem_nil
  · rw [h, hlast, Option.some_or]

/-- In a getter a name refers to a parameter of the constructor that is no property. -/
theorem references_getter_parameterText : ∃ u c p, ∃ q : Param, ∃ x,
    SourceUnit.ofText parameterText = .ok u ∧ .classDecl c ∈ u.items ∧ p ∈ c.properties ∧
      p.getter = .expr x ∧ x.kind = .name q.name ∧ q ∈ c.params ∧
        (ofUnit u).references[x.id]? = some q.decl := by
  obtain ⟨u, hu, h⟩ : ∃ u, SourceUnit.ofText parameterText = .ok u ∧
      parameterTest (fun u q x => (ofUnit u).references[x.id]? == some q.decl) u = true := by
    refine SourceUnit.exists_ofText (Token.eq_ofList_append rfl rfl) ?_
    decide +kernel
  obtain ⟨w, c, q, p, m, x, y, hitems, hq, -, hp, hgetter, -, -, hk, hrefers⟩ :=
    exists_of_parameterTest h
  exact ⟨u, c, p, q, x, hu, by simp [hitems], hp, hgetter, hk, hq, beq_iff_eq.1 hrefers⟩

end Resolution

end FrameCheck
