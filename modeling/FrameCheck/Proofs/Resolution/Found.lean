import FrameCheck.Proofs.Checker.Coverage
import FrameCheck.Proofs.Resolution.Origins
import Mathlib.Logic.Relation

/-!
# Expressions that are found again

Declarations, calls and lambdas refer to expressions by id, and the checker asks by id for what it
visits. In a unit that was parsed every such id is that of an expression in the bodies of the unit,
and it leads back to the very expression that was meant.

* `Expr.mem_nodes_iff_reflTransGen` : the nodes of an expression are what children lead to.
* `Declarer.init_mem_exprs` : initializers are expressions of the unit.
* `SourceUnit.retrievable` : what is found by id, and that nothing is missed.
-/

namespace FrameCheck

/-! ## Children of children -/

/-- From child to child one comes to the nodes of an expression and nowhere else. -/
theorem Expr.mem_nodes_iff_reflTransGen {e x : Expr} :
    x ∈ e.nodes ↔ Relation.ReflTransGen (fun a b : Expr => b ∈ a.children) e x := by
  constructor
  · induction e using childrenInduction with
    | step e ih =>
      intro h
      rcases mem_nodes.1 h with h | rfl
      · obtain ⟨c, hc, hx⟩ := mem_parts.1 h
        exact Relation.ReflTransGen.head hc (ih c hc hx)
      · exact Relation.ReflTransGen.refl
  · intro h
    induction h with
    | refl => exact e.mem_nodes_self
    | tail _ hchild ih =>
      exact nodes_subset_of_mem_nodes ih (mem_nodes.2 (Or.inl (mem_parts_of_mem_children hchild)))

/-! ## Initializers -/

theorem ValDecl.init_mem_exprs {v : ValDecl} {e : Expr} (h : v.init = some e) : e ∈ v.exprs :=
  v.exprs_eq ▸ List.mem_append_left _ (Option.mem_toList.2 h)

namespace Declarer

variable {x : Declarer} {e : Expr}

mutual

theorem init_mem_block : ∀ {b : Block}, x ∈ b.declarers → x.init? = some e → e ∈ b.exprs
  | ⟨_, _⟩, hx, he => init_mem_statements hx he

theorem init_mem_statements : ∀ {l : List Stmt}, x ∈ Stmt.declarersOf l → x.init? = some e →
    e ∈ Stmt.exprsOf l
  | s :: _, hx, he => by
    rw [Stmt.declarersOf, List.mem_append] at hx
    rw [Stmt.exprsOf, List.mem_append]
    exact hx.imp (fun hx => init_mem_statement hx he) fun hx => init_mem_statements hx he

theorem init_mem_statement : ∀ {s : Stmt}, x ∈ s.declarers → x.init? = some e → e ∈ s.exprs
  | .val v, hx, he => by
    rw [Stmt.declarers, List.mem_append, List.mem_singleton] at hx
    rcases hx with hx | rfl
    · exact init_mem_valDecl hx he
    · exact v.init_mem_exprs he
  | .function f, hx, he => by
    rcases List.mem_cons.1 hx with rfl | hx
    · cases he
    · exact init_mem_funDecl hx he

theorem init_mem_body : ∀ {b : Body}, x ∈ b.declarers → x.init? = some e → e ∈ b.exprs
  | .block b, hx, he => init_mem_block (b := b) hx he

theorem init_mem_valDecl : ∀ {v : ValDecl}, x ∈ v.declarers → x.init? = some e → e ∈ v.exprs
  | ⟨_, _, _, _, _, _, _, _, _⟩, hx, he => List.mem_append_right _ (init_mem_body hx he)

theorem init_mem_funDecl : ∀ {f : FunDecl}, x ∈ f.declarers → x.init? = some e → e ∈ f.exprs
  | ⟨_, _, _, _, _, _, _, _⟩, hx, he => by
    rcases List.mem_append.1 hx with hx | hx
    · obtain ⟨p, -, rfl⟩ := List.mem_map.1 hx
      cases he
    · exact List.mem_append_right _ (init_mem_body hx he)

end

/-- An initializer in the statements of an expression stands directly inside of it. -/
theorem init_mem_children {o : Expr} (hx : x ∈ o.declarers) (he : x.init? = some e) :
    e ∈ o.children := by
  obtain ⟨id, span, kind⟩ := o
  cases kind with
  | block b => exact init_mem_block (b := b) hx he
  | lambda ps it b =>
    simp only [Expr.declarers, List.mem_append, List.mem_cons] at hx
    rcases hx with hx | rfl | hx
    · have hnone : ∀ {ps : List LambdaParam} {index : Nat},
          x ∈ LambdaParam.declarers id index ps → x.init? = none := by
        intro ps
        induction ps with
        | nil => exact fun h => absurd h List.not_mem_nil
        | cons p ps ih =>
          intro index h
          rcases List.mem_cons.1 h with rfl | h
          · rfl
          · exact ih h
      rw [hnone hx] at he
      cases he
    · cases he
    · exact init_mem_block (b := b) hx he
  | _ => exact absurd hx List.not_mem_nil

theorem init_mem_roots {i : Item} (hx : x ∈ i.declarers) (he : x.init? = some e) :
    e ∈ i.roots := by
  cases i with
  | function f =>
    rcases List.mem_cons.1 hx with rfl | hx
    · cases he
    · exact init_mem_funDecl hx he
  | property v =>
    rcases List.mem_cons.1 hx with rfl | hx
    · exact v.init_mem_exprs he
    · exact init_mem_valDecl hx he
  | classDecl c =>
    simp only [Item.declarers, List.mem_append, List.mem_map, List.mem_flatMap, List.mem_cons,
      PropertyDecl.declarers] at hx
    simp only [Item.roots, List.mem_append, List.mem_flatMap, PropertyDecl.exprs,
      Option.mem_toList]
    rcases hx with (⟨p, -, rfl⟩ | ⟨p, hp, rfl | hx⟩) | ⟨m, hm, rfl | hx⟩
    · cases he
    · simp only [init?] at he
      split at he
      · cases he
      · exact Or.inl (Or.inr ⟨p, hp, Or.inl he⟩)
    · exact Or.inl (Or.inr ⟨p, hp, Or.inr (init_mem_body hx he)⟩)
    · cases he
    · exact Or.inr ⟨m, hm, init_mem_funDecl hx he⟩

/-- The initializers of a unit are among its expressions. -/
theorem init_mem_exprs {u : SourceUnit} (hx : x ∈ u.declarers) (he : x.init? = some e) :
    e ∈ u.exprs := by
  rcases List.mem_append.1 hx with hx | hx
  · obtain ⟨i, hi, hx⟩ := List.mem_flatMap.1 hx
    exact SourceUnit.mem_exprs.2 ⟨i, hi, e, init_mem_roots hx he, e.mem_nodes_self⟩
  · obtain ⟨o, ho, hx⟩ := List.mem_flatMap.1 hx
    exact SourceUnit.nodes_subset_exprs ho
      (Expr.mem_nodes.2 (Or.inl (Expr.mem_parts_of_mem_children (init_mem_children hx he))))

end Declarer

/-! ## What is found by id -/

theorem Resolution.exists_declarer {u : SourceUnit} {id : DeclId} {d : Declaration}
    (h : (ofUnit u).declarations[id]? = some d) :
    d.id = id ∧ ∃ x ∈ u.declarers, x.declaration? = some d := by
  obtain ⟨f, hf, hd⟩ := filled_declarations.exists_fact h
  obtain ⟨rfl, hid⟩ := declarationEntry_eq_some_iff.1 hd
  obtain ⟨x, hx, hxd⟩ := u.stems _ hf
  exact ⟨hid, x, SourceUnit.part_declares.1 hx, hxd⟩

theorem Resolution.exists_passes {u : SourceUnit} {lambda call : ExprId}
    (h : (ofUnit u).lambdaCall? lambda = some call) : ∃ c ∈ u.exprs, ∃ l ∈ u.exprs,
      c.Passes l ∧ c.id = call ∧ l.id = lambda := by
  obtain ⟨f, hf, hentry⟩ := filled_lambdaCalls.exists_fact h
  obtain rfl := lambdaCallEntry_eq_some_iff.1 hentry
  obtain ⟨c, l, b, b', hc, hl, hpasses, hcall, hlambda⟩ := u.stems _ hf
  exact ⟨c, SourceUnit.mem_exprs_of_occurs hc, l, SourceUnit.mem_exprs_of_occurs hl, hpasses, hcall,
    hlambda⟩

namespace SourceUnit

/-- What is named by an id is found again, and nothing else is. -/
structure Retrievable (u : SourceUnit) : Prop where
  /-- Exactly the expressions are found that children lead to from the bodies of the items. -/
  exprs : ∀ id e, (Resolution.ofUnit u).expr? id = some e ↔ e.id = id ∧
    ∃ i ∈ u.items, ∃ r ∈ i.roots, Relation.ReflTransGen (fun a b : Expr => b ∈ a.children) r e
  visits : ∀ v ∈ u.visits, ∀ e ∈ v.exprs, (Resolution.ofUnit u).expr? e.id = some e
  initializers : ∀ (id : DeclId) d, (Resolution.ofUnit u).declarations[id]? = some d →
    ∀ init, d.init = some init → ∃ x ∈ u.declarers, x.declaration? = some d ∧
      ∃ e, x.init? = some e ∧ (Resolution.ofUnit u).expr? init = some e
  receivers : ∀ call ∈ u.exprs, ∀ callee, (Resolution.ofUnit u).callee? call = some callee →
    ∀ id, callee.receiver = some id → ∃ f typeArgs args, call.kind = .call f typeArgs args ∧
      ∃ receiver nameSpan safe, f.kind = .member receiver callee.name nameSpan safe ∧
        (Resolution.ofUnit u).expr? id = some receiver
  lambdaCalls : ∀ lambda call, (Resolution.ofUnit u).lambdaCall? lambda = some call →
    ∃ c l, c.Passes l ∧ (Resolution.ofUnit u).expr? call = some c ∧
      (Resolution.ofUnit u).expr? lambda = some l

/-- Whatever the tokens are, the resolution of their unit knows every expression that the checker
comes to or that a declaration, a call or a lambda names by its id. -/
theorem retrievable (tokens : List Token) : (ofTokens tokens).Retrievable := by
  have hids := nodup_ids tokens
  generalize ofTokens tokens = u at hids
  have hfind : ∀ {e}, e ∈ u.exprs → (Resolution.ofUnit u).expr? e.id = some e := fun he =>
    (Resolution.expr?_eq_some_iff hids).2 ⟨he, rfl⟩
  refine ⟨fun id e => ?_, fun v hv e he => ?_, fun id d hd init hinit => ?_,
    fun call hcall callee hcallee id hid => ?_, fun lambda call h => ?_⟩
  · rw [Resolution.expr?_eq_some_iff hids, and_comm, mem_exprs]
    simp only [Expr.mem_nodes_iff_reflTransGen]
  · exact hfind (Program.mem_exprs_of_mem_visits hv he)
  · obtain ⟨-, x, hx, hxd⟩ := Resolution.exists_declarer hd
    rw [Declarer.init_of_declaration? hxd] at hinit
    obtain ⟨e, he, rfl⟩ := Option.map_eq_some_iff.1 hinit
    exact ⟨x, hx, hxd, e, he, hfind (Declarer.init_mem_exprs hx he)⟩
  · obtain ⟨f, typeArgs, args, hk, receiver, nameSpan, safe, hf, rfl⟩ :=
      Resolution.exists_receiver hcallee hid
    have hfmem : f ∈ call.children := by simp [Expr.children, hk]
    have hrmem : receiver ∈ f.children := by simp [Expr.children, hf]
    have hreceiver : receiver ∈ call.nodes := Expr.mem_nodes_iff_reflTransGen.2
      ((Relation.ReflTransGen.single hfmem).tail hrmem)
    exact ⟨f, typeArgs, args, hk, receiver, nameSpan, safe, hf,
      hfind (nodes_subset_exprs hcall hreceiver)⟩
  · obtain ⟨c, hc, l, hl, hpasses, rfl, rfl⟩ := Resolution.exists_passes h
    exact ⟨c, l, hpasses, hfind hc, hfind hl⟩

end SourceUnit

end FrameCheck
