import FrameCheck.Proofs.Parse.Declaring

/-!
# The ids of a unit

The rules of `Allots`, followed through statements, declarations and classes. With those of
`Yields` they say what ids a unit has.

* `SourceUnit.nodup_declarers` : the ids of all declarers of a unit differ.
* `SourceUnit.wellNumbered` : no two expressions and no two declarers share an id, and the ids of
  expressions follow the trees.
-/

namespace FrameCheck

/-! ## The ids in declarations -/

/-- The arguments of annotations are no part of what is walked, and declare all the same. -/
def AnnotationEntry.declIds (as : List AnnotationEntry) : List DeclId :=
  Expr.declIds (as.flatMap args)

theorem AnnotationEntry.declIds_append (as bs : List AnnotationEntry) :
    declIds (as ++ bs) = declIds as ++ declIds bs := by
  rw [declIds, List.flatMap_append, Expr.declIds_append]
  rfl

namespace PropertyDecl

def declIds (p : PropertyDecl) : List DeclId :=
  AnnotationEntry.declIds p.annotations ++ Declarer.idsWith p.declarers p.exprs

theorem count_declIds (d : DeclId) (p : PropertyDecl) : p.declIds.count d
    = (AnnotationEntry.declIds p.annotations).count d + [p.decl].count d
      + (Expr.declIds p.init.toList).count d + p.getter.declIds.count d := by
  simp only [declIds, Declarer.idsWith, declarers, exprs, Body.declIds, List.map_cons,
    Declarer.id, Expr.declIds_append, List.count_append, List.count_cons, List.count_nil]
  omega

end PropertyDecl

/-- What an item declares, with the arguments of its annotations. -/
def Item.declIds (i : Item) : List DeclId := Declarer.idsWith i.declarers i.exprs

section

variable (d : DeclId)

theorem PropertyDecl.count_flatMap_declIds (ps : List PropertyDecl) :
    (ps.flatMap declIds).count d = (Expr.declIds (ps.flatMap annotationArgs)).count d
      + (Declarer.idsWith (ps.flatMap declarers) (ps.flatMap exprs)).count d := by
  induction ps with
  | nil => rfl
  | cons p ps ih =>
    simp only [List.flatMap_cons, declIds, annotationArgs, AnnotationEntry.declIds,
      Declarer.idsWith, List.map_append, Expr.declIds_append, List.count_append] at ih ⊢
    omega

theorem FunDecl.count_flatMap_declIds (ms : List FunDecl) :
    (ms.flatMap declIds).count d = (Declarer.idsWith
      (ms.flatMap fun m => .method m :: m.declarers) (ms.flatMap exprs)).count d := by
  induction ms with
  | nil => rfl
  | cons m ms ih =>
    simp only [List.flatMap_cons, declIds, Declarer.idsWith, List.map_append, List.map_cons,
      Declarer.id, Expr.declIds_append, List.count_append, List.count_cons] at ih ⊢
    omega

theorem Item.count_declIds_classDecl (c : ClassDecl) : (classDecl c).declIds.count d
    = (AnnotationEntry.declIds c.annotations).count d + (c.params.flatMap Param.declIds).count d
      + (c.properties.flatMap PropertyDecl.declIds).count d
      + (c.methods.flatMap FunDecl.declIds).count d := by
  have hparams : (c.params.map Declarer.plainParam).map Declarer.id = c.params.map Param.decl := by
    rw [List.map_map]
    rfl
  simp only [declIds, Declarer.idsWith, declarers, exprs, annotationArgs, roots, List.map_append,
    hparams, Expr.declIds_append, List.count_append, AnnotationEntry.declIds,
    Param.count_declIds, PropertyDecl.count_flatMap_declIds, FunDecl.count_flatMap_declIds]
  omega

end

namespace Parser

def ConstructorParam.declIds : ConstructorParam → List DeclId
  | plain p => p.declIds
  | property p => p.declIds

def Members.declIds (m : Members) : List DeclId :=
  m.properties.flatMap PropertyDecl.declIds ++ m.methods.flatMap FunDecl.declIds

/-- What constructor parameters declare is what the plain ones and the properties do. -/
theorem ConstructorParam.count_declIds (d : DeclId) (ps : List ConstructorParam) :
    (ps.flatMap ConstructorParam.declIds).count d
      = ((ps.filterMap ConstructorParam.param?).flatMap Param.declIds).count d
        + ((ps.filterMap ConstructorParam.property?).flatMap PropertyDecl.declIds).count d := by
  induction ps with
  | nil => rfl
  | cons p ps ih =>
    cases p <;>
      simp only [List.flatMap_cons, ConstructorParam.declIds, ConstructorParam.param?,
        ConstructorParam.property?, List.filterMap_cons, List.count_append] at ih ⊢ <;>
      omega

namespace Allots

variable (g : Grammar) [hg : g.Declaring]

/-! ## Functions and properties -/

theorem unparsedVal (start : Cursor) :
    Allots (Parser.unparsedVal g start) [] fun o => o.toList.flatMap ValDecl.declIds :=
  have : Forward (Parser.attempt (typeRef g)) := ⟨fun _ => Tracks.attempt inferInstance⟩
  unparsedVal_cases (P := fun p => Allots (p g) [] fun o => o.toList.flatMap ValDecl.declIds)
    (same rfl) (fun _ _ _ _ => newDecl_next fun _ => same rfl) fun _ _ _ _ =>
      past (fun _ => rfl) fun _ => skip fun _ => newDecl_next fun _ => same rfl

theorem annotations : Allots (Parser.annotations g) [] AnnotationEntry.declIds := by
  refine loop AnnotationEntry.declIds _ (fun seen => skip fun marked => ?_) []
  split
  · refine skip fun start => skip fun name => skip fun opened => ?_
    extract_lets entry
    have hentry (args : List Argument) : Allots (entry args)
        (AnnotationEntry.declIds seen ++ Expr.declIds (args.map Argument.value))
        (ofRound AnnotationEntry.declIds AnnotationEntry.declIds) := by
      refine skip fun last => skip fun _ => same ?_
      rw [ofRound, AnnotationEntry.declIds_append]
      simp [AnnotationEntry.declIds]
    split
    · exact (arguments g).behind hentry
    · exact (same (by simp)).next hentry
  · exact same rfl

theorem initializer :
    Allots (Parser.initializer g) [] fun o => Expr.declIds o.toList := by
  refine skip fun assigned => ?_
  split
  · exact skip fun _ => (expression g).map fun _ _ => Nat.le_refl _
  · exact same rfl

theorem declared {α : Type} {one : List α → Parser (List α)} {ids : List α → List DeclId}
    (h : ∀ seen, Allots (one seen) (ids seen) ids) (h0 : ids [] = []) :
    Allots (Parser.declared one) [] ids := by
  refine skip fun _ => h0 ▸ loop ids _ (fun seen => ?_) []
  refine skip fun _ => skip fun closed => ?_
  split
  · exact same rfl
  refine (h seen).next fun seen => skip fun _ => skip fun more => ?_
  split
  · exact same rfl
  · exact skip fun _ => same rfl

theorem param : Allots (Parser.param g) [] Param.declIds := by
  refine drop (annotations g) fun _ => skip fun named => ?_
  obtain ⟨name, span⟩ := named
  refine skip fun type => ?_
  refine (initializer g).next fun default => newDecl_next fun decl => skip fun last => done ?_
  intro d
  rw [Param.declIds, List.count_append, List.count_cons, List.count_singleton]

theorem body : Allots (Parser.body g) [] Body.declIds := by
  refine skip fun short => ?_
  split
  · exact skip fun _ => (expression g).map fun _ _ => Nat.le_refl _
  · exact (block g).map fun _ _ => Nat.le_refl _

theorem params : Allots
    (Parser.declared fun seen => do return seen ++ [← Parser.param g]) []
    (List.flatMap Param.declIds) :=
  declared (fun seen => (param g).behind fun p => same (by simp)) rfl

theorem funDecl : Allots (Parser.funDecl g) [] FunDecl.declIds := by
  refine skip fun _ => newDecl_next fun decl => skip fun generic => ?_
  extract_lets rest
  have hrest : Allots (rest ()) [decl] FunDecl.declIds := by
    refine skip fun (receiver, name) => (params g).behind fun ps => ?_
    refine skip fun type => skip fun k => ?_
    extract_lets made
    have hmade (b : Body) : Allots (made b)
        ([decl] ++ ps.flatMap Param.declIds ++ b.declIds) FunDecl.declIds := by
      refine skip fun last => done fun d => ?_
      rw [FunDecl.count_declIds, List.count_append, List.count_append]
    split
    · exact (body g).behind hmade
    · exact (same (by simp [Body.declIds, Declarer.idsWith, Body.declarers, Body.exprs])).next hmade
  split
  · exact skip fun _ => hrest
  · exact hrest

theorem getter : Allots (Parser.getter g) [] Body.declIds := by
  refine skip fun c => ?_
  extract_lets here
  split
  · exact past (fun _ => rfl) fun _ => skip fun _ => body g
  · exact same rfl

theorem valDecl : Allots (Parser.valDecl g) [] ValDecl.declIds := by
  refine skip fun keyword => ?_
  extract_lets mutable
  refine skip fun (receiver, name, nameSpan) => skip fun type => ?_
  refine (initializer g).next fun init => (getter g).behind fun getter => ?_
  refine newDecl_next fun decl => skip fun last => done fun d => ?_
  rw [ValDecl.count_declIds, List.count_append, List.count_append]
  show [decl].count d + (Expr.declIds init.toList).count d + getter.declIds.count d ≤ _
  omega

/-! ## Statements -/

theorem returned : Allots (Parser.returned g) [] Stmt.declIds := by
  refine skip fun start => skip fun k => ?_
  extract_lets made
  have hmade (value : Option Expr) :
      Allots (made value) (Expr.declIds value.toList) Stmt.declIds :=
    skip fun last => same rfl
  split
  · exact (same rfl).next hmade
  · exact (expression g).optional.next hmade

theorem assignment : Allots (Parser.assignment g) [] Stmt.declIds := by
  refine (expression g).next fun target => skip fun assigned => ?_
  split
  · refine skip fun _ => (expression g).behind fun value => same ?_
    rw [← Expr.declIds_append]
    rfl
  · exact same rfl

theorem statement : Allots (Parser.statement g) [] Stmt.declIds := by
  have hval : Allots (do
      let v ← Parser.valDecl g
      if v.receiver.isSome then return Stmt.function v.getterFunction else return Stmt.val v) []
      Stmt.declIds := by
    refine (valDecl g).next fun v => ?_
    split
    · exact done fun d => v.count_declIds_getterFunction d
    · exact done fun d => (Stmt.count_declIds_val d v).le
  refine skip fun k => ?_
  split
  · exact hval
  · exact hval
  · exact (funDecl g).map fun _ _ => Nat.le_refl _
  · exact returned g
  · exact assignment g

theorem statements : Allots (Parser.statements g) [] (List.flatMap Stmt.declIds) := by
  refine loop (List.flatMap Stmt.declIds) _ (fun stmts => ?_) []
  refine skip fun _ => skip fun closed => ?_
  split
  · exact same rfl
  refine skip fun k => ?_
  split
  · exact failBefore
  refine skip fun start => ?_
  have hone : Allots (do
      let stmt ← Parser.statement g
      statementEnd
      return stmt) [] Stmt.declIds := (statement g).next fun s => skip fun _ => same rfl
  refine hone.attempt.behind fun parsed => ?_
  cases parsed with
  | some stmt => exact same (by simp [ofRound])
  | none =>
    refine (unparsedVal g start).behind fun declared => past (fun _ => rfl) fun _ => done fun d => ?_
    cases declared <;> simp [ofRound, Stmt.count_declIds_val, List.count_append]

end Allots

end Parser

/-- The parsers for nested parts give out new ids, to any depth. -/
theorem Grammar.declaring_ofDepth : ∀ n, (Grammar.ofDepth n).Declaring
  | 0 => { agrees := (Grammar.forward_ofDepth 0).agrees, expr := .fail, stmts := .fail }
  | n + 1 =>
    have := Grammar.declaring_ofDepth n
    { agrees := (Grammar.forward_ofDepth (n + 1)).agrees
      expr := Parser.Allots.expression _
      stmts := Parser.Allots.statements _ }

/-! ## Classes -/

namespace Parser.Allots

variable (g : Grammar) [hg : g.Declaring]

theorem constructorParam :
    Allots (Parser.constructorParam g) [] ConstructorParam.declIds := by
  refine (annotations g).next fun as => skip fun _ => skip fun start => skip fun isVal => ?_
  extract_lets rest
  have hrest (isVar : Bool) : Allots (rest isVar) (AnnotationEntry.declIds as)
      ConstructorParam.declIds := by
    refine skip fun named => ?_
    obtain ⟨name, nameSpan⟩ := named
    refine skip fun _ => skip fun type => ?_
    refine (initializer g).behind fun default => newDecl_next fun decl => skip fun last => ?_
    extract_lets span
    split
    · refine done fun d => ?_
      rw [ConstructorParam.declIds, PropertyDecl.count_declIds, List.count_append,
        List.count_append]
      show (AnnotationEntry.declIds as).count d + [decl].count d
        + (Expr.declIds default.toList).count d + ([] : List DeclId).count d ≤ _
      rw [List.count_nil]
      omega
    · refine done fun d => ?_
      simp only [ConstructorParam.declIds, Param.declIds, List.count_append, List.count_cons,
        List.count_nil]
      omega
  split
  · exact (same rfl).next hrest
  · exact skip hrest

theorem member (others : List DeclId) (seen : Members) :
    Allots (Parser.member g seen) (others ++ seen.declIds) fun m => others ++ m.declIds := by
  refine (annotations g).behind fun as => skip fun _ => skip fun k => ?_
  have hval : Allots (do
      let v ← Parser.valDecl g
      Parser.statementEnd
      if v.receiver.isSome then
        return { seen with methods := seen.methods ++ [v.getterFunction] }
      else return { seen with properties := seen.properties ++ [⟨v.decl, as, v.mutable, v.name,
        v.nameSpan, v.type, v.init, v.getter, false, v.span⟩] })
      (others ++ seen.declIds ++ AnnotationEntry.declIds as) fun m => others ++ m.declIds := by
    refine (valDecl g).behind fun v => skip fun _ => ?_
    split
    · refine done fun d => ?_
      have := v.count_declIds_getterFunction d
      simp only [Members.declIds, List.flatMap_append, List.count_append, List.flatMap_singleton]
      omega
    · refine done fun d => ?_
      simp only [Members.declIds, List.flatMap_append, List.count_append, List.flatMap_singleton,
        PropertyDecl.count_declIds, ValDecl.count_declIds]
      omega
  split
  · exact hval
  · exact hval
  · refine (funDecl g).behind fun f => skip fun _ => done fun d => ?_
    simp only [Members.declIds, List.flatMap_append, List.count_append, List.flatMap_singleton]
    omega
  · exact fail

theorem classBody (others : List DeclId) (seen : Members) :
    Allots (Parser.classBody g seen) (others ++ seen.declIds) fun m => others ++ m.declIds := by
  refine skip fun _ => loop (fun m => others ++ m.declIds) _ (fun seen => ?_) seen
  refine skip fun _ => skip fun closed => ?_
  split
  · exact same rfl
  refine skip fun k => ?_
  split
  · exact failBefore
  refine skip fun start => (member g others seen).attempt.next fun more => ?_
  cases more with
  | some more => exact same rfl
  | none => exact past (fun _ => rfl) fun _ => same rfl

theorem constructor : Allots
    (Parser.declared fun seen => do return seen ++ [← Parser.constructorParam g]) []
    (List.flatMap ConstructorParam.declIds) :=
  declared (fun seen => (constructorParam g).behind fun p => same (by simp)) rfl

theorem classDecl (as : List AnnotationEntry) (isInterface : Bool) :
    Allots (Parser.classDecl g as isInterface) (AnnotationEntry.declIds as)
      fun c => (Item.classDecl c).declIds := by
  refine skip fun start => skip fun named => ?_
  obtain ⟨name, nameSpan⟩ := named
  refine skip fun generic => ?_
  extract_lets finish rest
  have hfinish (ps : List ConstructorParam) : Allots (finish ps)
      (AnnotationEntry.declIds as ++ ps.flatMap ConstructorParam.declIds)
      fun c => (Item.classDecl c).declIds := by
    refine skip fun supertypes => ?_
    extract_lets members made
    let others := AnnotationEntry.declIds as
      ++ (ps.filterMap ConstructorParam.param?).flatMap Param.declIds
    have hmade (m : Members) : Allots (made m) (others ++ m.declIds)
        fun c => (Item.classDecl c).declIds := by
      refine skip fun last => done fun d => ?_
      simp only [others, Item.count_declIds_classDecl, Members.declIds, List.count_append]
      omega
    have hbody : Allots (do
        let members ← if ← atMark .leftBrace then Parser.classBody g members else pure members
        made members) (others ++ members.declIds) fun c => (Item.classDecl c).declIds := by
      refine skip fun opened => ?_
      split
      · exact (classBody g others members).next hmade
      · exact (same rfl).next hmade
    refine hbody.rearrange fun d => ?_
    have := ConstructorParam.count_declIds d ps
    simp only [others, members, Members.declIds, List.count_append, List.flatMap_nil,
      List.count_nil]
    omega
  have hrest : Allots (rest ()) (AnnotationEntry.declIds as)
      fun c => (Item.classDecl c).declIds := by
    refine skip fun opened => ?_
    split
    · exact (constructor g).behind hfinish
    · exact (same (by simp)).next hfinish
  split
  · exact skip fun _ => hrest
  · exact hrest

/-! ## Items -/

theorem item : Allots (Parser.item g) [] Item.declIds := by
  refine (annotations g).next fun as => skip fun _ => skip fun k => ?_
  have hval : Allots (do
      let v ← Parser.valDecl g
      Parser.statementEnd
      if v.receiver.isSome then return Item.function v.getterFunction else return Item.property v)
      (AnnotationEntry.declIds as) Item.declIds := by
    refine (valDecl g).behind fun v => skip fun _ => ?_
    split
    · refine done fun d => (v.count_declIds_getterFunction d).trans ?_
      rw [List.count_append]
      exact Nat.le_add_left _ _
    · refine done fun d => ?_
      rw [List.count_append]
      exact Nat.le_add_left _ _
  split
  · exact (classDecl g as true).map fun _ _ => Nat.le_refl _
  · exact skip fun _ => (classDecl g as false).map fun _ _ => Nat.le_refl _
  · exact (classDecl g as false).map fun _ _ => Nat.le_refl _
  · refine (funDecl g).behind fun f => skip fun _ => done fun d => ?_
    rw [List.count_append]
    exact Nat.le_add_left _ _
  · exact hval
  · exact hval
  · exact fail

theorem items : Allots (Parser.items g) [] (List.flatMap Item.declIds) := by
  refine loop (List.flatMap Item.declIds) _ (fun seen => skip fun _ => skip fun k => ?_) []
  split
  · exact same rfl
  · exact skip fun _ => same rfl
  · exact skip fun _ => same rfl
  · refine skip fun start => (item g).attempt.behind fun made => ?_
    cases made with
    | some i => exact same (by simp [ofRound])
    | none =>
      refine (unparsedVal g start).behind fun declared => past (fun _ => rfl) fun _ => same ?_
      cases declared with
      | none => simp [ofRound]
      | some v =>
        rw [ofRound, List.flatMap_append, List.append_assoc]
        rfl

end Parser.Allots

/-! ## Units -/

theorem Expr.nodes_sublist_of_mem {es : List Expr} {e : Expr} (h : e ∈ es) :
    e.nodes.Sublist (es.flatMap nodes) := by
  simpa using (List.singleton_sublist.2 h).flatMap nodes

/-- The nodes of a node stand among the nodes of the tree, in their order. -/
theorem Expr.nodes_sublist_of_mem_nodes {e x : Expr} : x ∈ e.nodes → x.nodes.Sublist e.nodes := by
  induction e using childrenInduction with
  | step e ih =>
    intro h
    rcases mem_nodes.1 h with h | rfl
    · obtain ⟨c, hc, hx⟩ := mem_parts.1 h
      have hparts : c.nodes.Sublist e.parts := nodes_sublist_of_mem hc
      rw [nodes_eq e]
      exact ((ih c hc hx).trans hparts).trans (List.sublist_append_left _ _)
    · exact List.Sublist.refl _

namespace SourceUnit

/-- All expressions of a unit, those in annotations included. -/
def allExprs (u : SourceUnit) : List Expr := (u.items.flatMap Item.exprs).flatMap Expr.nodes

/-- What declares in a unit, also in the lambdas that annotations hold. -/
def allDeclarers (u : SourceUnit) : List Declarer :=
  u.items.flatMap Item.declarers ++ u.allExprs.flatMap Expr.declarers

theorem exprs_sublist_allExprs (u : SourceUnit) : u.exprs.Sublist u.allExprs := by
  rw [exprs_eq_flatMap]
  refine List.Sublist.flatMap ?_ Expr.nodes
  exact List.Sublist.flatMap_right _ fun i _ => List.sublist_append_right _ _

theorem declarers_sublist_allDeclarers (u : SourceUnit) :
    u.declarers.Sublist u.allDeclarers :=
  (List.Sublist.refl _).append (u.exprs_sublist_allExprs.flatMap Expr.declarers)

/-- The ids of all that declares in a unit differ. -/
theorem nodup_allDeclarers (tokens : List Token) :
    ((ofTokens tokens).allDeclarers.map Declarer.id).Nodup := by
  have hg := Grammar.declaring_ofDepth (Token.listWeight tokens)
  unfold ofTokens
  cases h : Parser.items (Grammar.ofDepth (Token.listWeight tokens)) (start tokens) with
  | failed s => exact List.nodup_nil
  | done items s =>
    have hitems : Fresh 0 s.nextDecl (items.flatMap Item.declIds) :=
      (Parser.Allots.items _).made (.nil (Nat.le_refl 0)) h
    have hperm : (items.flatMap Item.declIds).Perm
        ((SourceUnit.mk items s.skipped.reverse).allDeclarers.map Declarer.id) := by
      rw [allDeclarers, List.map_append, List.map_flatMap, allExprs, List.map_flatMap,
        List.flatMap_assoc, List.flatMap_assoc]
      refine (List.flatMap_append_perm _ _ _).symm.trans (List.Perm.of_eq ?_)
      refine congrArg₂ _ rfl (List.flatMap_congr fun i _ => ?_)
      rw [Expr.declIds, List.flatMap_assoc]
    exact hperm.nodup_iff.1 hitems.nodup

/-- The ids of what declares in the bodies of a unit differ. -/
theorem nodup_declarers (tokens : List Token) :
    ((ofTokens tokens).declarers.map Declarer.id).Nodup :=
  (nodup_allDeclarers tokens).sublist ((declarers_sublist_allDeclarers _).map _)

theorem nodup_declarers_of_ofText {text : String} {u : SourceUnit} (h : ofText text = .ok u) :
    (u.declarers.map Declarer.id).Nodup := by
  obtain ⟨tokens, rfl⟩ := exists_tokens_of_ofText h
  exact nodup_declarers tokens

/-- How the ids of a unit are given out. -/
structure WellNumbered (u : SourceUnit) : Prop where
  exprs : (u.allExprs.map Expr.id).Nodup
  declarers : (u.allDeclarers.map Declarer.id).Nodup
  /-- An expression comes behind all that is inside of it. -/
  parts : ∀ e ∈ u.allExprs, ∀ x ∈ e.parts, x.id < e.id
  /-- What is inside of an expression comes child by child. -/
  children : ∀ e ∈ u.allExprs,
    e.children.Pairwise fun a b => ∀ x ∈ a.nodes, ∀ y ∈ b.nodes, x.id < y.id

/-- Whatever the tokens are, no two expressions and no two declarers of their unit share an id, and
the ids of expressions are a numbering of the trees with each node behind its parts. -/
theorem wellNumbered (tokens : List Token) : (ofTokens tokens).WellNumbered := by
  have hrises : ∀ e ∈ (ofTokens tokens).allExprs, (e.parts ++ [e]).Pairwise fun x y => x.id < y.id := by
    intro e he
    obtain ⟨hi, fs, hp, hfs⟩ := scattered_items tokens
    have hperm := hp.flatMap_right Expr.nodes
    obtain ⟨f, hf, hef⟩ := List.mem_flatMap.1 (hperm.mem_iff.2 he)
    have hsub := (Expr.nodes_sublist_of_mem_nodes hef).trans (Expr.nodes_sublist_of_mem hf)
    rw [← Expr.nodes_eq]
    exact List.pairwise_map.1 ((Rising.pairwise hfs).sublist (hsub.map Expr.id))
  refine ⟨nodup_idsOf tokens, nodup_allDeclarers tokens, fun e he x hx => ?_, fun e he => ?_⟩
  · exact (List.pairwise_append.1 (hrises e he)).2.2 x hx e (List.mem_singleton_self e)
  · exact (List.pairwise_flatMap.1 (List.pairwise_append.1 (hrises e he)).1).2

end SourceUnit

end FrameCheck
