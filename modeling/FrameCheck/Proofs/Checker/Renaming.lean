import FrameCheck.Proofs.Checker.Relabel
import FrameCheck.Proofs.Parse.Identities
import FrameCheck.Proofs.Parse.Printing

/-!
# Renaming a declaration

A declaration and the names that refer to it may be called something else that nothing in the unit
is called, the `it` of a lambda without parameters included. Then every name refers to what it did
before : a new name is looked up to the declaration, which nothing of that name hides, and any other
name is looked up past it as before. So calls are resolved alike, and the same is reported.

* `SourceUnit.rename` : the unit with a declaration renamed.
* `SourceUnit.suits_renamer` : the names are looked up alike.
* `SourceUnit.check_rename` : nothing else changes.
-/

namespace FrameCheck

/-- A `val`, a parameter or a property of the top level. The properties of classes are columns, and
functions have names of their own. -/
def Declarer.isRenameable : Declarer → Bool
  | topLevel _ | localVal _ | param _ | plainParam _ | lambdaParam .. => true
  | classMember _ | implicitIt .. | function _ | method _ => false

namespace SourceUnit

/-- The declaration and the names that refer to it are called `fresh`. -/
def renamer (u : SourceUnit) (d : DeclId) (fresh : String) : Relabel where
  span s := s
  name x n := if (Resolution.ofUnit u).references[x]? = some d then fresh else n
  declared k n := if k = d then fresh else n

def rename (u : SourceUnit) (d : DeclId) (fresh : String) : SourceUnit :=
  u.relabel (u.renamer d fresh)

/-- Nothing in the unit has the name, neither an expression nor what an expression may refer to. -/
structure Avoids (u : SourceUnit) (name : String) : Prop where
  exprs : ∀ e ∈ u.exprs, e.kind ≠ .name name
  declarers : ∀ x ∈ u.declarers, ∀ d, x.declaration? = some d → d.name ≠ name

end SourceUnit

/-- No fact has the name. -/
def Fact.avoids (name : String) : Fact → Bool
  | .expr ⟨_, _, .name n⟩ => n != name
  | .declares d => d.name != name
  | _ => true

theorem SourceUnit.avoids_of_facts {u : SourceUnit} {name : String}
    (h : ∀ x ∈ u.facts, x.avoids name) : u.Avoids name where
  exprs e he hk := by
    have hfact := h _ (expr_mem_facts.2 he)
    obtain ⟨id, span, kind⟩ := e
    obtain rfl : kind = .name name := hk
    simp [Fact.avoids] at hfact
  declarers x hx d hd hn := by
    have hfact := h _ (declares_mem_facts.2 ⟨x, hx, hd⟩)
    simp [Fact.avoids, hn] at hfact

/-! ## Looking up -/

/-- Where nothing has the new name, the names that were looked up to `d` are looked up to it under
the new name, and all others as before. -/
theorem lookup_renamed {fresh n : String} (hn : n ≠ fresh) (d : DeclId) :
    ∀ {names : List (String × DeclId)}, (∀ p ∈ names, p.1 ≠ fresh) →
      (names.map fun p => (if p.2 = d then fresh else p.1, p.2)).lookup
        (if names.lookup n = some d then fresh else n) = names.lookup n
  | [], _ => rfl
  | (m, k) :: names, h => by
    rw [List.forall_mem_cons] at h
    have ih := lookup_renamed hn d h.2
    have hm : m ≠ fresh := h.1
    rw [List.map_cons, List.lookup_cons, List.lookup_cons]
    by_cases hmn : n = m
    · subst hmn
      by_cases hk : k = d <;> simp [hk]
    · rw [beq_eq_false_iff_ne.2 hmn]
      dsimp only
      by_cases hd : names.lookup n = some d
      · rw [if_pos hd] at ih ⊢
        by_cases hk : k = d
        · simp [hk, hd]
        · rw [if_neg hk, beq_eq_false_iff_ne.2 (Ne.symm hm)]
          exact ih
      · rw [if_neg hd] at ih ⊢
        by_cases hk : k = d
        · rw [if_pos hk, beq_eq_false_iff_ne.2 hn]
          exact ih
        · rw [if_neg hk, beq_eq_false_iff_ne.2 hmn]
          exact ih

namespace SourceUnit

variable {u : SourceUnit}

/-- In sight at the top level are the properties of the top level. -/
theorem exists_of_mem_names_scope {n : String × DeclId} (h : n ∈ u.scope.names) :
    ∃ v, .property v ∈ u.items ∧ (v.name, v.decl) = n := by
  rw [scope_eq] at h
  have hfold : ∀ {l : List Item} {sc : Scope}, n ∈ (l.foldl Scope.withItem sc).names →
      n ∈ sc.names ∨ ∃ v, .property v ∈ l ∧ (v.name, v.decl) = n := by
    intro l
    induction l with
    | nil => exact fun h => Or.inl h
    | cons i l ih =>
      intro sc h
      rcases ih h with h | ⟨v, hv, hn⟩
      · cases i with
        | property v =>
          rcases List.mem_cons.1 h with rfl | h
          · exact Or.inr ⟨v, List.mem_cons_self, rfl⟩
          · exact Or.inl h
        | classDecl | function => exact Or.inl h
      · exact Or.inr ⟨v, List.mem_cons_of_mem i hv, hn⟩
  exact (hfold h).resolve_left List.not_mem_nil

/-- What a call starts with refers to nothing : functions have names of their own. -/
theorem references_called (hu : (u.exprs.map Expr.id).Nodup) {x callee : Expr} (hx : x ∈ u.exprs)
    {typeArgs : List TypeRef} {args : List Argument} (hk : x.kind = .call callee typeArgs args) :
    (Resolution.ofUnit u).references[callee.id]? = none := by
  rw [Option.eq_none_iff_forall_ne_some]
  intro d hd
  rw [Resolution.references_eq_some_iff hu] at hd
  obtain ⟨⟨e, he, -, hid⟩, -⟩ := u.stems _ hd
  have hcalled : callee ∈ u.exprs := nodes_subset_exprs hx
    (Expr.mem_nodes.2 (Or.inl (Expr.mem_parts_of_mem_children (by simp [Expr.children, hk]))))
  have hcallee : e = callee := List.inj_on_of_nodup_map hu (mem_exprs_of_occurs he) hcalled hid
  have hfalse : (e, false) ∈ u.occurrences := u.occurrences_eq ▸ he
  exact ((mem_occurrences_false hu).1 hfalse).2 ⟨x, hx, typeArgs, args, hcallee ▸ hk⟩

/-! ## The renamed unit -/

section

variable (hu : (u.exprs.map Expr.id).Nodup) (hds : (u.allDeclarers.map Declarer.id).Nodup)
  {x : Declarer} (hx : x ∈ u.allDeclarers) (hr : x.isRenameable) {fresh : String}

include hds hx hr in
/-- What is no name to be renamed is another declarer. -/
theorem id_ne_of_not_isRenameable {y : Declarer} (hy : y ∈ u.declarers) (h : y.isRenameable = false) :
    y.id ≠ x.id := fun hid => by
  have hall := u.declarers_sublist_allDeclarers.subset hy
  rw [List.inj_on_of_nodup_map hds hall hx hid, hr] at h
  cases h

include hu in
/-- Each name is looked up to what it was. -/
theorem keeps_renamer (hfresh : u.Avoids fresh) (d : DeclId) : (u.renamer d fresh).Keeps
    (fun sc => u.items.flatMap Item.globalFacts ++ u.items.flatMap fun i => i.facts sc) u.scope := by
  intro e n t hk ht hdeclared
  have hrefers : (Resolution.ofUnit u).references[e.id]? = some d
      ↔ (t u.scope).names.lookup n = some d := by
    rw [Resolution.references_eq_some_iff hu]
    exact (Covers.unit u).refers_iff (fun sc => u.tells_in sc) (nodup_nodes hu) ht hk u.scope d
  have hn : n ≠ fresh := by
    rintro rfl
    exact hfresh.exprs e (expr_mem_facts.1 (ht.subset u.scope (e.expr_mem_facts _))) hk
  have hnames : ∀ p ∈ (t u.scope).names, p.1 ≠ fresh := by
    intro p hp
    obtain ⟨y, hy, d', hd', rfl⟩ : ∃ y ∈ u.declarers, ∃ d', y.declaration? = some d' ∧
        (d'.name, d'.id) = p := by
      rcases hdeclared u.scope p hp with hp | ⟨d', hd', hp⟩
      · obtain ⟨v, hv, rfl⟩ := exists_of_mem_names_scope hp
        exact ⟨.topLevel v, List.mem_append_left _ (List.mem_flatMap.2 ⟨_, hv, List.mem_cons_self⟩),
          _, rfl, rfl⟩
      · obtain ⟨y, hy, hyd⟩ := declares_mem_facts.1 hd'
        exact ⟨y, hy, d', hyd, hp⟩
    exact hfresh.declarers y hy d' hd'
  rw [Scope.lookup?, Scope.lookup?, ← lookup_renamed hn d hnames]
  simp only [renamer, hrefers]
  rfl

include hu hds hx hr in
theorem suits_renamer (hfresh : u.Avoids fresh) : u.Suits (u.renamer x.id fresh) where
  spares := by
    refine ⟨fun e he callee typeArgs args n hk hn => ?_, fun e he it body hk => ?_⟩
    · simp [renamer, references_called hu he hk]
    · have hit : .implicitIt e.id true it ∈ u.declarers :=
        List.mem_append_right _ (List.mem_flatMap.2 ⟨e, he, by simp [Expr.declarers, hk]⟩)
      exact if_neg (id_ne_of_not_isRenameable hds hx hr hit rfl)
  properties c hc p hp := by
    have hmember : .classMember p ∈ u.declarers := List.mem_append_left _
      (List.mem_flatMap.2 ⟨_, hc, List.mem_append_left _ (List.mem_append_right _
        (List.mem_flatMap.2 ⟨p, hp, List.mem_cons_self⟩))⟩)
    exact if_neg (id_ne_of_not_isRenameable hds hx hr hmember rfl)
  keeps := keeps_renamer hu hfresh x.id

end

end SourceUnit

/-- The resolutions tell alike what names refer to, what is assigned, which call a lambda is passed
to, and what is called where. -/
structure Resolution.Alike (r r' : Resolution) : Prop where
  references : r'.references = r.references
  assigned : r'.assigned = r.assigned
  lambdaCalls : r'.lambdaCalls = r.lambdaCalls
  callees : ∀ id, (r'.expr? id).bind r'.callee? = (r.expr? id).bind r.callee?

theorem Resolution.Relabels.alike {g : Relabel} {r r' : Resolution} (h : Relabels g r r') :
    Alike r r' where
  references := h.references
  assigned := h.assigned
  lambdaCalls := h.lambdaCalls
  callees id := by
    rw [h.expr?]
    cases r.expr? id with
    | none => rfl
    | some e => exact h.callee? e

namespace SourceUnit

theorem Suits.check_relabel {g : Relabel} {u : SourceUnit} (h : u.Suits g) (hspan : g.span = id)
    (text : String) (options : CheckerOptions) :
    (u.relabel g).check text options = u.check text options := by
  have hfindings : List.map (Finding.respan g.span) = id := by
    rw [hspan]
    exact List.map_id_fun
  rw [check_eq, check_eq, found_relabel h, hfindings, Option.map_id_fun, id]

/-- Nothing depends on how a declaration is called : with another name that nothing in the unit has,
names refer to what they did, calls are resolved as they were, and the same is reported. -/
theorem check_rename (tokens : List Token) {x : Declarer} (hx : x ∈ (ofTokens tokens).allDeclarers)
    (hr : x.isRenameable) {fresh : String} (hfresh : (ofTokens tokens).Avoids fresh) :
    (Resolution.ofUnit (ofTokens tokens)).Alike
        (Resolution.ofUnit ((ofTokens tokens).rename x.id fresh)) ∧
      ∀ text options, ((ofTokens tokens).rename x.id fresh).check text options
        = (ofTokens tokens).check text options := by
  have hsuits := suits_renamer (nodup_ids tokens) (nodup_allDeclarers tokens) hx hr hfresh
  exact ⟨(Resolution.Relabels.ofUnit hsuits).alike, hsuits.check_relabel rfl⟩

/-- A parameter that is read in a lambda without parameters. -/
def readText : String :=
  "@DataSchema\ninterface P \x7b\n    val a: Int\n\x7d\n" ++
  "fun f(df: DataFrame<P>) \x7b\n    g \x7b df.missing \x7d\n\x7d\n"

/-- Whether the unit has a class and a function with one parameter, for which the test holds. -/
def readTest (test : Param → Bool) (u : SourceUnit) : Bool :=
  match u.items with
  | [.classDecl _, .function f] =>
    match f.params with
    | [p] => test p
    | _ => false
  | _ => false

theorem exists_of_readTest {test : Param → Bool} {u : SourceUnit} (h : u.readTest test = true) :
    ∃ p, .param p ∈ u.allDeclarers ∧ test p = true := by
  unfold readTest at h
  split at h
  · next c f hitems =>
    split at h
    · next p hparams =>
      refine ⟨p, List.mem_append_left _ (List.mem_flatMap.2 ⟨.function f, by simp [hitems], ?_⟩), h⟩
      obtain ⟨_, _, _, ps, _, _, _, _⟩ := f
      obtain rfl := hparams
      exact List.mem_cons_of_mem _ List.mem_cons_self
    · exact absurd h Bool.false_ne_true
  · exact absurd h Bool.false_ne_true

/-- The parameter may be called `data`, and the one diagnostic stays. -/
theorem check_rename_readText : ∃ u p ds, ofText readText = .ok u ∧ .param p ∈ u.allDeclarers ∧
    u.Avoids "data" ∧ (Resolution.ofUnit u).Alike (Resolution.ofUnit (u.rename p.decl "data")) ∧
      (u.rename p.decl "data").check readText {} = some ds ∧ ds.length = 1 := by
  obtain ⟨u, hu, h⟩ : ∃ u, ofText readText = .ok u ∧ (u.readTest (fun _ => true) &&
      u.facts.all (Fact.avoids "data") &&
        (u.check readText {}).any fun ds => ds.length == 1) = true := by
    refine exists_ofText (Token.eq_ofList_append rfl rfl) ?_
    decide +kernel
  simp only [Bool.and_eq_true, List.all_eq_true, Option.any_eq_true, beq_iff_eq] at h
  obtain ⟨⟨hread, hfacts⟩, ds, hds, hlength⟩ := h
  obtain ⟨p, hp, -⟩ := exists_of_readTest hread
  have hfresh := avoids_of_facts hfacts
  obtain ⟨tokens, rfl⟩ := exists_tokens_of_ofText hu
  obtain ⟨halike, hcheck⟩ := check_rename tokens hp rfl hfresh
  exact ⟨_, p, ds, hu, hp, hfresh, halike, (hcheck readText {}).trans hds, hlength⟩

/-- The text has no `it`. A parameter that is called so is hidden by that of the lambda : the name
refers to another declaration, and nothing is reported. -/
theorem not_check_rename_readText : ∃ ts p, Token.scan readText = .ok ts ∧
    (∀ t ∈ ts, t.kind ≠ .name "it") ∧ .param p ∈ (ofTokens ts).allDeclarers ∧
      (Resolution.ofUnit ((ofTokens ts).rename p.decl "it")).references
        ≠ (Resolution.ofUnit (ofTokens ts)).references ∧
      ((ofTokens ts).rename p.decl "it").check readText {} ≠ (ofTokens ts).check readText {} := by
  obtain ⟨ts, hts, h⟩ : ∃ ts, Token.scan readText = .ok ts ∧
      ((ts.all fun t => !t.kind.isName "it") && (ofTokens ts).readTest fun p =>
        let u := (ofTokens ts).rename p.decl "it"
        (Resolution.ofUnit u).references.toList
            != (Resolution.ofUnit (ofTokens ts)).references.toList &&
          u.check readText {} != (ofTokens ts).check readText {}) = true := by
    rw [show readText = String.ofList _ from Token.eq_ofList_append rfl rfl]
    refine Token.exists_scan rfl ?_
    decide +kernel
  simp only [Bool.and_eq_true, List.all_eq_true, Bool.not_eq_true'] at h
  obtain ⟨hit, hread⟩ := h
  obtain ⟨p, hp, hne⟩ := exists_of_readTest hread
  simp only [Bool.and_eq_true, bne_iff_ne] at hne
  refine ⟨ts, p, hts, fun t ht hk => ?_, hp, fun h => hne.1 (by rw [h]), hne.2⟩
  simpa [hk, TokenKind.isName] using hit t ht

end SourceUnit

end FrameCheck
