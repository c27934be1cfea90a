import FrameCheck.Operation.Catalog
import FrameCheck.Proofs.Parse.Printing
import FrameCheck.Proofs.Resolution.Walked

/-!
# Calls of declared functions

Functions have one table under their names, and of several with one name it keeps the first that the
walk comes to : those of the top level in their order, then those in blocks. A plain call looks
for any function of its name and is never taken for an operation if one is declared. A call of a
member asks whether the one that was kept has a receiver. So a function without a receiver hides
one with a receiver that comes behind it, and calls of that are looked up as operations.

* `SourceUnit.functions` : the functions of a unit as the walk comes to them.
* `Resolution.functions_eq_find?` : what the table holds.
* `Resolution.userDefined_of_declared` : what calls of declared functions resolve to.
-/

namespace FrameCheck

def Fact.function? : Fact → Option FunDecl
  | .function f => if f.isProperty then none else some f
  | _ => none

/-- The functions of a unit, those of the top level first, as the walk comes to them. -/
def SourceUnit.functions (u : SourceUnit) : List FunDecl := u.facts.filterMap Fact.function?

theorem SourceUnit.mem_functions {u : SourceUnit} {f : FunDecl} (hf : f.isProperty = false) :
    f ∈ u.functions ↔ .function f ∈ u.declarers := by
  rw [← function_mem_facts hf, functions, List.mem_filterMap]
  constructor
  · rintro ⟨x, hx, hxf⟩
    cases x with
    | function g =>
      simp only [Fact.function?, Option.ite_none_left_eq_some, Option.some.injEq] at hxf
      exact hxf.2 ▸ hx
    | _ => cases hxf
  · exact fun h => ⟨_, h, by simp [Fact.function?, hf]⟩

namespace Resolution

theorem functions_add (r : Resolution) (x : Fact) (n : String) :
    (r.add x).functions[n]? = (r.functions[n]?).or (x.function?.filter fun f => f.name == n) := by
  cases x with
  | function f =>
    cases hf : f.isProperty with
    | true => simp [add, Fact.function?, hf]
    | false =>
      simp only [add, Fact.function?, hf, Bool.false_eq_true, if_false,
        Std.TreeMap.getElem?_insertIfNew, Std.LawfulEqOrd.compare_eq_iff_eq, Option.filter_some,
        beq_iff_eq]
      cases hn : r.functions[n]? with
      | none =>
        have hmem : n ∉ r.functions := fun h => by simp [Std.TreeMap.getElem?_eq_some_getElem h] at hn
        rw [Option.none_or]
        refine if_congr (and_iff_left_of_imp ?_) rfl rfl
        rintro rfl
        exact hmem
      | some g =>
        have hmem : n ∈ r.functions := Std.TreeMap.mem_iff_isSome_getElem?.2 (by simp [hn])
        rw [if_neg, Option.some_or]
        rintro ⟨rfl, h⟩
        exact h hmem
  | _ => simp [add, Fact.function?]

theorem functions_foldl_add (n : String) : ∀ (l : List Fact) (r : Resolution),
    (l.foldl add r).functions[n]? =
      (r.functions[n]?).or ((l.filterMap Fact.function?).find? fun f => f.name == n)
  | [], r => by simp
  | x :: l, r => by
    rw [List.foldl_cons, functions_foldl_add n l, functions_add, Option.or_assoc]
    congr 1
    cases h : x.function? with
    | none => rw [List.filterMap_cons_none h, Option.filter_none, Option.none_or]
    | some f =>
      rw [List.filterMap_cons_some h, List.find?_cons, Option.filter_some]
      cases f.name == n <;> rfl

theorem functions_foldl_addMarker (l : List ClassDecl) : ∀ r : Resolution,
    (l.foldl addMarker r).functions = r.functions := by
  induction l with
  | nil => exact fun _ => rfl
  | cons c l ih => exact fun r => ih (r.addMarker c)

/-- Of several functions with one name the first is kept. -/
theorem functions_eq_find? (u : SourceUnit) (n : String) :
    (ofUnit u).functions[n]? = u.functions.find? fun f => f.name == n := by
  rw [ofUnit, functions_foldl_addMarker, functions_foldl_add]
  simp [empty, SourceUnit.functions]

/-- The first function of the name of a declared one. -/
theorem exists_first {u : SourceUnit} {f : FunDecl} (hf : f ∈ u.functions) :
    ∃ first ∈ u.functions, (u.functions.find? fun g => g.name == f.name) = some first := by
  obtain ⟨first, h⟩ : ∃ first, (u.functions.find? fun g => g.name == f.name) = some first :=
    Option.isSome_iff_exists.1 (List.find?_isSome.2 ⟨f, hf, beq_self_eq_true f.name⟩)
  exact ⟨first, List.mem_of_find?_eq_some h, h⟩

/-- A plain call of a declared function without a receiver calls a declared function, and no
operation fits it. A call of a member with the name of a declared function with a receiver does so
exactly if the first of all functions with that name has a receiver; otherwise it is looked up like
a call of an operation. -/
theorem userDefined_of_declared (u : SourceUnit) (catalog : Catalog) {f : FunDecl}
    (hf : .function f ∈ u.declarers) (hp : f.isProperty = false) {call callee : Expr}
    {typeArgs : List TypeRef} {args : List Argument}
    (hk : call.kind = .call callee typeArgs args) :
    (f.receiver = none → callee.kind = .name f.name →
      ∃ c, (ofUnit u).callee? call = some c ∧ c.userDefined = true ∧
        ∀ kind, catalog.lookupCall kind c.name c.argCount c.userDefined = .error ⟨f.name⟩) ∧
    (f.receiver.isSome → ∀ receiver nameSpan safe,
      callee.kind = .member receiver f.name nameSpan safe →
      ∃ first ∈ u.functions, (u.functions.find? fun g => g.name == f.name) = some first ∧
        ∃ c, (ofUnit u).callee? call = some c ∧ c.userDefined = first.receiver.isSome ∧
          ∀ kind, catalog.lookupCall kind c.name c.argCount c.userDefined =
            if first.receiver.isSome then .error ⟨f.name⟩
            else catalog.lookup kind f.name args.length) := by
  obtain ⟨first, hmem, hfirst⟩ := exists_first ((SourceUnit.mem_functions hp).2 hf)
  have htable := (functions_eq_find? u f.name).trans hfirst
  constructor
  · intro _ hname
    have hcontains : (ofUnit u).functions.contains f.name = true := by
      rw [Std.TreeMap.contains_eq_isSome_getElem?, htable]
      rfl
    refine ⟨⟨f.name, none, args.length, typeArgs, true⟩, ?_, rfl, fun kind => rfl⟩
    simp only [callee?, hk, hname, hcontains]
  · intro _ receiver nameSpan safe hmember
    refine ⟨first, hmem, hfirst,
      ⟨f.name, some receiver.id, args.length, typeArgs, first.receiver.isSome⟩, ?_, rfl,
      fun kind => rfl⟩
    simp only [callee?, hk, hmember, extensionFunction?, htable, Option.filter_some]
    cases first.receiver <;> rfl

end Resolution

/-! ## Two functions with one name -/

/-- The functions of the top level. -/
def SourceUnit.topFunctions (u : SourceUnit) : List FunDecl :=
  u.items.filterMap fun i =>
    match i with
    | .function f => some f
    | _ => none

theorem SourceUnit.item_of_mem_topFunctions {u : SourceUnit} {f : FunDecl}
    (h : f ∈ u.topFunctions) : .function f ∈ u.items := by
  obtain ⟨i, hi, hf⟩ := List.mem_filterMap.1 h
  cases i with
  | function g =>
    cases hf
    exact hi
  | _ => cases hf

theorem SourceUnit.mem_declarers_of_mem_topFunctions {u : SourceUnit} {f : FunDecl}
    (h : f ∈ u.topFunctions) : .function f ∈ u.declarers :=
  List.mem_append_left _
    (List.mem_flatMap.2 ⟨_, item_of_mem_topFunctions h, List.mem_cons_self⟩)

theorem SourceUnit.mem_exprs_of_mem_topFunctions {u : SourceUnit} {f : FunDecl}
    (h : f ∈ u.topFunctions) {e : Expr} (he : e ∈ f.exprs) : e ∈ u.exprs :=
  mem_exprs.2 ⟨_, item_of_mem_topFunctions h, e, he, e.mem_nodes_self⟩

namespace Expr

/-- The name of the member that is called. -/
def calledMember? (e : Expr) : Option String :=
  match e.kind with
  | .call ⟨_, _, .member _ n _ _⟩ _ _ => some n
  | _ => none

/-- The name that is called. -/
def calledName? (e : Expr) : Option String :=
  match e.kind with
  | .call ⟨_, _, .name n⟩ _ _ => some n
  | _ => none

theorem exists_of_calledMember? {e : Expr} {n : String} (h : e.calledMember? = some n) :
    ∃ callee typeArgs args receiver nameSpan safe, e.kind = .call callee typeArgs args ∧
      callee.kind = .member receiver n nameSpan safe := by
  unfold calledMember? at h
  split at h
  · cases h
    exact ⟨_, _, _, _, _, _, ‹_›, rfl⟩
  · cases h

theorem exists_of_calledName? {e : Expr} {n : String} (h : e.calledName? = some n) :
    ∃ callee typeArgs args, e.kind = .call callee typeArgs args ∧ callee.kind = .name n := by
  unfold calledName? at h
  split at h
  · cases h
    exact ⟨_, _, _, ‹_›, rfl⟩
  · cases h

end Expr

namespace Resolution

/-- A function with a receiver, one of the same name without it, and a call of each. -/
def ownText : String :=
  "fun DataFrame<P>.head(n: Int) = n\nfun head(n: Int) = n\n" ++
  "fun g(df: DataFrame<P>) \x7b\n    df.head(1)\n    head(2)\n\x7d\n"

/-- Whether the unit declares two functions and a third one with two calls, with the names and the
receivers of the text. -/
def ownTest (u : SourceUnit) : Bool :=
  match u.topFunctions with
  | [f, f', g] =>
    match g.exprs with
    | [call, call'] => f.receiver.isSome && f'.receiver.isNone && !f.isProperty && !f'.isProperty &&
        (u.functions.find? fun h => h.name == f.name).any (·.receiver.isSome) &&
        call.calledMember? == some f.name && call'.calledName? == some f'.name
    | _ => false
  | _ => false

/-- Both calls call declared functions, and no operation fits. -/
theorem userDefined_of_declared_ownText : ∃ u call call' c c', SourceUnit.ofText ownText = .ok u ∧
    call ∈ u.exprs ∧ call' ∈ u.exprs ∧ (ofUnit u).callee? call = some c ∧ c.userDefined = true ∧
      (ofUnit u).callee? call' = some c' ∧ c'.userDefined = true ∧
        ∀ kind, (Catalog.standard.lookupCall kind c.name c.argCount c.userDefined).isOk = false ∧
          (Catalog.standard.lookupCall kind c'.name c'.argCount c'.userDefined).isOk = false := by
  obtain ⟨u, hu, h⟩ : ∃ u, SourceUnit.ofText ownText = .ok u ∧ ownTest u = true := by
    refine SourceUnit.exists_ofText (Token.eq_ofList_append rfl rfl) ?_
    decide +kernel
  unfold ownTest at h
  split at h
  · next f f' g hfunctions =>
    have hf : f ∈ u.topFunctions := by simp [hfunctions]
    have hf' : f' ∈ u.topFunctions := by simp [hfunctions]
    have hg : g ∈ u.topFunctions := by simp [hfunctions]
    split at h
    · next call call' hexprs =>
      simp only [Bool.and_eq_true, Bool.not_eq_true', Option.isNone_iff_eq_none, beq_iff_eq] at h
      obtain ⟨⟨⟨⟨⟨⟨hreceiver, hreceiver'⟩, hp⟩, hp'⟩, hany⟩, hmember⟩, hname⟩ := h
      obtain ⟨callee, _, _, _, _, _, hk, hcallee⟩ := Expr.exists_of_calledMember? hmember
      obtain ⟨callee', _, _, hk', hcallee'⟩ := Expr.exists_of_calledName? hname
      obtain ⟨first, -, hfirst, c, hc, hown, hlookup⟩ := (userDefined_of_declared u Catalog.standard
        (SourceUnit.mem_declarers_of_mem_topFunctions hf) hp hk).2 hreceiver _ _ _ hcallee
      obtain ⟨c', hc', hown', hlookup'⟩ := (userDefined_of_declared u Catalog.standard
        (SourceUnit.mem_declarers_of_mem_topFunctions hf') hp' hk').1 hreceiver' hcallee'
      have hsome : first.receiver.isSome = true := by simpa [hfirst] using hany
      refine ⟨u, call, call', c, c', hu, ?_, ?_, hc, hown.trans hsome, hc', hown', fun kind => ?_⟩
      · exact SourceUnit.mem_exprs_of_mem_topFunctions hg (by simp [hexprs])
      · exact SourceUnit.mem_exprs_of_mem_topFunctions hg (by simp [hexprs])
      · rw [hlookup, hlookup', if_pos hsome]
        exact ⟨rfl, rfl⟩
    · exact absurd h Bool.false_ne_true
  · exact absurd h Bool.false_ne_true

/-- A function without a receiver before one of the same name with it, and a call of the second. -/
def hiddenExtensionText : String :=
  "@DataSchema\ninterface P \x7b\n    val x: Int\n\x7d\nfun select(n: Int) = n\n" ++
  "fun DataFrame<P>.select(n: String) = n\n" ++
  "fun g(df: DataFrame<P>) \x7b\n    df.select(\"y\")\n\x7d\n"

/-- Whether the call of the unit has the name of its second function, and still an operation is
looked up for it and found. -/
def hiddenExtensionTest (u : SourceUnit) : Bool :=
  match u.topFunctions with
  | [_, f, g] =>
    match g.exprs with
    | [call] => f.receiver.isSome && !f.isProperty && call.calledMember? == some f.name &&
        ((ofUnit u).callee? call).any fun c => !c.userDefined &&
          (Catalog.standard.lookupCall .dataFrame c.name c.argCount c.userDefined).isOk
    | _ => false
  | _ => false

/-- A function with a receiver is declared, and a call of a member with its name is taken for an
operation. -/
theorem not_userDefined_hiddenExtensionText : ∃ u f call callee typeArgs args receiver nameSpan safe c,
    SourceUnit.ofText hiddenExtensionText = .ok u ∧ .function f ∈ u.declarers ∧
      f.isProperty = false ∧ f.receiver.isSome ∧ call ∈ u.exprs ∧
        call.kind = .call callee typeArgs args ∧
          callee.kind = .member receiver f.name nameSpan safe ∧
            (ofUnit u).callee? call = some c ∧ c.userDefined = false ∧
              (Catalog.standard.lookupCall .dataFrame c.name c.argCount c.userDefined).isOk := by
  obtain ⟨u, hu, h⟩ : ∃ u, SourceUnit.ofText hiddenExtensionText = .ok u ∧
      hiddenExtensionTest u = true := by
    refine SourceUnit.exists_ofText (Token.eq_ofList_append (Token.eq_ofList_append rfl rfl) rfl) ?_
    decide +kernel
  unfold hiddenExtensionTest at h
  split at h
  · next f' f g hfunctions =>
    have hf : f ∈ u.topFunctions := by simp [hfunctions]
    have hg : g ∈ u.topFunctions := by simp [hfunctions]
    split at h
    · next call hexprs =>
      simp only [Bool.and_eq_true, Bool.not_eq_true', beq_iff_eq, Option.any_eq_true] at h
      obtain ⟨⟨⟨hreceiver, hp⟩, hmember⟩, c, hc, hown, hlookup⟩ := h
      obtain ⟨callee, typeArgs, args, receiver, nameSpan, safe, hk, hcallee⟩ :=
        Expr.exists_of_calledMember? hmember
      exact ⟨u, f, call, callee, typeArgs, args, receiver, nameSpan, safe, c, hu,
        SourceUnit.mem_declarers_of_mem_topFunctions hf, hp, hreceiver,
        SourceUnit.mem_exprs_of_mem_topFunctions hg (by simp [hexprs]), hk, hcallee, hc, hown,
        hlookup⟩
    · exact absurd h Bool.false_ne_true
  · exact absurd h Bool.false_ne_true

end Resolution

end FrameCheck
