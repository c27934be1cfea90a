import FrameCheck.Proofs.Inference.Acyclic

/-!
# Types that are asked for one after another

The types of several expressions are asked for in their order, each of the memo that the questions
before it leave (`Queries.Typed`). On a unit where nothing leads back the order makes no
difference : every expression has the type that a fresh memo gives.

* `Acyclic.typed` : the types of expressions, in any order.
-/

namespace FrameCheck

namespace Queries

/-- Asked one after another, the expressions have these types. -/
def Typed (q : Queries) : Memo → List (Expr × Option TypeRef) → Prop
  | _, [] => True
  | m, (e, t) :: rest => ∃ m', q.type e m = some (t, m') ∧ q.Typed m' rest

theorem typed_of_mapM {q : Queries} : ∀ {es : List (Expr × Option TypeRef)} {m m' : Memo},
    (es.map Prod.fst).mapM q.type m = some (es.map Prod.snd, m') → q.Typed m es
  | [], _, _, _ => trivial
  | (e, t) :: es, m, m', h => by
    rw [List.map_cons, List.map_cons, List.mapM_cons] at h
    obtain ⟨t', m₁, he, h⟩ := Query.bind_eq_some.1 h
    obtain ⟨ts, m₂, hes, h⟩ := Query.bind_eq_some.1 h
    cases h
    exact ⟨m₁, he, typed_of_mapM hes⟩

/-- Whether the expressions have these types, from a fresh memo on. -/
def typedTest (q : Queries) (es : List (Expr × Option TypeRef)) : Bool :=
  ((es.map Prod.fst).mapM q.type Memo.empty).any fun r => r.1 == es.map Prod.snd

theorem typed_of_typedTest {q : Queries} {es : List (Expr × Option TypeRef)}
    (h : q.typedTest es = true) : q.Typed Memo.empty es := by
  rw [typedTest, Option.any_eq_true] at h
  obtain ⟨⟨ts, m'⟩, hrun, hts⟩ := h
  obtain rfl := beq_iff_eq.1 hts
  exact typed_of_mapM hrun

end Queries

/-- The type of an expression that a fresh memo gives. -/
def Program.freshType (p : Program) (e : Expr) : Option TypeRef :=
  (p.typeOf e Memo.empty).bind Prod.fst

/-- Where nothing leads back, expressions have the types of fresh memos, in whatever order they are
asked for. -/
theorem Acyclic.typed {p : Program} {u : SourceUnit} (h : Acyclic p u) {es : List Expr}
    (hes : ∀ e ∈ es, e ∈ u.exprs) {m : Memo} (hm : m.Fresh p u) (ho : m.inProgress = []) :
    p.queries.Typed m (es.map fun e => (e, p.freshType e)) := by
  induction es generalizing m with
  | nil => trivial
  | cons e es ih =>
    obtain ⟨a, ⟨m₀, hfresh⟩, hask⟩ := h.ask (q := .type e) (hes e List.mem_cons_self)
    obtain ⟨m', hrun, heffect⟩ := hask m hm ho
    obtain ⟨t, m₁, ht, hrun⟩ := Query.bind_eq_some.1 hrun
    obtain ⟨t', m₂, ht', hfresh⟩ := Query.bind_eq_some.1 hfresh
    cases hrun
    cases hfresh
    refine ⟨m', ?_, ih (fun x hx => hes x (List.mem_cons_of_mem _ hx)) heffect.fresh
      (heffect.grown.inProgress.trans ho)⟩
    rw [Program.freshType, ht', Option.bind_some]
    exact ht

end FrameCheck
