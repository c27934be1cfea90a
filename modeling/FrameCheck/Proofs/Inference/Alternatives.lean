import FrameCheck.Proofs.Inference.Followed
import FrameCheck.Proofs.Inference.Typed
import FrameCheck.Proofs.TypeRef.Widening
import Mathlib.Data.List.Induction

/-!
# The type of alternatives

An `if` with an `else` and a `when` with an `else` arm have one of several values. Their types are
joined from the first to the last : types that are alike stay as they are, nullable if one of them
is, and others are widened. But for nullability it makes no difference in which order the arms stand
(`TypeRef.map_nonNull_joined`).

Widening forgets that a value may be null. So the type of the whole is nullable exactly if from some
nullable arm on no arm widens (`TypeRef.NullKept`). Where the types are not alike, there is an order
of the arms in which the last one widens.

* `TypeRef.nullable_joined` : when the joined type is nullable.
* `Queries.merges_joined` : the rules for `if` and `when` join the types of the arms.
* `Program.type_of_alternatives` : the type of the whole, in any order of the arms.
-/

namespace FrameCheck

/-! ## Joined types -/

namespace TypeRef

variable {s t w : TypeRef} {ts rest : List TypeRef}

/-- The type of a value that has one of these types, joined from the first to the last. -/
def joined : List TypeRef → Option TypeRef
  | [] => none
  | t :: rest => rest.foldlM either t

theorem joined_append_singleton (hne : ts ≠ []) (t : TypeRef) :
    joined (ts ++ [t]) = (joined ts).bind (·.either t) := by
  obtain ⟨s, rest, rfl⟩ := List.exists_cons_of_ne_nil hne
  rw [List.cons_append, joined, joined, List.foldlM_append]
  refine bind_congr fun r => ?_
  simp only [List.foldlM_cons, List.foldlM_nil, bind_pure]

theorem either_of_alike (h : s.nonNull = t.nonNull) :
    s.either t = some (s.withNullable (s.nullable || t.nullable)) := by
  rw [either, if_pos h]

theorem map_nonNull_either : (s.either t).map nonNull = element (some s.nonNull) t := by
  rw [element]
  by_cases h : s.nonNull = t.nonNull
  · rw [either_of_alike h, if_pos h, Option.map_some, nonNull_withNullable]
  · rw [either, if_neg h, if_neg h]
    show (s.widenNumeric t).map nonNull = s.widenNumeric t
    cases hw : s.widenNumeric t with
    | none => rfl
    | some w =>
      obtain ⟨-, -, n, -, -, -, rfl⟩ := widenNumeric_eq_some_iff.1 hw
      rfl

/-- But for nullability, types are joined as those of elements are. -/
theorem map_nonNull_foldlM_either : ((rest.foldlM either t).map nonNull) =
    gathered (some t.nonNull) rest := by
  induction rest generalizing t with
  | nil => rfl
  | cons s rest ih =>
    rw [List.foldlM_cons, gathered, ← map_nonNull_either]
    cases t.either s with
    | none => rfl
    | some r => exact ih

theorem map_nonNull_joined : (joined ts).map nonNull = gathered none ts := by
  cases ts with
  | nil => rfl
  | cons t rest => exact map_nonNull_foldlM_either

theorem spans_of_joined (h : joined ts = some t) : Spans ts t.nonNull := by
  rw [← gathered_eq_some_iff, ← map_nonNull_joined, h, Option.map_some]

theorem exists_joined (h : Spans ts w) : ∃ t, joined ts = some t ∧ t.nonNull = w := by
  rw [← gathered_eq_some_iff, ← map_nonNull_joined] at h
  exact Option.map_eq_some_iff.1 h

/-- The order makes a difference to nullability only. -/
theorem map_nonNull_joined_perm {ts' : List TypeRef} (hp : ts'.Perm ts) :
    (joined ts').map nonNull = (joined ts).map nonNull := by
  refine Option.ext fun w => ?_
  rw [map_nonNull_joined, map_nonNull_joined, gathered_eq_some_iff, gathered_eq_some_iff]
  exact ⟨.perm hp.symm, .perm hp⟩

/-! ## Nullability -/

/-- From some nullable type on, all have the type `w` but for nullability, and those before, if
there are any, have it together. -/
def NullKept (ts : List TypeRef) (w : TypeRef) : Prop :=
  ∃ before t after, ts = before ++ t :: after ∧ t.nullable = true ∧
    (before = [] ∨ Spans before w) ∧ ∀ s ∈ t :: after, s.nonNull = w

theorem not_nullKept_nil : ¬NullKept [] w := by
  rintro ⟨before, t, after, h, -⟩
  simp at h

theorem NullKept.exists_nullable (h : NullKept ts w) : ∃ t ∈ ts, t.nullable = true := by
  obtain ⟨before, t, after, rfl, ht, -⟩ := h
  exact ⟨t, by simp, ht⟩

theorem NullKept.spans (h : NullKept ts w) : Spans ts w := by
  obtain ⟨before, t, after, rfl, -, rfl | hspans, hall⟩ := h
  · exact Or.inl ⟨by simp, hall⟩
  · exact hspans.append hall

/-- The last type widens, or it keeps what there is. -/
theorem nullKept_append_singleton : NullKept (ts ++ [t]) w ↔
    t.nonNull = w ∧ (NullKept ts w ∨ (t.nullable = true ∧ (ts = [] ∨ Spans ts w))) := by
  constructor
  · rintro ⟨before, s, after, h, hs, hbefore, hall⟩
    rcases List.eq_nil_or_concat after with rfl | ⟨after, r, rfl⟩
    · obtain ⟨rfl, hst⟩ := List.append_inj' h rfl
      obtain rfl := List.singleton_inj.1 hst
      exact ⟨hall t (by simp), Or.inr ⟨hs, hbefore⟩⟩
    · rw [List.concat_eq_append] at h hall
      rw [← List.cons_append, ← List.append_assoc] at h
      obtain ⟨rfl, htr⟩ := List.append_inj' h rfl
      obtain rfl := List.singleton_inj.1 htr
      exact ⟨hall t (by simp), Or.inl ⟨before, s, after, rfl, hs, hbefore,
        fun x hx => hall x (by simp at hx ⊢; tauto)⟩⟩
  · rintro ⟨ht, ⟨before, s, after, rfl, hs, hbefore, hall⟩ | ⟨hnull, hts⟩⟩
    · refine ⟨before, s, after ++ [t], by simp, hs, hbefore, fun x hx => ?_⟩
      rw [← List.cons_append] at hx
      rcases List.mem_append.1 hx with hx | hx
      · exact hall x hx
      · rw [List.mem_singleton.1 hx, ht]
    · exact ⟨ts, t, [], rfl, hnull, hts, by simpa using ht⟩

/-- The joined type is nullable exactly if from some nullable type on none widens. -/
theorem nullable_joined (h : joined ts = some t) : t.nullable = true ↔ NullKept ts t.nonNull := by
  induction ts using List.reverseRecOn generalizing t with
  | nil => cases h
  | append_singleton ts x ih =>
    rw [nullKept_append_singleton]
    by_cases hnil : ts = []
    · subst hnil
      obtain rfl : x = t := Option.some.inj h
      simp [not_nullKept_nil]
    · rw [joined_append_singleton hnil] at h
      obtain ⟨s, hs, h⟩ := Option.bind_eq_some_iff.1 h
      have hspans := spans_of_joined hs
      by_cases halike : s.nonNull = x.nonNull
      · obtain rfl := Option.some.inj ((either_of_alike halike).symm.trans h)
        have hnull : (s.withNullable (s.nullable || x.nullable)).nullable = true ↔
            s.nullable = true ∨ x.nullable = true := Bool.or_eq_true_iff
        rw [hnull, ih hs, nonNull_withNullable]
        simp only [halike.symm, hspans, or_true, and_true, true_and]
      · rw [either, if_neg halike] at h
        obtain ⟨-, -, n, -, -, -, rfl⟩ := widenNumeric_eq_some_iff.1 h
        -- The type so far is another one than that of the last, so it has no null to keep.
        refine iff_of_false Bool.false_ne_true ?_
        rintro ⟨hx, hkept | ⟨-, hts⟩⟩
        · exact halike ((hspans.unique hkept.spans).trans hx.symm)
        · exact halike ((hspans.unique (hts.resolve_left hnil)).trans hx.symm)

/-- Nothing is forgotten where nothing is widened. -/
theorem nullKept_of_alike (halike : Alike ts) (h : Spans ts w)
    (hnull : ∃ t ∈ ts, t.nullable = true) : NullKept ts w := by
  obtain ⟨t, ht, hnull⟩ := hnull
  obtain ⟨before, after, rfl⟩ := List.append_of_mem ht
  rcases h with ⟨-, hall⟩ | ⟨hnot, -⟩
  · refine ⟨before, t, after, rfl, hnull, ?_, fun s hs => hall s (List.mem_append_right _ hs)⟩
    refine or_iff_not_imp_left.2 fun hne => Or.inl ⟨hne, fun s hs => ?_⟩
    exact hall s (List.mem_append_left _ hs)
  · exact absurd halike hnot

/-- So there the joined type is nullable exactly if one of the types is. -/
theorem nullable_joined_iff (hkept : (∀ s ∈ ts, s.nullable = false) ∨ Alike ts)
    (h : joined ts = some t) : t.nullable = true ↔ ∃ s ∈ ts, s.nullable = true := by
  rw [nullable_joined h]
  refine ⟨NullKept.exists_nullable, fun ⟨s, hs, hnull⟩ => ?_⟩
  rcases hkept with hnone | halike
  · cases (hnone s hs).symm.trans hnull
  · exact nullKept_of_alike halike (spans_of_joined h) ⟨s, hs, hnull⟩

theorem joined_perm {ts' : List TypeRef} (hkept : (∀ s ∈ ts, s.nullable = false) ∨ Alike ts)
    (hp : ts'.Perm ts) : joined ts' = joined ts := by
  have hmap := map_nonNull_joined_perm hp
  cases h : joined ts with
  | none =>
    rw [h] at hmap
    exact Option.map_eq_none_iff.1 hmap
  | some t =>
    rw [h, Option.map_some] at hmap
    obtain ⟨t', ht', hnonNull⟩ := Option.map_eq_some_iff.1 hmap
    have hkept' : (∀ s ∈ ts', s.nullable = false) ∨ Alike ts' := by
      simpa only [Alike, hp.mem_iff] using hkept
    have hnull : t'.nullable = true ↔ t.nullable = true := by
      rw [nullable_joined_iff hkept' ht', nullable_joined_iff hkept h]
      simp only [hp.mem_iff]
    rw [ht', eq_of_nonNull hnonNull (Bool.eq_iff_iff.2 hnull)]

/-- Where the types are not alike, one of them widens, and it may come last. -/
theorem exists_perm_not_nullKept (halike : ¬Alike ts) (w : TypeRef) :
    ∃ ts', ts'.Perm ts ∧ ¬NullKept ts' w := by
  obtain ⟨t, ht, htw⟩ : ∃ t ∈ ts, t.nonNull ≠ w := by
    by_contra! hnone
    exact halike (alike_of_forall hnone)
  obtain ⟨before, after, rfl⟩ := List.append_of_mem ht
  refine ⟨before ++ after ++ [t], ?_, fun h => htw (nullKept_append_singleton.1 h).1⟩
  exact (List.perm_append_singleton t _).trans List.perm_middle.symm

end TypeRef

/-! ## Expressions with alternatives -/

/-- The expressions of which one gives the value : the branches of an `if` with an `else`, and those
of a `when` with an `else` arm. -/
def Expr.alternatives? (e : Expr) : Option (List Expr) :=
  match e.kind with
  | .ifElse _ thenBranch (some elseBranch) => some [thenBranch, elseBranch]
  | .whenOf _ branches =>
    if branches.any WhenBranch.isElse then some (branches.map WhenBranch.body) else none
  | _ => none

theorem Expr.mem_children_of_alternatives? {e x : Expr} {es : List Expr}
    (h : e.alternatives? = some es) (hx : x ∈ es) : x ∈ e.children := by
  unfold alternatives? at h
  split at h
  · next hk =>
    cases h
    rw [children, hk]
    exact List.mem_cons_of_mem _ hx
  · next hk =>
    split at h
    · cases h
      obtain ⟨b, hb, rfl⟩ := List.mem_map.1 hx
      rw [children, hk]
      exact List.mem_append_right _ (List.mem_flatMap.2 ⟨b, hb, by simp [WhenBranch.exprs]⟩)
    · cases h
  · cases h

namespace Queries

variable {q : Queries} {m : Memo} {arms : List (Expr × TypeRef)}

/-- An expression has the type `r` if its alternatives, asked one after another, have the types
`ts`. -/
def Merges (p : Program) (q : Queries) (ts : List TypeRef) (r : Option TypeRef) : Prop :=
  ∀ (e : Expr) (m : Memo) (arms : List (Expr × TypeRef)), arms.map Prod.snd = ts →
    e.alternatives? = some (arms.map Prod.fst) → q.Typed m (arms.map fun a => (a.1, some a.2)) →
      ∃ m', q.typeRule p e m = some (r, m')

theorem branchesType_run {s : TypeRef} {branches : List WhenBranch}
    (hb : branches.map WhenBranch.body = arms.map Prod.fst)
    (h : q.Typed m (arms.map fun a => (a.1, some a.2))) :
    ∃ m', q.branchesType (some s) branches m =
      some ((arms.map Prod.snd).foldlM TypeRef.either s, m') := by
  induction arms generalizing s m branches with
  | nil =>
    obtain rfl := List.map_eq_nil_iff.1 hb
    exact ⟨m, rfl⟩
  | cons a arms ih =>
    obtain ⟨b, branches, rfl, hba, hb⟩ := List.map_eq_cons_iff.1 hb
    obtain ⟨m', ha, h⟩ := h
    rw [branchesType, Query.bind_run, hba, ha, Option.bind_some, List.map_cons, List.foldlM_cons]
    cases hstep : s.either a.2 with
    | none => exact ⟨m', by simp only [hstep]; rfl⟩
    | some joined =>
      simp only [hstep]
      exact ih hb h

/-- The rules for `if` and `when` join the types of the arms. -/
theorem merges_joined (p : Program) (q : Queries) (ts : List TypeRef) :
    q.Merges p ts (TypeRef.joined ts) := by
  rintro e m arms rfl halt h
  unfold Expr.alternatives? at halt
  split at halt
  · next hk =>
    obtain ⟨a, arms, rfl, rfl, hrest⟩ := List.map_eq_cons_iff.1 (Option.some.inj halt).symm
    obtain ⟨b, arms, rfl, rfl, hnil⟩ := List.map_eq_cons_iff.1 hrest
    obtain rfl := List.map_eq_nil_iff.1 hnil
    obtain ⟨m₁, ha, m₂, hb, -⟩ := h
    refine ⟨m₂, ?_⟩
    simp only [typeRule, hk, ifType]
    rw [Query.bind_run, ha, Option.bind_some]
    simp only
    rw [Query.bind_run, hb, Option.bind_some]
    simp [TypeRef.joined, Query.pure_run]
  · next hk =>
    split at halt
    · next helse =>
      simp only [typeRule, hk, helse, if_true]
      cases arms with
      | nil =>
        obtain rfl := List.map_eq_nil_iff.1 (Option.some.inj halt)
        exact ⟨m, rfl⟩
      | cons a arms =>
        obtain ⟨b, branches, rfl, hba, hb⟩ := List.map_eq_cons_iff.1 (Option.some.inj halt)
        obtain ⟨m', ha, h⟩ := h
        rw [branchesType, Query.bind_run, hba, ha, Option.bind_some]
        exact branchesType_run hb h
    · cases halt
  · cases halt

end Queries

/-! ## The type of the whole -/

namespace Program

variable {p : Program} {e : Expr} {ts : List TypeRef} {r t : Option TypeRef} {m m' : Memo}

/-- Where the question for the type has an answer, it is the one that the alternatives give. -/
theorem typeOf_of_merges {arms : List (Expr × TypeRef)} (h : p.queries.Merges p ts r)
    (hts : arms.map Prod.snd = ts) (halt : e.alternatives? = some (arms.map Prod.fst))
    (harms : p.queries.Typed m (arms.map fun a => (a.1, some a.2)))
    (hrun : p.typeOf e m = some (t, m')) : t = r := by
  obtain ⟨m'', hrule⟩ := h e m arms hts halt harms
  cases (Queries.type_succ hrun).symm.trans hrule
  rfl

/-- Where nothing leads back, the types that the alternatives have by themselves give the type of
the whole. -/
theorem freshType_of_alternatives {u : SourceUnit} (h : Acyclic p u) (he : e ∈ u.exprs)
    {arms : List (Expr × TypeRef)} (halt : e.alternatives? = some (arms.map Prod.fst))
    (harms : ∀ a ∈ arms, p.freshType a.1 = some a.2) :
    p.freshType e = TypeRef.joined (arms.map Prod.snd) := by
  have hparts : ∀ x ∈ arms.map Prod.fst, x ∈ u.exprs := fun x hx =>
    SourceUnit.nodes_subset_exprs he (Expr.mem_nodes.2 (Or.inl
      (Expr.mem_parts_of_mem_children (Expr.mem_children_of_alternatives? halt hx))))
  have htyped := h.typed hparts (Memo.Justified.empty ..) rfl
  have hmap : (arms.map Prod.fst).map (fun x => (x, p.freshType x)) =
      arms.map fun a => (a.1, some a.2) := by
    rw [List.map_map]
    exact List.map_congr_left fun a ha => Prod.ext rfl (harms a ha)
  rw [hmap] at htyped
  obtain ⟨a, ⟨m₀, hfresh⟩, -⟩ := h.ask (q := .type e) he
  obtain ⟨t, m₁, ht, -⟩ := Query.bind_eq_some.1 hfresh
  rw [freshType, ht, Option.bind_some]
  exact typeOf_of_merges (Queries.merges_joined p p.queries _) rfl halt htyped ht

/-- The alternatives of the expression have the types `ts` in a fresh memo, and the whole has the
type `t` there. -/
def Joins (p : Program) (e : Expr) (ts : List TypeRef) (t : Option TypeRef) : Prop :=
  ∃ (arms : List (Expr × TypeRef)) (m : Memo), arms.map Prod.snd = ts ∧
    e.alternatives? = some (arms.map Prod.fst) ∧
    p.queries.Typed Memo.empty (arms.map fun a => (a.1, some a.2)) ∧
    p.typeOf e Memo.empty = some (t, m)

theorem Joins.eq (h : p.Joins e ts t) (hr : p.queries.Merges p ts r) : t = r := by
  obtain ⟨arms, m, hts, halt, harms, hrun⟩ := h
  exact typeOf_of_merges hr hts halt harms hrun

/-- Whether the alternatives have these types, and the test holds of the type of the whole. -/
def joinTest (p : Program) (ts : List TypeRef) (test : Option TypeRef → Bool) (e : Expr) : Bool :=
  match e.alternatives? with
  | none => false
  | some es => es.length == ts.length &&
    p.queries.typedTest ((es.zip ts).map fun a => (a.1, some a.2)) &&
      (p.typeOf e Memo.empty).any fun r => test r.1

theorem joins_of_joinTest {test : Option TypeRef → Bool} (h : p.joinTest ts test e = true) :
    ∃ t, p.Joins e ts t ∧ test t = true := by
  unfold joinTest at h
  split at h
  · cases h
  · next es halt =>
    simp only [Bool.and_eq_true, beq_iff_eq, Option.any_eq_true] at h
    obtain ⟨⟨hlength, htyped⟩, ⟨t, m⟩, hwhole, htest⟩ := h
    have hes : (es.zip ts).map Prod.fst = es := List.map_fst_zip (Nat.le_of_eq hlength)
    exact ⟨t, ⟨es.zip ts, m, List.map_snd_zip (Nat.le_of_eq hlength.symm), hes.symm ▸ halt,
      Queries.typed_of_typedTest htyped, hwhole⟩, htest⟩

/-- Whatever the types of the arms are, there is one type for an `if` or a `when` with such arms, or
none. But for nullability it is the one that they all have, or else the widest of numeric types, and
so it is the same in every order. It is nullable exactly if from some nullable arm on none widens.
So it is nullable exactly if an arm is, and the same in every order, if no arm is nullable or the
types are alike ; and where they are not alike, there is an order in which it is not nullable. -/
theorem type_of_alternatives (p : Program) (q : Queries) (ts : List TypeRef) :
    ∃ r, q.Merges p ts r ∧ (∀ w, r.map TypeRef.nonNull = some w ↔ TypeRef.Spans ts w) ∧
      (∀ ts', ts'.Perm ts → ∃ r', q.Merges p ts' r' ∧
        r'.map TypeRef.nonNull = r.map TypeRef.nonNull) ∧
      ∀ t, r = some t → (t.nullable = true ↔ TypeRef.NullKept ts t.nonNull) ∧
        ((∀ s ∈ ts, s.nullable = false) ∨ TypeRef.Alike ts →
          (t.nullable = true ↔ ∃ s ∈ ts, s.nullable = true) ∧
            ∀ ts', ts'.Perm ts → q.Merges p ts' (some t)) ∧
        (¬TypeRef.Alike ts → ∃ ts', ts'.Perm ts ∧
          ∃ t', q.Merges p ts' (some t') ∧ t'.nullable = false) := by
  refine ⟨_, q.merges_joined p ts, fun w => ?_, fun ts' hp => ⟨_, q.merges_joined p ts',
    TypeRef.map_nonNull_joined_perm hp⟩, fun t ht => ⟨TypeRef.nullable_joined ht, ?_, ?_⟩⟩
  · rw [TypeRef.map_nonNull_joined, TypeRef.gathered_eq_some_iff]
  · intro hkept
    refine ⟨TypeRef.nullable_joined_iff hkept ht, fun ts' hp => ?_⟩
    rw [← ht, ← TypeRef.joined_perm hkept hp]
    exact q.merges_joined p ts'
  · intro halike
    obtain ⟨ts', hp, hlost⟩ := TypeRef.exists_perm_not_nullKept halike t.nonNull
    obtain ⟨t', ht', hnonNull⟩ := TypeRef.exists_joined ((TypeRef.spans_of_joined ht).perm hp)
    refine ⟨ts', hp, t', ht' ▸ q.merges_joined p ts', Bool.eq_false_iff.2 fun hnull => hlost ?_⟩
    exact hnonNull ▸ (TypeRef.nullable_joined ht').1 hnull

/-- An `if` and a `when` over the same two columns, of which one is nullable. -/
def alikeText : String :=
  "@DataSchema\ninterface A \x7b\n    val i: Int?\n    val k: Int\n\x7d\n" ++
  "fun f(row: DataRow<A>) \x7b\n    val x = if (row.k > 0) row.i else row.k\n" ++
  "    val y = when \x7b\n        row.k > 0 -> row.k\n        else -> row.i\n    \x7d\n\x7d\n"

/-- Both are nullable there. -/
theorem type_of_alternatives_alikeText :
    ∃ u, SourceUnit.ofText alikeText = .ok u ∧
      let int := TypeRef.simple "Int"
      (∃ e ∈ u.exprs, (ofUnit u).Joins e [int.withNullable true, int] (int.withNullable true)) ∧
      ∃ e ∈ u.exprs, (ofUnit u).Joins e [int, int.withNullable true] (int.withNullable true) := by
  let int := TypeRef.simple "Int"
  let ts := [int.withNullable true, int]
  obtain ⟨u, hu, h⟩ : ∃ u, SourceUnit.ofText alikeText = .ok u ∧
      (u.exprs.any ((ofUnit u).joinTest ts fun _ => true) &&
        u.exprs.any ((ofUnit u).joinTest ts.reverse fun _ => true)) = true := by
    refine SourceUnit.exists_ofText (Token.eq_ofList_append (Token.eq_ofList_append rfl rfl) rfl) ?_
    decide +kernel
  simp only [Bool.and_eq_true, List.any_eq_true] at h
  obtain ⟨⟨e, he, hjoin⟩, e', he', hjoin'⟩ := h
  obtain ⟨r, hr, -⟩ := joins_of_joinTest hjoin
  obtain ⟨r', hr', -⟩ := joins_of_joinTest hjoin'
  have hall : ∀ t ∈ ts, t.nonNull = int := by simp [ts, int]
  obtain ⟨_, hmerges, hspans, -, hkept⟩ := type_of_alternatives (ofUnit u) (ofUnit u).queries ts
  obtain ⟨t, rfl, hnonNull⟩ := Option.map_eq_some_iff.1 ((hspans int).2 (Or.inl ⟨nofun, hall⟩))
  obtain ⟨hnull, hperm⟩ := (hkept t rfl).2.1 (Or.inr (TypeRef.alike_of_forall hall))
  obtain rfl : t = int.withNullable true :=
    TypeRef.eq_of_nonNull hnonNull (hnull.2 ⟨int.withNullable true, by simp [ts], rfl⟩)
  obtain rfl := hr.eq hmerges
  obtain rfl := hr'.eq (hperm _ ts.reverse_perm)
  exact ⟨u, hu, ⟨e, he, hr⟩, e', he', hr'⟩

/-- An `if` over a nullable and a wider column, and a `when` in two orders of its arms. -/
def wideText : String :=
  "@DataSchema\ninterface A \x7b\n    val k: Int\n    val i: Int?\n" ++
  "    val d: Double\n    val e: Double?\n\x7d\nfun f(row: DataRow<A>, b: Boolean) \x7b\n" ++
  "    val x = if (b) row.i else row.d\n    val y = when \x7b\n        b -> row.k\n" ++
  "        b -> row.d\n        b -> row.e\n        else -> row.d\n    \x7d\n" ++
  "    val z = when \x7b\n        b -> row.e\n        b -> row.k\n        b -> row.d\n" ++
  "        else -> row.d\n    \x7d\n\x7d\n"

/-- The `if` is not nullable there, and the `when` in one order only. -/
theorem not_nullable_wideText :
    ∃ u, SourceUnit.ofText wideText = .ok u ∧
      let int := TypeRef.simple "Int"
      let double := TypeRef.simple "Double"
      (∃ e ∈ u.exprs, (ofUnit u).Joins e [int.withNullable true, double] double) ∧
      (∃ e ∈ u.exprs, (ofUnit u).Joins e [int, double, double.withNullable true, double]
        (double.withNullable true)) ∧
      ∃ e ∈ u.exprs, (ofUnit u).Joins e [double.withNullable true, int, double, double] double := by
  let int := TypeRef.simple "Int"
  let double := TypeRef.simple "Double"
  obtain ⟨u, hu, h⟩ : ∃ u, SourceUnit.ofText wideText = .ok u ∧
      (u.exprs.any ((ofUnit u).joinTest [int.withNullable true, double] (· == double)) &&
        u.exprs.any ((ofUnit u).joinTest [int, double, double.withNullable true, double]
          (· == double.withNullable true)) &&
        u.exprs.any ((ofUnit u).joinTest [double.withNullable true, int, double, double]
          (· == double))) = true := by
    refine SourceUnit.exists_ofText (Token.eq_ofList_append (Token.eq_ofList_append
      (Token.eq_ofList_append (Token.eq_ofList_append (Token.eq_ofList_append rfl rfl) rfl) rfl)
      rfl) rfl) ?_
    decide +kernel
  have hexists : ∀ {ts t}, u.exprs.any ((ofUnit u).joinTest ts (· == t)) = true →
      ∃ e ∈ u.exprs, (ofUnit u).Joins e ts t := fun {ts t} h => by
    obtain ⟨e, he, h⟩ := List.any_eq_true.1 h
    obtain ⟨t', hjoins, ht'⟩ := joins_of_joinTest h
    exact ⟨e, he, beq_iff_eq.1 ht' ▸ hjoins⟩
  simp only [Bool.and_eq_true] at h
  exact ⟨u, hu, hexists h.1.1, hexists h.1.2, hexists h.2⟩

end Program

end FrameCheck
