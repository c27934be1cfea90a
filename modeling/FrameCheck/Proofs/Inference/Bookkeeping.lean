import FrameCheck.Proofs.Inference.Failing
import Mathlib.Data.List.Sort

/-!
# What a question puts back

While a question is answered, expressions are in progress and markers are open. Whatever the memo is
that the question is asked of, when the answer is there the same expressions are in progress and
the same markers open as before, all that was remembered is remembered unchanged, and the failures
that were recorded still are, in their order (`Memo.Restored`). Nothing needs to hold of the memo
for this, and it makes no difference how deep the question leads, or whether markers or initializers
lead back to themselves: all that counts is that there is an answer.

* `MarkerQuery.ofDepth_restoring`, `Queries.ofDepth_restoring` : one pass over markers and one over
  the rules of inference.
* `Program.restored_of_ask` : a question from outside.
-/

namespace FrameCheck

/-- What was in progress or open is so again, and nothing that was recorded is changed or lost. -/
structure Memo.Restored (m m' : Memo) : Prop where
  inProgress : m'.inProgress = m.inProgress
  openMarkers : m'.openMarkers = m.openMarkers
  bindings : ∀ {id : ExprId} {b : Binding}, m.bindings[id]? = some b → m'.bindings[id]? = some b
  markers : ∀ {n : String} {s : Schema}, m.markers[n]? = some s → m'.markers[n]? = some s
  failures : m.failures.Sublist m'.failures

/-! ## The order of failures -/

/-- The failures of calls are in the order of the calls, whenever they were recorded. -/
theorem Memo.Grows.callFailures_sublist {m m' : Memo} (h : m.Grows m') :
    m.callFailures.values.Sublist m'.callFailures.values := by
  have hsubset : m.callFailures.toList ⊆ m'.callFailures.toList := fun r hr =>
    Std.TreeMap.mem_toList_iff_getElem?_eq_some.2
      (h.callFailures (Std.TreeMap.mem_toList_iff_getElem?_eq_some.1 hr))
  have hordered : ∀ m : Memo, m.callFailures.toList.Pairwise fun a b => a.1 < b.1 := fun m =>
    Std.TreeMap.ordered_keys_toList.imp fun h => Nat.compare_eq_lt.1 h
  have hnodup : m.callFailures.toList.Nodup := (hordered m).imp fun h heq => by
    rw [heq] at h
    exact Nat.lt_irrefl _ h
  have : Std.Antisymm fun a b : ExprId × Failure => a.1 < b.1 :=
    ⟨fun a b hab hba => absurd hba (Nat.lt_asymm hab)⟩
  rw [callFailures_values, callFailures_values]
  exact (List.sublist_of_subperm_of_pairwise (List.subperm_of_subset hnodup hsubset)
    (hordered m) (hordered m')).map Prod.snd

theorem Memo.Grows.failures_sublist {m m' : Memo} (h : m.Grows m') :
    m.failures.Sublist m'.failures :=
  h.markerFailures.sublist.append h.callFailures_sublist

/-! ## Questions inside of each other -/

/-- A question that puts back what it opens, and loses nothing. -/
def Query.Restoring (α : Type) (x : Unit → Query α) : Prop :=
  ∀ m a m', x () m = some (a, m') →
    m'.inProgress = m.inProgress ∧ m'.openMarkers = m.openMarkers ∧ m.Grows m'

namespace Query.Restoring

theorem compositional : Compositional Query.Restoring where
  answer a := by
    intro m b m' h
    cases h
    exact ⟨rfl, rfl, fun h => h, fun h => h, fun h => h, List.prefix_refl _⟩
  next hx hf := by
    intro m b m'' h
    obtain ⟨a, m', h, h'⟩ := Query.bind_eq_some.1 h
    obtain ⟨hp, ho, hg⟩ := hx m a m' h
    obtain ⟨hp', ho', hg'⟩ := hf a m' b m'' h'
    exact ⟨hp'.trans hp, ho'.trans ho, hg.trans hg'⟩

theorem restored {α : Type} {x : Unit → Query α} (hx : Query.Restoring α x) {m m' : Memo} {a : α}
    (h : x () m = some (a, m')) : m.Restored m' := by
  obtain ⟨hp, ho, hg⟩ := hx m a m' h
  exact ⟨hp, ho, hg.bindings, hg.markers, hg.failures_sublist⟩

end Query.Restoring

namespace MarkerQuery

open Query.Restoring

variable {names : Resolution} {schemaOf : MarkerQuery}

theorem addEntries_restoring (c : ClassDecl) (schema : Schema) (es : List Entry) :
    Query.Restoring _ fun _ => addEntries c schema es := by
  intro m s m' h
  cases (addEntries_run c es schema m).symm.trans h
  exact ⟨rfl, rfl, fun h => h, fun h => h, fun h => h, List.prefix_append _ _⟩

/-- The parts of a class ask for the schemas of other markers, and add columns. -/
theorem addParts_restoring (h : ∀ n, Query.Restoring _ fun _ => schemaOf n) (c : ClassDecl) :
    ∀ (parts : List ClassPart) (schema : Schema),
      Query.Restoring _ fun _ => parts.foldlM (addPart names schemaOf c) schema
  | [], schema => compositional.answer schema
  | part :: parts, schema => by
    simp only [List.foldlM_cons, addPart_eq]
    refine compositional.next (compositional.next ?_ fun answer => addEntries_restoring c schema _)
      fun s => addParts_restoring h c parts s
    cases part.asked? names with
    | none => exact compositional.answer none
    | some n => exact h n

/-- What an answer for a marker comes from: nothing is done, or the marker is open while its class
is read, and is remembered then. -/
theorem ofDepth_cases {depth : Nat} {n : String} {m m' : Memo} {r : Option Schema}
    (h : ofDepth names (depth + 1) n m = some (r, m')) :
    m' = m ∨ (n ∉ m.markers ∧ ∃ c s m₁,
      ofClass names (ofDepth names depth) c { m with openMarkers := n :: m.openMarkers } =
        some (s, m₁) ∧
      m' = { m₁ with openMarkers := m₁.openMarkers.tail, markers := m₁.markers.insert n s }) := by
  obtain ⟨_, _, hmemo, h⟩ := Query.bind_eq_some.1 h
  cases hmemo
  cases hm : m.markers[n]? with
  | some s =>
    rw [hm] at h
    cases h
    exact Or.inl rfl
  | none =>
    by_cases ho : n ∈ m.openMarkers
    · simp only [hm, List.contains_eq_mem, ho, decide_true, if_true] at h
      cases h
      exact Or.inl rfl
    simp only [hm, List.contains_eq_mem, ho, decide_false, Bool.false_eq_true, if_false] at h
    cases hc : names.marker? n with
    | none =>
      rw [hc] at h
      cases h
      exact Or.inl rfl
    | some c =>
      refine Or.inr ⟨by simp [Std.TreeMap.mem_iff_isSome_getElem?, hm], c, ?_⟩
      simp only [hc] at h
      obtain ⟨_, _, hopen, h⟩ := Query.bind_eq_some.1 h
      cases hopen
      obtain ⟨s, m₁, hclass, h⟩ := Query.bind_eq_some.1 h
      cases h
      exact ⟨s, m₁, hclass, rfl⟩

/-- What was opened for a marker is closed, and no schema that is remembered is replaced. -/
theorem ofDepth_restoring (names : Resolution) : ∀ (depth : Nat) (n : String),
    Query.Restoring _ fun _ => ofDepth names depth n
  | 0, n => fun _ _ _ h => nomatch h
  | depth + 1, n => by
    intro m r m' h
    rcases ofDepth_cases h with rfl | ⟨hn, c, s, m₁, hclass, rfl⟩
    · exact compositional.answer r m' r m' rfl
    rw [ofClass_eq] at hclass
    obtain ⟨hp, ho, hg⟩ := addParts_restoring (ofDepth_restoring names depth) c c.parts
      Schema.empty _ s m₁ hclass
    refine ⟨hp, by rw [ho]; rfl, hg.bindings, fun {k t} ht => ?_, hg.callFailures,
      hg.markerFailures⟩
    have hk : n ≠ k := by
      rintro rfl
      exact hn (Std.TreeMap.mem_iff_isSome_getElem?.2 (Option.isSome_of_eq_some ht))
    rw [Std.TreeMap.getElem?_insert, if_neg (by simpa using hk)]
    exact hg.markers ht

end MarkerQuery

namespace Queries

variable {p : Program} {q : Queries}

theorem applied_restoring (e : Expr) (rule : OperationRule) (operation : OperationCall) :
    Query.Restoring _ fun _ => applied e rule operation := by
  intro m b m' h
  obtain ⟨b', hrun⟩ := applied_run e rule operation
  cases (hrun m).symm.trans h
  refine ⟨Memo.recording_inProgress .., ?_, (Extends.recording m e.id _).grows⟩
  exact (Extends.recording m e.id _).openMarkers

/-- What was opened for an expression is closed, and no binding that is remembered is replaced. -/
theorem bindingRule_restoring {A : Expr → Prop} {e : Expr} (he : e.Covered p A)
    (h : Admits Query.Restoring p (fun _ => q) A) :
    Query.Restoring _ fun _ => q.bindingRule p e := by
  intro m b m' hrun
  rcases bindingRule_cases hrun with ⟨-, rfl⟩ | ⟨-, -, rfl⟩ | ⟨hb, -, m₁, hnew, rfl⟩
  · exact h.answer b m' b m' rfl
  · exact h.answer b m' b m' rfl
  have hrule := h.newBinding he fun _ _ _ _ _ rule operation => applied_restoring e rule operation
  obtain ⟨hp, ho, hg⟩ := hrule (m.opening e.id) b m₁ hnew
  refine ⟨?_, ho, fun {id c} hc => ?_, hg.markers, hg.callFailures, hg.markerFailures⟩
  · rw [Memo.closing_inProgress, hp]
    exact List.erase_cons_head ..
  · have hid : e.id ≠ id := by
      rintro rfl
      exact hb (Std.TreeMap.mem_iff_isSome_getElem?.2 (Option.isSome_of_eq_some hc))
    rw [Memo.closing_bindings, Std.TreeMap.getElem?_insert, if_neg (by simpa using hid)]
    exact hg.bindings hc

/-- Questions for expressions restore the memo, at any depth. -/
theorem ofDepth_restoring (p : Program) : ∀ depth,
    Admits Query.Restoring p (fun _ : Unit => ofDepth p depth) fun _ => True
  | 0 =>
    { Query.Restoring.compositional with
      binding := fun _ _ _ _ h => nomatch h
      type := fun _ _ _ _ h => nomatch h
      schema := MarkerQuery.ofDepth_restoring _ _ }
  | depth + 1 =>
    have h := ofDepth_restoring p depth
    { Query.Restoring.compositional with
      binding := fun {e} _ => bindingRule_restoring (e.covered_true p) h
      type := fun {e} _ => h.typeRule (e.covered_true p) (h.binding trivial)
      schema := MarkerQuery.ofDepth_restoring _ _ }

end Queries

/-! ## Questions from outside -/

namespace Program

variable {p : Program}

/-- A question that is answered restores the memo, whatever memo it is asked of: one that other
questions have left, or one in the middle of them. -/
theorem restored_of_ask {depth : Nat} {q : Question} {m m' : Memo} {a : Answer}
    (h : p.askWithin depth q m = some (a, m')) : m.Restored m' :=
  ((Queries.ofDepth_restoring p depth).askWithin q.asks_true).restored h

/-- Two markers and two initializers that lead back to themselves, and two calls that fail. -/
def cyclicText : String :=
  "@DataSchema\ninterface A \x7b\n    val b: B\n\x7d\n" ++
  "@DataSchema\ninterface B \x7b\n    val a: A\n\x7d\n" ++
  "class C \x7b\n    val p = q\n    val q = p\n\x7d\n" ++
  "fun f(df: DataFrame<A>) \x7b\n    df.remove(\"x\")\n    df.select(\"y\")\n\x7d\n"

/-- Behind the second of the calls, which has built both markers, the first is asked for, whose
failure comes before the other one, and then an initializer, which is answered and remembered with
the one that it leads to. -/
theorem restored_of_ask_cyclicText : ∃ u, SourceUnit.ofText cyclicText = .ok u ∧
    ∃ m, (ofUnit u).Reached m ∧ m.markers.size = 2 ∧ m.failures.length = 1 ∧
      (∃ q a m', (ofUnit u).askWithin (ofUnit u).depth q m = some (a, m') ∧
        m'.failures.length = 2 ∧ m'.failures.head? ≠ m.failures.head? ∧ m.Restored m') ∧
      ∃ q a m', (ofUnit u).askWithin (ofUnit u).depth q m = some (a, m') ∧
        m'.bindings.size = m.bindings.size + 2 ∧ m.Restored m' := by
  obtain ⟨u, hu, h⟩ : ∃ u, SourceUnit.ofText cyclicText = .ok u ∧
      (((ofUnit u).names.expr? 9).any fun second => ((ofUnit u).names.expr? 5).any fun first =>
        ((ofUnit u).names.expr? 0).any fun initializer =>
        ((ofUnit u).ask (.binding second) Memo.empty).any fun r =>
          r.2.markers.size == 2 && r.2.failures.length == 1 &&
          ((ofUnit u).ask (.binding first) r.2).any (fun r' => r'.2.failures.length == 2 &&
            decide (r'.2.failures.head? ≠ r.2.failures.head?)) &&
          ((ofUnit u).ask (.binding initializer) r.2).any fun r' =>
            r'.2.bindings.size == r.2.bindings.size + 2) = true := by
    refine SourceUnit.exists_ofText (Token.eq_ofList_append (Token.eq_ofList_append
      (Token.eq_ofList_append rfl rfl) rfl) rfl) ?_
    decide +kernel
  simp only [Option.any_eq_true, Bool.and_eq_true, beq_iff_eq, decide_eq_true_eq] at h
  obtain ⟨second, -, first, -, initializer, -, ⟨a, m⟩, hm, ⟨⟨hmarkers, hone⟩, ⟨a', m'⟩, hm', htwo,
    hhead⟩, ⟨a'', m''⟩, hm'', hbound⟩ := h
  rw [ask_eq_askWithin] at hm' hm''
  exact ⟨u, hu, m, (Reached.empty _).ask hm, hmarkers, hone,
    ⟨_, a', m', hm', htwo, hhead, restored_of_ask hm'⟩,
    _, a'', m'', hm'', hbound, restored_of_ask hm''⟩

end Program

end FrameCheck
