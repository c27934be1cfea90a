import FrameCheck.Operation.Catalog
import Mathlib.Data.List.Basic
import Mathlib.Data.List.Induction

/-!
# The index of a catalog

Whatever rules are registered, the index of the catalog leads from a receiver and a name to the
positions of the rules for them : of all these rules, of no others, and in the order of
registration. Each registration keeps that (`Catalog.Indexed.register`), since the position that it
adds is the last one. So the candidates for a call are what a scan of all rules finds.

A call then finds a rule by what is registered under its receiver and its name alone, and in which
order that was registered makes no difference.

* `Catalog.Indexed` : the positions in an index.
* `Catalog.candidates_ofRules` : the candidates of a catalog that is made from a list of rules.
* `Catalog.lookup_ofRules` : the rule that is found.
-/

namespace FrameCheck

/-- Whether the rule is for the operation of this name on this receiver. -/
def OperationRule.isFor (receiver : ReceiverKind) (name : String) (rule : OperationRule) : Bool :=
  rule.receiver = receiver ∧ rule.name = name

theorem OperationRule.isFor_iff {receiver : ReceiverKind} {name : String} {rule : OperationRule} :
    rule.isFor receiver name ↔ rule.receiver = receiver ∧ rule.name = name :=
  decide_eq_true_iff

namespace Catalog

variable {c : Catalog} {receiver : ReceiverKind} {name : String}

/-! ## Positions -/

/-- The positions of the rules for an operation. -/
def positionsFor (rules : List OperationRule) (receiver : ReceiverKind) (name : String) :
    List Nat :=
  (List.range rules.length).filter fun i => rules[i]?.any (·.isFor receiver name)

theorem positionsFor_concat (rules : List OperationRule) (rule : OperationRule)
    (receiver : ReceiverKind) (name : String) :
    positionsFor (rules ++ [rule]) receiver name =
      positionsFor rules receiver name ++
        if rule.isFor receiver name then [rules.length] else [] := by
  have hbefore : ∀ i ∈ List.range rules.length,
      (rules ++ [rule])[i]?.any (·.isFor receiver name) =
        rules[i]?.any (·.isFor receiver name) := by
    intro i hi
    rw [List.getElem?_append_left (List.mem_range.1 hi)]
  unfold positionsFor
  rw [List.length_append, List.length_singleton, List.range_succ, List.filter_append,
    List.filter_congr hbefore, List.filter_singleton, List.getElem?_concat_length, Option.any_some,
    Bool.cond_eq_ite]

/-- The rules at the positions are those that a scan finds. -/
theorem filterMap_positionsFor (rules : List OperationRule) (receiver : ReceiverKind)
    (name : String) : (positionsFor rules receiver name).filterMap (rules[·]?) =
      rules.filter (·.isFor receiver name) := by
  induction rules using List.reverseRecOn with
  | nil => rfl
  | append_singleton rules rule ih =>
    have hbefore : (positionsFor rules receiver name).filterMap ((rules ++ [rule])[·]?) =
        (positionsFor rules receiver name).filterMap (rules[·]?) := by
      refine List.filterMap_congr fun i hi => ?_
      have hlt := List.mem_range.1 (List.mem_of_mem_filter hi)
      exact List.getElem?_append_left hlt
    rw [positionsFor_concat, List.filterMap_append, hbefore, ih, List.filter_append,
      List.filter_singleton]
    split <;> simp [*]

/-! ## What every registration keeps -/

/-- Under each receiver and name the index holds the positions of all rules for them, of no others,
and in the order of the rules. -/
def Indexed (c : Catalog) : Prop :=
  ∀ receiver name, c.index.positions receiver name = positionsFor c.rules.toList receiver name

theorem indexed_empty : empty.Indexed :=
  fun receiver name => RuleIndex.positions_empty receiver name

theorem Indexed.register (h : c.Indexed) (rule : OperationRule) : (c.register rule).Indexed := by
  intro receiver name
  simp only [Catalog.register]
  rw [RuleIndex.positions_insert, h receiver name, Array.toList_push, positionsFor_concat,
    Array.length_toList]
  simp only [← OperationRule.isFor_iff]
  split <;> simp

theorem Indexed.foldl_register : ∀ {c : Catalog}, c.Indexed → ∀ rules : List OperationRule,
    (rules.foldl Catalog.register c).Indexed
  | _, h, [] => h
  | _, h, rule :: rules => Indexed.foldl_register (h.register rule) rules

theorem indexed_ofRules (rules : List OperationRule) : (ofRules rules).Indexed :=
  indexed_empty.foldl_register rules

theorem toList_rules_foldl_register : ∀ (rules : List OperationRule) (c : Catalog),
    (rules.foldl register c).rules.toList = c.rules.toList ++ rules
  | [], c => by simp
  | rule :: rules, c => by
    rw [List.foldl_cons, toList_rules_foldl_register rules, register, Array.toList_push,
      List.append_assoc, List.singleton_append]

theorem toList_rules_ofRules (rules : List OperationRule) : (ofRules rules).rules.toList = rules :=
  toList_rules_foldl_register rules empty

/-! ## Candidates -/

theorem pmap_rules (rules : Array OperationRule) : ∀ (positions : List Nat)
    (h : ∀ i ∈ positions, i < rules.size),
    positions.pmap (fun i (_ : i < rules.size) => rules[i]) h =
      positions.filterMap (rules.toList[·]?)
  | [], _ => rfl
  | i :: positions, h => by
    have hi := h i List.mem_cons_self
    rw [List.pmap_cons, pmap_rules rules positions, List.filterMap_cons, Array.getElem?_toList,
      Array.getElem?_eq_getElem hi]

theorem candidates_eq_filterMap (c : Catalog) (receiver : ReceiverKind) (name : String) :
    c.candidates receiver name =
      (c.index.positions receiver name).filterMap (c.rules.toList[·]?) :=
  pmap_rules c.rules _ _

theorem Indexed.candidates_eq (h : c.Indexed) (receiver : ReceiverKind) (name : String) :
    c.candidates receiver name = c.rules.toList.filter (·.isFor receiver name) := by
  rw [candidates_eq_filterMap, h receiver name, filterMap_positionsFor]

/-- The rules of a receiver and a name, as they were registered. -/
theorem candidates_ofRules (rules : List OperationRule) (receiver : ReceiverKind) (name : String) :
    (ofRules rules).candidates receiver name = rules.filter (·.isFor receiver name) := by
  rw [(indexed_ofRules rules).candidates_eq, toList_rules_ofRules]

/-! ## The rule that is found -/

variable {count : Nat} {own own' : List OperationRule} {rule : OperationRule}

theorem choose_eq_some_iff : choose count own = some rule ↔
    own.filter (·.arity.accepts count) = [rule] ∨
      own.filter (·.arity.accepts count) = [] ∧ own = [rule] := by
  unfold choose
  split
  · rename_i accepted haccepting
    simp [haccepting]
  · rename_i single haccepting
    simp [haccepting]
  · rename_i hnone hsingle
    refine ⟨nofun, ?_⟩
    rintro (haccepting | ⟨haccepting, hown⟩)
    · exact absurd haccepting (hnone rule)
    · exact absurd hown (hsingle rule haccepting)

theorem mem_of_choose (h : choose count own = some rule) : rule ∈ own := by
  obtain haccepting | ⟨-, hown⟩ := choose_eq_some_iff.1 h
  · exact List.mem_of_mem_filter (haccepting ▸ List.mem_singleton_self rule)
  · exact hown ▸ List.mem_singleton_self rule

/-- It does not matter in which order the rules of a name were registered. -/
theorem choose_perm (h : own.Perm own') : choose count own = choose count own' := by
  have haccepting := h.filter (·.arity.accepts count)
  refine Option.ext fun rule => ?_
  rw [choose_eq_some_iff, choose_eq_some_iff]
  simp only [← List.perm_singleton, ← List.perm_nil, haccepting.congr_left, h.congr_left]

theorem lookup_eq_ok_iff (c : Catalog) (receiver : ReceiverKind) (name : String) (count : Nat) :
    c.lookup receiver name count = .ok rule ↔
      choose count (c.candidates receiver name) = some rule := by
  unfold lookup
  cases choose count (c.candidates receiver name) <;> simp

theorem lookup_eq_error_iff (c : Catalog) (receiver : ReceiverKind) (name : String) (count : Nat)
    {e : Unrecognized} : c.lookup receiver name count = .error e ↔
      e = ⟨name⟩ ∧ ∀ rule, choose count (c.candidates receiver name) ≠ some rule := by
  unfold lookup
  cases choose count (c.candidates receiver name) with
  | none => simp [eq_comm]
  | some rule => simp

/-- A call finds the only rule under its receiver and its name that accepts the number of
arguments; where none accepts it, the only rule under them; and else no operation is recognized.
So nothing but the rules under this receiver and this name counts, in whatever order they were
registered. -/
theorem lookup_ofRules (rules : List OperationRule) (receiver : ReceiverKind) (name : String)
    (count : Nat) :
    let own := rules.filter (·.isFor receiver name)
    let accepting := own.filter (·.arity.accepts count)
    (∀ rule, (ofRules rules).lookup receiver name count = .ok rule ↔
      accepting = [rule] ∨ accepting = [] ∧ own = [rule]) ∧
    (∀ e, (ofRules rules).lookup receiver name count = .error e ↔
      e = ⟨name⟩ ∧ accepting.length ≠ 1 ∧ ¬(accepting = [] ∧ own.length = 1)) ∧
    ∀ rules' : List OperationRule, (rules'.filter (·.isFor receiver name)).Perm own →
      (ofRules rules').lookup receiver name count = (ofRules rules).lookup receiver name count := by
  intro own accepting
  refine ⟨fun rule => ?_, fun e => ?_, fun rules' hperm => ?_⟩
  · rw [lookup_eq_ok_iff, candidates_ofRules, choose_eq_some_iff]
  · rw [lookup_eq_error_iff, candidates_ofRules]
    simp only [Ne, choose_eq_some_iff, not_or, forall_and, ← not_exists, List.length_eq_one_iff,
      exists_and_left]
    rfl
  · unfold lookup
    rw [candidates_ofRules, candidates_ofRules, choose_perm hperm]

/-- A rule for an operation `pick` on frames. -/
def pickRule (arity : Arity) (kind : OperationKind) : OperationRule :=
  ⟨.dataFrame, "pick", arity, kind, .dataFrame⟩

def pickRules : List OperationRule :=
  [pickRule (.exact 0) .passthrough, pickRule (.atLeast 1) .select]

/-- The same rules the other way round, after one for groups. -/
def pickRulesReversed : List OperationRule :=
  ⟨.groupBy, "pick", .exact 3, .groupCount, .dataFrame⟩ :: pickRules.reverse

theorem lookup_ofRules_pick :
    (pickRulesReversed.filter (·.isFor .dataFrame "pick")).Perm
      (pickRules.filter (·.isFor .dataFrame "pick")) ∧
    (ofRules pickRulesReversed).lookup .dataFrame "pick" 3 =
      .ok (pickRule (.atLeast 1) .select) := by
  have hperm : (pickRulesReversed.filter (·.isFor .dataFrame "pick")).Perm
      (pickRules.filter (·.isFor .dataFrame "pick")) := List.reverse_perm pickRules
  obtain ⟨hfound, -, hany⟩ := lookup_ofRules pickRules .dataFrame "pick" 3
  exact ⟨hperm, (hany pickRulesReversed hperm).trans ((hfound _).2 (.inl (by decide)))⟩

end Catalog

end FrameCheck
