import FrameCheck.Operation.Apply
import FrameCheck.Proofs.Operation.Indexed

/-!
# Which operations are found, and what they say of frames that are not known

A rule that a call finds in a catalog is one of the list that the catalog is made from, and it is
for the receiver and the name of the call.

An operation that is called on a frame of which nothing is known does not fail, whatever its
arguments are: it cannot tell. Only `dataFrameOf` needs no receiver to find a fault.

* `Catalog.rule_of_lookupCall` : the rules of a catalog.
* `OperationRule.eq_notApplicable_of_unknown` : operations on what is not known.
-/

namespace FrameCheck

namespace Catalog

/-! ## Rules of a catalog -/

/-- The rule that a call finds is one of the list, for this receiver and name, and the function is
not one that the program declares. -/
theorem rule_of_lookupCall {rules : List OperationRule} {receiver : ReceiverKind} {name : String}
    {count : Nat} {userDefined : Bool} {rule : OperationRule}
    (h : (ofRules rules).lookupCall receiver name count userDefined = .ok rule) :
    userDefined = false ∧ rule ∈ rules ∧ rule.receiver = receiver ∧ rule.name = name := by
  unfold lookupCall at h
  split at h
  · cases h
  · rename_i huser
    rw [lookup_eq_ok_iff, candidates_ofRules] at h
    obtain ⟨hrule, hfits⟩ := List.mem_filter.1 (mem_of_choose h)
    exact ⟨Bool.eq_false_iff.2 huser, hrule, OperationRule.isFor_iff.1 hfits⟩

/-- `dataFrameOf` is the only operation that makes a frame of its arguments alone. -/
theorem standardRules_dataFrameOf {rule : OperationRule} (h : rule ∈ standardRules)
    (hk : rule.kind = .dataFrameOf) : rule.receiver = .topLevel ∧ rule.name = "dataFrameOf" := by
  revert rule
  decide

end Catalog

/-! ## Operations on what is not known -/

namespace OperationCall

variable {α β : Type}

/-- A fault is found only where too little is known to find another. -/
def Undecided (x : Transformed α) : Prop := ∀ e, x = .error e → e = .notApplicable

theorem undecided_ok (a : α) : Undecided (.ok a : Transformed α) := nofun

theorem undecided_notApplicable : Undecided (.error .notApplicable : Transformed α) := by
  intro e h
  cases h
  rfl

theorem Undecided.bind {x : Transformed α} {f : α → Transformed β} (hx : Undecided x)
    (hf : ∀ a, x = .ok a → Undecided (f a)) : Undecided (x >>= f) := by
  cases x with
  | error e =>
    rw [hx e rfl]
    exact undecided_notApplicable
  | ok a => exact hf a rfl

theorem Undecided.map {x : Transformed α} (hx : Undecided x) (f : α → β) :
    Undecided (x.map f) := by
  cases x with
  | error e =>
    rw [hx e rfl]
    exact undecided_notApplicable
  | ok a => exact undecided_ok _

theorem undecided_known (o : Option α) : Undecided (known o) := by
  cases o with
  | none => exact undecided_notApplicable
  | some a => exact undecided_ok a

theorem undecided_textsOf : ∀ args : List OperationArg, Undecided (textsOf args)
  | [] => undecided_ok _
  | arg :: args =>
    (undecided_known arg.text?).bind fun _ _ =>
      (undecided_textsOf args).bind fun _ _ => undecided_ok _

variable {call : OperationCall}

theorem receiverSchema_of_unknown (h : call.receiver = .unknown) :
    call.receiverSchema = .error .notApplicable := by
  rw [receiverSchema, h]
  rfl

/-- Behind a question for the schema of the receiver nothing is found. -/
theorem undecided_receiverSchema_bind (h : call.receiver = .unknown) (f : Schema → Transformed β) :
    Undecided (call.receiverSchema >>= f) := by
  rw [receiverSchema_of_unknown h]
  exact undecided_notApplicable

/-- Nor where the names of columns are asked for first. -/
theorem undecided_columnNames_bind (h : call.receiver = .unknown)
    (f : List String → Schema → Transformed β) :
    Undecided (call.columnNames >>= fun names => call.receiverSchema >>= f names) :=
  (undecided_textsOf call.args).bind fun names _ => undecided_receiverSchema_bind h (f names)

theorem undecided_markerArg : Undecided call.markerArg := by
  unfold markerArg
  split
  · exact undecided_ok _
  · exact undecided_notApplicable

end OperationCall

/-- An operation on what is not known does not say what is wrong. -/
theorem OperationRule.eq_notApplicable_of_unknown {rule : OperationRule} {call : OperationCall}
    (h : call.receiver = .unknown) (hk : rule.kind ≠ .dataFrameOf) {e : TransformError}
    (he : rule.apply call = .error e) : e = .notApplicable := by
  have hreceiver := OperationCall.undecided_receiverSchema_bind (β := Schema) h
  have hnames := OperationCall.undecided_columnNames_bind (β := Schema) h
  have hschema : OperationCall.Undecided call.receiverSchema := by
    rw [OperationCall.receiverSchema_of_unknown h]
    exact OperationCall.undecided_notApplicable
  refine (?_ : OperationCall.Undecided (rule.apply call)) e he
  unfold OperationRule.apply
  cases hkind : rule.kind with
  | select => exact (hnames _).map _
  | distinct => exact (hreceiver _).map _
  | remove => exact (hnames _).map _
  | rename =>
    refine OperationCall.Undecided.map ?_ _
    unfold OperationCall.rename
    split
    · exact hreceiver _
    · exact OperationCall.undecided_notApplicable
  | add =>
    refine OperationCall.Undecided.map ?_ _
    unfold OperationCall.add
    split <;> exact hreceiver _
  | update => exact (hreceiver _).map _
  | join => exact (hreceiver _).map _
  | concat => exact (hreceiver _).map _
  | groupBy => exact (hnames _).map _
  | groupCount => exact (hreceiver _).map _
  | groupToDataFrame => exact hschema.map _
  | passthrough => exact hschema.map _
  | row => exact hschema.map _
  | sortBy => exact (hreceiver _).map _
  | dropNulls => exact (hnames _).map _
  | cast => exact OperationCall.undecided_markerArg.map _
  | emptyDataFrame => exact OperationCall.undecided_markerArg.map _
  | dataFrameOf => exact absurd hkind hk

end FrameCheck
