import FrameCheck.Checker.Basic
import FrameCheck.Proofs.Inference.Failing
import FrameCheck.Proofs.Inference.Relabel

/-!
# Findings do not depend on spans and names

In a unit with other spans and names the same is found, at the other spans.

* `SourceUnit.found_relabel` : the findings of a unit with other spans and names.
* `SourceUnit.found_respan` : those of a unit with other spans alone.
-/

namespace FrameCheck

def Finding.respan (f : Span → Span) (x : Finding) : Finding := { x with span := f x.span }

variable {f : Span → Span} {g : Relabel}

theorem Failure.finding_respan (limit : Nat) (x : Failure) :
    (x.respan f).finding limit = (x.finding limit).respan f := by
  unfold finding respan
  cases x.error <;> rfl

theorem Memo.Respans.failures {m m' : Memo} (h : m.Respans f m') :
    m'.failures = m.failures.map (Failure.respan f) := by
  unfold Memo.failures
  rw [h.markerFailures, Memo.callFailures_values, Memo.callFailures_values,
    h.callFailures.toList_eq]
  simp [Function.comp_def]

theorem ClassDecl.shadowFindings_relabel (c : ClassDecl) :
    (c.relabel g).shadowFindings = c.shadowFindings.map (Finding.respan g.span) := by
  have hstored : (c.relabel g).properties.filter PropertyDecl.isStored
      = (c.properties.filter PropertyDecl.isStored).map (PropertyDecl.relabel g) := by
    rw [show (c.relabel g).properties = c.properties.map (PropertyDecl.relabel g) from rfl,
      List.filter_map]
    congr 2
    funext p
    exact p.isStored_relabel g
  unfold shadowFindings
  rw [hstored, List.filterMap_map, List.map_filterMap]
  congr 1
  funext p
  simp only [Function.comp, PropertyDecl.columnName_relabel]
  cases shadowedOwner? p.columnName <;> rfl

/-! ## Places -/

open Query

namespace Program.Relabels

variable {p p' : Program} (hp : p.Relabels g p')

include hp

theorem untrackedFindings (access receiver : Expr) (name : String) :
    p'.untrackedFindings (access.relabel g) (receiver.relabel g) name
      = (p.untrackedFindings access receiver name).map (Finding.respan g.span) := by
  unfold Program.untrackedFindings
  rw [hp.names.typeOf?, Expr.span_relabel]
  split <;> rfl

theorem typeFindings (access : Expr) (column : Column) :
    Follows g.span (List.map (Finding.respan g.span)) (p.typeFindings access column)
      (p'.typeFindings (access.relabel g) column) := by
  unfold Program.typeFindings
  rw [hp.names.expected?, Expr.span_relabel]
  cases p.names.expected? access with
  | none => exact .done rfl
  | some expected =>
    refine (hp.typeOf access).same fun actual => ?_
    cases actual with
    | none => exact .done rfl
    | some actual => exact .ite rfl (fun _ => .done rfl) fun _ => .done rfl

theorem readsMember (shape : Shape) (name : String) :
    p'.readsMember shape name = p.readsMember shape name := by
  unfold Program.readsMember
  rw [hp.names.extensionProperty?, Option.isSome_map]

theorem columnFindings (options : CheckerOptions) (access receiver : Expr) (name : String)
    (indexed : Bool) :
    Follows g.span (List.map (Finding.respan g.span))
      (p.columnFindings options access receiver name indexed)
      (p'.columnFindings options (access.relabel g) (receiver.relabel g) name indexed) := by
  refine (hp.bindingOf receiver).same fun b => ?_
  cases b with
  | unknown =>
    exact .ite rfl (fun _ => .done (hp.untrackedFindings access receiver name))
      fun _ => .done rfl
  | known shape schema origin =>
    dsimp only
    rw [hp.readsMember, Expr.span_relabel]
    refine .ite rfl (fun _ => .done rfl) fun _ => ?_
    cases schema.lookup? name with
    | none => exact .done rfl
    | some column => exact hp.typeFindings access column

theorem visitFindings (options : CheckerOptions) (v : Visit) :
    Follows g.span (List.map (Finding.respan g.span)) (p.visitFindings options v)
      (p'.visitFindings options (v.relabel g)) := by
  cases v with
  | marker c =>
    exact (hp.markerSchema c.name).same fun _ => .done c.shadowFindings_relabel
  | call e => exact (hp.bindingOf e).same fun _ => .done rfl
  | column access receiver name indexed =>
    exact hp.columnFindings options access receiver name indexed

theorem visitAll (options : CheckerOptions) : ∀ visits : List Visit,
    Follows g.span (List.map (Finding.respan g.span)) (p.visitAll options visits)
      (p'.visitAll options (visits.map (Visit.relabel g)))
  | [] => .done rfl
  | v :: rest =>
    (hp.visitFindings options v).next fun found =>
      (visitAll options rest).next fun _ => .done (by rw [List.map_append])

theorem findings (options : CheckerOptions) (visits : List Visit) :
    Follows g.span (List.map (Finding.respan g.span)) (p.findings options visits)
      (p'.findings options (visits.map (Visit.relabel g))) := by
  refine (hp.visitAll options visits).next fun found => .memo fun m m' hm => .done ?_
  rw [hm.failures]
  simp [Function.comp_def, Failure.finding_respan]

end Program.Relabels

/-! ## Units -/

namespace SourceUnit

/-- What is found in a unit, unless its initializers refer to each other without end. -/
def found (u : SourceUnit) (options : CheckerOptions) : Option (List Finding) :=
  ((Program.ofUnit u).findings options u.visits Memo.empty).map Prod.fst

/-- The diagnostics before the report. -/
def raised (cs : List Char) (options : CheckerOptions) (found : List Finding) :
    List Diagnostic :=
  (found.map fun x => Diagnostic.ofSpan cs x.code x.span x.message).filter (options.admits cs)

theorem check_eq (u : SourceUnit) (text : String) (options : CheckerOptions) :
    u.check text options = (u.found options).map fun found =>
      Diagnostic.report (raised text.toList options found) := by
  unfold check found raised
  rw [Option.map_map]
  rfl

/-- In a unit with other spans and names that suit it the same is found at the other spans. -/
theorem found_relabel {g : Relabel} {u : SourceUnit} (hu : u.Suits g) (options : CheckerOptions) :
    (u.relabel g).found options = (u.found options).map (List.map (Finding.respan g.span)) := by
  have h := (Program.Relabels.ofUnit hu).findings options u.visits Memo.empty Memo.empty
    Memo.Respans.empty
  unfold found
  rw [u.visits_relabel]
  cases hs : (Program.ofUnit u).findings options u.visits Memo.empty <;>
    cases hs' : (Program.ofUnit (u.relabel g)).findings options (u.visits.map (Visit.relabel g))
      Memo.empty <;> rw [hs, hs'] at h
  · rfl
  · exact nomatch h
  · exact nomatch h
  · cases h with
    | some h => simp [h.1]

theorem found_respan (f : Span → Span) (u : SourceUnit) (options : CheckerOptions) :
    (u.respan f).found options = (u.found options).map (List.map (Finding.respan f)) := by
  rw [u.respan_eq_relabel f]
  exact found_relabel (u.suits_spans f) options

end SourceUnit

end FrameCheck
