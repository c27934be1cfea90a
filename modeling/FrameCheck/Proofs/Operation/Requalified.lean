import FrameCheck.Proofs.Operation.Stacking
import FrameCheck.Proofs.TypeRef.Qualified

/-!
# Frames with names that are qualified otherwise

Two frames are the same up to qualification if they are the same when all names in the types of
their columns, nested or not, are cut down to their last segments (`Schema.unqualified`). Stacking
compares types as they are written (`OperationCall.Stackable`), so frames that can be stacked are
compatible up to qualification, but not the other way round : a name that is qualified in one frame
only keeps the frames apart.

* `OperationRule.stacks_requalified_iff` : the frames for which qualification does not matter.
-/

namespace FrameCheck

mutual

/-- The column with the names in its types cut down to their last segments, at any depth. -/
def Column.unqualified : Column → Column
  | ⟨name, content, type, nullable⟩ => ⟨name, content.unqualified, type.unqualified, nullable⟩

def Content.unqualified : Content → Content
  | .value => .value
  | .group children => .group children.unqualified
  | .frame none => .frame none
  | .frame (some children) => .frame (some children.unqualified)

def Schema.unqualified : Schema → Schema
  | ⟨columns⟩ => ⟨Column.unqualifiedAll columns⟩

def Column.unqualifiedAll : List Column → List Column
  | [] => []
  | c :: cs => c.unqualified :: Column.unqualifiedAll cs

end

namespace Column

variable (c : Column)

theorem unqualifiedAll_eq_map (cs : List Column) : unqualifiedAll cs = cs.map unqualified := by
  induction cs with
  | nil => rfl
  | cons c cs ih => rw [unqualifiedAll, ih, List.map_cons]

@[simp] theorem name_unqualified : c.unqualified.name = c.name := by
  cases c
  rfl

@[simp] theorem type_unqualified : c.unqualified.type = c.type.unqualified := by
  cases c
  rfl

@[simp] theorem kind_unqualified : c.unqualified.kind = c.kind := by
  obtain ⟨name, content, type, nullable⟩ := c
  rcases content with _ | children | _ | children <;> rfl

/-- The column with another type. -/
def retyped (f : TypeRef → TypeRef) (c : Column) : Column := { c with type := f c.type }

@[simp] theorem kind_retyped (f : TypeRef → TypeRef) : (c.retyped f).kind = c.kind := rfl
@[simp] theorem type_retyped (f : TypeRef → TypeRef) : (c.retyped f).type = f c.type := rfl

theorem unqualified_retyped {f : TypeRef → TypeRef} (hf : ∀ t, (f t).unqualified = t.unqualified) :
    (c.retyped f).unqualified = c.unqualified := by
  obtain ⟨name, content, type, nullable⟩ := c
  show Column.mk name content.unqualified (f type).unqualified nullable = _
  rw [hf]
  rfl

end Column

namespace Schema

variable {s t : Schema}

theorem unqualified_eq (s : Schema) : s.unqualified = s.mapColumns Column.unqualified := by
  obtain ⟨columns⟩ := s
  exact congrArg mk (Column.unqualifiedAll_eq_map columns)

theorem lookup?_unqualified (s : Schema) (n : String) :
    s.unqualified.lookup? n = (s.lookup? n).map Column.unqualified := by
  rw [unqualified_eq]
  exact lookup?_map Column.name_unqualified s n

theorem names_unqualified (s : Schema) : s.unqualified.names = s.names := by
  rw [unqualified_eq, names, mapColumns, List.map_map]
  exact List.map_congr_left fun c _ => c.name_unqualified

theorem names_eq_of_unqualified (h : s.unqualified = t.unqualified) : s.names = t.names := by
  rw [← names_unqualified, h, names_unqualified]

/-- The schema with other types of its columns. -/
def retyped (f : TypeRef → TypeRef) (s : Schema) : Schema := s.mapColumns (Column.retyped f)

theorem lookup?_retyped (f : TypeRef → TypeRef) (s : Schema) (n : String) :
    (s.retyped f).lookup? n = (s.lookup? n).map (Column.retyped f) :=
  lookup?_map (f := Column.retyped f) (fun _ => rfl) s n

theorem unqualified_retyped {f : TypeRef → TypeRef} (hf : ∀ t, (f t).unqualified = t.unqualified)
    (s : Schema) : (s.retyped f).unqualified = s.unqualified := by
  rw [unqualified_eq, unqualified_eq, retyped, mapColumns, mapColumns, mapColumns, List.map_map]
  exact congrArg mk (List.map_congr_left fun c _ => c.unqualified_retyped hf)

end Schema

/-! ## Stacking -/

namespace OperationCall

variable {a b : Schema}

/-- Frames that can be stacked are compatible up to qualification. -/
theorem Stackable.unqualified (h : Stackable a b) : Stackable a.unqualified b.unqualified := by
  intro n _ hc' _ hd'
  rw [Schema.lookup?_unqualified] at hc' hd'
  obtain ⟨c, hc, rfl⟩ := Option.map_eq_some_iff.1 hc'
  obtain ⟨d, hd, rfl⟩ := Option.map_eq_some_iff.1 hd'
  obtain ⟨hkind, htype⟩ := h n c hc d hd
  simp [hkind, htype]

/-- Frames that are compatible up to qualification can be stacked where no name is qualified. -/
theorem stackable_retyped_unqualified (h : Stackable a.unqualified b.unqualified) :
    Stackable (a.retyped TypeRef.unqualified) (b.retyped TypeRef.unqualified) := by
  intro n _ hc' _ hd'
  rw [Schema.lookup?_retyped] at hc' hd'
  obtain ⟨c, hc, rfl⟩ := Option.map_eq_some_iff.1 hc'
  obtain ⟨d, hd, rfl⟩ := Option.map_eq_some_iff.1 hd'
  have hsame := h n
  rw [Schema.lookup?_unqualified, Schema.lookup?_unqualified, hc, hd] at hsame
  simpa using hsame _ rfl _ rfl

/-- Frames with a name in common that can be stacked cannot be once one of them is qualified. -/
theorem Stackable.not_retyped_within (h : Stackable a b) {n : String} (ha : n ∈ a.names)
    (hb : n ∈ b.names) (q : String) : ¬Stackable (a.retyped (TypeRef.within q)) b := by
  intro h'
  obtain ⟨c, hc⟩ := Option.isSome_iff_exists.1 (Schema.mem_names.1 ha)
  obtain ⟨d, hd⟩ := Option.isSome_iff_exists.1 (Schema.mem_names.1 hb)
  have hwithin : c.retyped (TypeRef.within q) ∈ (a.retyped (TypeRef.within q)).lookup? n := by
    rw [Schema.lookup?_retyped, hc]
    rfl
  exact c.type.within_ne q ((h' n _ hwithin d hd).2.trans (h n c hc d hd).2.symm)

/-- Qualification does not matter to frames that share no name, or that are not compatible even
without it. -/
theorem stackable_requalified_iff :
    (∀ a' b' : Schema, a'.unqualified = a.unqualified → b'.unqualified = b.unqualified →
      (Stackable a b ↔ Stackable a' b')) ↔
    (∀ n ∈ a.names, n ∉ b.names) ∨ ¬Stackable a.unqualified b.unqualified := by
  constructor
  · intro h
    by_contra! ⟨⟨n, hna, hnb⟩, hsame⟩
    have hstackable : Stackable a b :=
      (h _ _ (Schema.unqualified_retyped TypeRef.unqualified_unqualified a)
        (Schema.unqualified_retyped TypeRef.unqualified_unqualified b)).2
        (stackable_retyped_unqualified hsame)
    exact hstackable.not_retyped_within hna hnb "kotlin" ((h _ _ (Schema.unqualified_retyped
      (fun t => t.unqualified_within "kotlin") a) rfl).1 hstackable)
  · rintro (hdisjoint | hdiffer) a' b' ha hb
    · have hany {s t : Schema} (hs : s.names = a.names) (ht : t.names = b.names) :
          Stackable s t := by
        intro n c hc d hd
        have hns := hs ▸ Schema.mem_names.2 (Option.isSome_of_mem hc)
        exact absurd (ht ▸ Schema.mem_names.2 (Option.isSome_of_mem hd)) (hdisjoint n hns)
      exact iff_of_true (hany rfl rfl) (hany (Schema.names_eq_of_unqualified ha)
        (Schema.names_eq_of_unqualified hb))
    · exact iff_of_false (fun h => hdiffer h.unqualified) fun h => hdiffer (ha ▸ hb ▸ h.unqualified)

end OperationCall

namespace OperationRule

open OperationCall

variable {rule : OperationRule} (hkind : rule.kind = .concat) {typeArgs : List Binding}
  {l r : Binding} {a b : Schema}

include hkind

theorem exists_apply_concat_iff_stackable (hl : l.schema? = some a) (hr : r.schema? = some b)
    (ha : a.names.Nodup) (hb : b.names.Nodup) :
    (∃ d, rule.apply (stacking l r typeArgs) = .ok d) ↔ Stackable a b := by
  simp only [apply_concat_eq_ok_iff hkind hl hr ha hb, exists_and_left, exists_eq, and_true]

/-- Frames are stacked whatever the qualification of their types exactly if they share no name, or
are not compatible even without qualification. -/
theorem stacks_requalified_iff (hl : l.schema? = some a) (hr : r.schema? = some b)
    (ha : a.names.Nodup) (hb : b.names.Nodup) :
    (∀ l' r' a' b', l'.schema? = some a' → r'.schema? = some b' →
      a'.unqualified = a.unqualified → b'.unqualified = b.unqualified →
        ((∃ d, rule.apply (stacking l r typeArgs) = .ok d) ↔
          ∃ d, rule.apply (stacking l' r' typeArgs) = .ok d)) ↔
    (∀ n ∈ a.names, n ∉ b.names) ∨ ¬Stackable a.unqualified b.unqualified := by
  have hnodup {s t : Schema} (ht : t.names.Nodup) (h : s.unqualified = t.unqualified) :
      s.names.Nodup := Schema.names_eq_of_unqualified h ▸ ht
  rw [← stackable_requalified_iff, exists_apply_concat_iff_stackable hkind hl hr ha hb]
  constructor
  · intro h a' b' ha' hb'
    rw [h (.known .dataFrame a' none) (.known .dataFrame b' none) a' b' rfl rfl ha' hb',
      exists_apply_concat_iff_stackable hkind rfl rfl (hnodup ha ha') (hnodup hb hb')]
  · intro h l' r' a' b' hl' hr' ha' hb'
    rw [h a' b' ha' hb',
      exists_apply_concat_iff_stackable hkind hl' hr' (hnodup ha ha') (hnodup hb hb')]

end OperationRule

end FrameCheck
