import FrameCheck.Proofs.Schema.Merging

/-!
# Stacked frames

Stacking two frames is a matter of each name alone : the column of a name is that of the first
frame that has it, and whether it is nullable depends on which of them have it
(`stackedColumn`, `lookup?_stacked`). Two frames can be stacked if the columns that they share have
the same kind and type (`Stackable`). So what holds of three frames, or of two frames either way
round, is a matter of the three or two columns that a name may have.

Nested columns are not compared; those of the receiver stay. This is why frames that are stacked the
other way round may hold other nested columns.

* `OperationRule.apply_concat_assoc` : stacking three frames.
* `OperationRule.apply_concat_comm` : stacking two frames either way round.
-/

namespace FrameCheck

namespace Column

/-- The column with nulls in the rows of a frame that lacks it; groups and frames have none. -/
def widened (c : Column) : Column := c.withNullable (c.nullable || c.kind == .value)

/-- The column over the rows of two frames of which the second has `other`. -/
def atop (c other : Column) : Column := c.withNullable (c.nullable || other.nullable)

variable {c d e : Column}

@[simp] theorem name_widened (c : Column) : c.widened.name = c.name := rfl
@[simp] theorem kind_widened : c.widened.kind = c.kind := rfl
@[simp] theorem type_widened : c.widened.type = c.type := rfl
@[simp] theorem children_widened : c.widened.children = c.children := rfl
@[simp] theorem nullable_widened : c.widened.nullable = (c.nullable || c.kind == .value) := rfl
@[simp] theorem name_atop : (c.atop d).name = c.name := rfl
@[simp] theorem kind_atop : (c.atop d).kind = c.kind := rfl
@[simp] theorem type_atop : (c.atop d).type = c.type := rfl
@[simp] theorem children_atop : (c.atop d).children = c.children := rfl
@[simp] theorem nullable_atop : (c.atop d).nullable = (c.nullable || d.nullable) := rfl

theorem atop_atop : (c.atop d).atop e = c.atop (d.atop e) :=
  congrArg c.withNullable (Bool.or_assoc _ _ _)

theorem widened_widened : c.widened.widened = c.widened := by
  refine congrArg c.withNullable ?_
  rw [kind_widened, nullable_widened, Bool.or_assoc, Bool.or_self]

theorem widened_atop : c.widened.atop d = (c.atop d).widened :=
  congrArg c.withNullable (Bool.or_right_comm _ _ _)

theorem atop_widened (h : c.kind = d.kind) : c.atop d.widened = (c.atop d).widened := by
  refine congrArg c.withNullable ?_
  rw [nullable_widened, nullable_atop, kind_atop, h, Bool.or_assoc]

end Column

namespace OperationCall

open Column

/-- The column of a name in two stacked frames. -/
def stackedColumn : Option Column → Option Column → Option Column
  | none, b => b.map widened
  | some a, none => some a.widened
  | some a, some b => some (a.atop b)

/-- The columns of the left frame, and then those of the right frame with other names. -/
def stacked (left right : Schema) : Schema :=
  ⟨left.columns.map (fun c => ((right.lookup? c.name).map c.atop).getD c.widened)
    ++ (right.columns.map widened).filter fun c => c.name ∉ left.names⟩

/-- The columns that two frames have under a name, if both have one, have one kind and type. -/
def SameKind (x y : Option Column) : Prop := ∀ c ∈ x, ∀ d ∈ y, c.kind = d.kind ∧ c.type = d.type

/-- The columns that the frames share have the same kinds and types. -/
def Stackable (left right : Schema) : Prop :=
  ∀ n, SameKind (left.lookup? n) (right.lookup? n)

/-! ## Columns of one name -/

section

variable {x y z : Option Column}

theorem SameKind.symm (h : SameKind x y) : SameKind y x :=
  fun c hc d hd => (h d hd c hc).imp Eq.symm Eq.symm

/-- Columns of the kind of both frames are those of the kind of the stacked frame. -/
theorem sameKind_stackedColumn (h : SameKind x y) :
    SameKind (stackedColumn x y) z ↔ SameKind x z ∧ SameKind y z := by
  cases x <;> cases y
  case some.some c d =>
    obtain ⟨hkind, htype⟩ := h c rfl d rfl
    simp [SameKind, stackedColumn, hkind, htype]
  all_goals simp [SameKind, stackedColumn]

theorem stackedColumn_assoc (hxy : SameKind x y) (hxz : SameKind x z) :
    stackedColumn (stackedColumn x y) z = stackedColumn x (stackedColumn y z) := by
  cases x with
  | none =>
    cases y <;> cases z
    case none.some e => exact congrArg some widened_widened.symm
    case some.some d e => exact congrArg some widened_atop
    all_goals rfl
  | some c =>
    cases y <;> cases z
    case none.none => exact congrArg some widened_widened
    case none.some e =>
      exact congrArg some (widened_atop.trans (atop_widened (hxz c rfl e rfl).1).symm)
    case some.none d => exact congrArg some (atop_widened (hxy c rfl d rfl).1).symm
    case some.some d e => exact congrArg some atop_atop

/-- Either way round there is a column or none, of one kind and type and nullable or not; nested in
it is what the first frame has there. -/
theorem stackedColumn_comm (h : SameKind x y) :
    (stackedColumn x y).map (fun c => (c.kind, c.type, c.nullable))
      = (stackedColumn y x).map fun c => (c.kind, c.type, c.nullable) := by
  cases x <;> cases y
  case some.some c d =>
    obtain ⟨hkind, htype⟩ := h c rfl d rfl
    simp [stackedColumn, hkind, htype, Bool.or_comm]
  all_goals rfl

/-- Values that are never missing are there in both frames, and never missing there. -/
theorem values_of_stackedColumn (h : SameKind x y) {e : Column} (he : stackedColumn x y = some e)
    (hkind : e.kind = .value) (hnull : e.nullable = false) :
    (∃ c ∈ x, c.kind = .value ∧ c.nullable = false) ∧
      ∃ d ∈ y, d.kind = .value ∧ d.nullable = false := by
  cases x <;> cases y <;> simp only [stackedColumn, Option.map_none, Option.map_some, reduceCtorEq,
    Option.some.injEq] at he <;> subst he
  case some.some c d =>
    rw [nullable_atop, Bool.or_eq_false_iff] at hnull
    exact ⟨⟨c, rfl, hkind, hnull.1⟩, d, rfl, (h c rfl d rfl).1.symm.trans hkind, hnull.2⟩
  all_goals
    rw [kind_widened] at hkind
    simp [hkind] at hnull

theorem children_stackedColumn :
    (stackedColumn x y).map Column.children = (x.or y).map Column.children := by
  cases x <;> cases y <;> rfl

end

/-! ## Frames -/

variable {a b c : Schema}

theorem names_stacked : (stacked a b).names = a.names ++ b.names.filter (· ∉ a.names) := by
  rw [stacked, Schema.names, List.map_append, List.map_map, List.filter_map, List.map_map]
  refine congrArg₂ (· ++ ·) (List.map_congr_left fun c _ => ?_) ?_
  · show (((b.lookup? c.name).map c.atop).getD c.widened).name = c.name
    cases b.lookup? c.name <;> rfl
  · exact (List.filter_map (p := (· ∉ a.names)) (f := Column.name) (l := b.columns)).symm

theorem nodup_names_stacked (ha : a.names.Nodup) (hb : b.names.Nodup) :
    (stacked a b).names.Nodup := by
  rw [names_stacked]
  refine ha.append (hb.filter _) fun n hn hn' => ?_
  exact of_decide_eq_true (List.mem_filter.1 hn').2 hn

theorem lookup?_stacked (n : String) :
    (stacked a b).lookup? n = stackedColumn (a.lookup? n) (b.lookup? n) := by
  have hname (c : Column) : (((b.lookup? c.name).map c.atop).getD c.widened).name = c.name := by
    cases b.lookup? c.name <;> rfl
  have hnew : (Schema.mk ((b.columns.map widened).filter fun c => c.name ∉ a.names)).lookup? n
      = if n ∉ a.names then (b.lookup? n).map widened else none := by
    refine (Schema.lookup?_filter (fun n => n ∉ a.names) (b.mapColumns widened) n).trans ?_
    rw [Schema.mapColumns, Schema.lookup?_map name_widened]
    simp only [decide_eq_true_iff]
  rw [stacked, Schema.lookup?_append, Schema.lookup?_map hname, hnew]
  cases hx : a.lookup? n with
  | none =>
    rw [if_pos (Schema.lookup?_eq_none_iff.1 hx)]
    rfl
  | some c =>
    show some (((b.lookup? c.name).map c.atop).getD c.widened) = _
    rw [Schema.name_of_lookup? hx]
    cases b.lookup? n <;> rfl

theorem Stackable.symm (h : Stackable a b) : Stackable b a := fun n => (h n).symm

/-! ## Three frames -/

theorem stacked_assoc (ha : a.names.Nodup) (hb : b.names.Nodup) (hc : c.names.Nodup)
    (hab : Stackable a b) (hac : Stackable a c) :
    stacked (stacked a b) c = stacked a (stacked b c) := by
  refine Schema.ext_lookup? (nodup_names_stacked (nodup_names_stacked ha hb) hc) ?_ fun n => ?_
  · simp only [names_stacked, List.filter_append, List.append_assoc, List.filter_filter]
    refine congrArg _ (congrArg _ (List.filter_congr fun n _ => ?_))
    simp only [List.mem_append, List.mem_filter]
    by_cases hna : n ∈ a.names <;> simp [hna]
  · rw [lookup?_stacked, lookup?_stacked, lookup?_stacked, lookup?_stacked]
    exact stackedColumn_assoc (hab n) (hac n)

theorem stackable_stacked (hab : Stackable a b) :
    Stackable (stacked a b) c ↔ Stackable a c ∧ Stackable b c := by
  simp only [Stackable, lookup?_stacked, ← forall_and]
  exact forall_congr' fun n => sameKind_stackedColumn (hab n)

theorem stackable_assoc : Stackable a b ∧ Stackable (stacked a b) c ↔
    Stackable b c ∧ Stackable a (stacked b c) := by
  constructor
  · rintro ⟨hab, habc⟩
    obtain ⟨hac, hbc⟩ := (stackable_stacked hab).1 habc
    exact ⟨hbc, ((stackable_stacked hbc).2 ⟨hab.symm, hac.symm⟩).symm⟩
  · rintro ⟨hbc, habc⟩
    obtain ⟨hba, hca⟩ := (stackable_stacked hbc).1 habc.symm
    exact ⟨hba.symm, (stackable_stacked hba.symm).2 ⟨hca.symm, hbc⟩⟩

/-! ## Outcomes -/

/-- Columns are compared in the order of the left frame, each with that of its name. -/
theorem requireStackable_eq_ok_iff {cs : List Column} : requireStackable b cs = .ok () ↔
    ∀ c ∈ cs, ∀ d ∈ b.lookup? c.name, c.kind = d.kind ∧ c.type = d.type := by
  induction cs with
  | nil => simp [requireStackable]
  | cons c cs ih =>
    rw [requireStackable, List.forall_mem_cons, ← ih]
    cases b.lookup? c.name with
    | none => simp
    | some d =>
      by_cases h : c.kind = d.kind ∧ c.type = d.type
      · simp [stackable, h]
      · have hno : stackable c d = false := by
          rw [stackable, Bool.and_eq_false_iff]
          rcases not_and_or.1 h with h | h
          · exact Or.inl (beq_eq_false_iff_ne.2 h)
          · exact Or.inr (decide_eq_false h)
        simp [hno, h]

theorem stackable_iff (ha : a.names.Nodup) : Stackable a b ↔
    ∀ c ∈ a.columns, ∀ d ∈ b.lookup? c.name, c.kind = d.kind ∧ c.type = d.type := by
  constructor
  · exact fun h c hc => h c.name c (Schema.lookup?_of_mem ha hc)
  · intro h n c hc d hd
    obtain rfl := Schema.name_of_lookup? hc
    exact h c (Schema.mem_of_lookup? hc) d hd

theorem merge_widened (hb : b.names.Nodup) :
    (a.mapColumns fun c => c.withNullable (stackedNullable b c)).merge
      (b.mapColumns fun c => c.withNullable (c.nullable || c.kind == .value)) .keep
        = .ok (stacked a b) := by
  have hleft (c : Column) : c.withNullable (stackedNullable b c)
      = ((b.lookup? c.name).map c.atop).getD c.widened := by
    rw [stackedNullable]
    cases b.lookup? c.name with
    | none => exact congrArg c.withNullable (Bool.or_comm _ _)
    | some d => rfl
  have hnames (s : Schema) (nullable : Column → Bool) :
      (s.mapColumns fun c => c.withNullable (nullable c)).names = s.names := by
    rw [Schema.names, Schema.mapColumns, List.map_map]
    rfl
  rw [Schema.merge_keep ((hnames b _).symm ▸ hb), hnames]
  simp only [Schema.mapColumns, hleft]
  rfl

/-- The call that stacks two frames. -/
def stacking (l r : Binding) (typeArgs : List Binding) : OperationCall := ⟨l, [.frame r], typeArgs⟩

theorem concat_eq_ok_iff {l r : Binding} {typeArgs : List Binding} (hl : l.schema? = some a)
    (hr : r.schema? = some b) (ha : a.names.Nodup) (hb : b.names.Nodup) {s : Schema} :
    (stacking l r typeArgs).concat = .ok s ↔ Stackable a b ∧ s = stacked a b := by
  have hconcat : (stacking l r typeArgs).concat =
      (ofSchema (requireStackable b a.columns) >>= fun _ => ofSchema (.ok (stacked a b))) := by
    rw [concat, receiverSchema, show (stacking l r typeArgs).receiver = l from rfl, hl,
      ← merge_widened hb]
    show (known r.schema? >>= _) = _
    rw [hr]
    rfl
  rw [hconcat, bind_eq_ok, stackable_iff ha, ← requireStackable_eq_ok_iff]
  simp only [ofSchema_eq_ok, Except.ok.injEq, eq_comm (a := s)]
  exact ⟨fun ⟨_, h, hs⟩ => ⟨h, hs⟩, fun ⟨h, hs⟩ => ⟨(), h, hs⟩⟩

end OperationCall

namespace OperationRule

open OperationCall

variable {rule : OperationRule} (hkind : rule.kind = .concat) {typeArgs : List Binding}

include hkind

theorem apply_concat_eq_ok_iff {l r : Binding} {a b : Schema} (hl : l.schema? = some a)
    (hr : r.schema? = some b) (ha : a.names.Nodup) (hb : b.names.Nodup) {d : Binding} :
    rule.apply (stacking l r typeArgs) = .ok d ↔
      Stackable a b ∧ d = .known rule.output (stacked a b) none := by
  have happly : rule.apply (stacking l r typeArgs)
      = (stacking l r typeArgs).concat.map fun s => .known rule.output s none := by
    simp only [apply, hkind]
  rw [happly]
  constructor
  · intro h
    cases hs : (stacking l r typeArgs).concat with
    | error e =>
      rw [hs] at h
      cases h
    | ok s =>
      rw [hs] at h
      obtain ⟨hstackable, rfl⟩ := (concat_eq_ok_iff hl hr ha hb).1 hs
      exact ⟨hstackable, (Except.ok.inj h).symm⟩
  · rintro ⟨h, rfl⟩
    rw [(concat_eq_ok_iff hl hr ha hb).2 ⟨h, rfl⟩]
    rfl

/-- What becomes of two stacked frames. -/
theorem exists_apply_concat_iff {l r : Binding} {a b : Schema} (hl : l.schema? = some a)
    (hr : r.schema? = some b) (ha : a.names.Nodup) (hb : b.names.Nodup) {P : Binding → Prop} :
    (∃ d, rule.apply (stacking l r typeArgs) = .ok d ∧ P d) ↔
      Stackable a b ∧ P (.known rule.output (stacked a b) none) := by
  simp only [apply_concat_eq_ok_iff hkind hl hr ha hb, and_assoc, exists_and_left, exists_eq_left]

omit hkind

/-- Stacking a third frame on two others, and stacking two frames on the first, succeed together and
give the same. A column of values in the result that is not nullable is there in all three frames,
and not nullable in any of them. -/
theorem apply_concat_assoc (hkind : rule.kind = .concat) {l m r : Binding} {a b c : Schema}
    (hl : l.schema? = some a) (hm : m.schema? = some b) (hr : r.schema? = some c)
    (ha : a.names.Nodup) (hb : b.names.Nodup) (hc : c.names.Nodup) (typeArgs : List Binding) :
    (∀ d, (∃ lm, rule.apply (stacking l m typeArgs) = .ok lm ∧
        rule.apply (stacking lm r typeArgs) = .ok d) ↔
      ∃ mr, rule.apply (stacking m r typeArgs) = .ok mr ∧
        rule.apply (stacking l mr typeArgs) = .ok d) ∧
    ∀ lm shape s origin, rule.apply (stacking l m typeArgs) = .ok lm →
      rule.apply (stacking lm r typeArgs) = .ok (.known shape s origin) →
      ∀ col ∈ s.columns, col.kind = .value → col.nullable = false →
        ∀ frame ∈ [a, b, c], ∃ x ∈ frame.columns, x.name = col.name ∧ x.kind = .value ∧
          x.nullable = false := by
  have hab := nodup_names_stacked ha hb
  have hbc := nodup_names_stacked hb hc
  have hleft (d : Binding) := (@exists_apply_concat_iff _ hkind typeArgs _ _ _ _ hl hm ha hb
    (fun lm => rule.apply (stacking lm r typeArgs) = .ok d)).trans
      (and_congr_right fun _ => apply_concat_eq_ok_iff hkind rfl hr hab hc)
  have hright (d : Binding) := (@exists_apply_concat_iff _ hkind typeArgs _ _ _ _ hm hr hb hc
    (fun mr => rule.apply (stacking l mr typeArgs) = .ok d)).trans
      (and_congr_right fun _ => apply_concat_eq_ok_iff hkind hl rfl ha hbc)
  constructor
  · intro d
    rw [hleft, hright, ← and_assoc, ← and_assoc, stackable_assoc]
    refine and_congr_right fun h => ?_
    obtain ⟨h, h'⟩ := stackable_assoc.2 h
    rw [stacked_assoc ha hb hc h ((stackable_stacked h).1 h').1]
  · intro lm shape s origin hlm hs col hcol hkindCol hnull
    obtain ⟨h, h', heq⟩ := (hleft _).1 ⟨lm, hlm, hs⟩
    cases heq
    have hlookup := Schema.lookup?_of_mem (nodup_names_stacked hab hc) hcol
    rw [lookup?_stacked] at hlookup
    obtain ⟨⟨e, he, hekind, henull⟩, z, hz, hzkind, hznull⟩ :=
      values_of_stackedColumn (h' _) hlookup hkindCol hnull
    rw [lookup?_stacked] at he
    obtain ⟨⟨x, hx, hxkind, hxnull⟩, y, hy, hykind, hynull⟩ :=
      values_of_stackedColumn (h _) he hekind henull
    have hfound {frame : Schema} {x : Column} (hx : frame.lookup? col.name = some x)
        (hk : x.kind = .value) (hn : x.nullable = false) :
        ∃ x ∈ frame.columns, x.name = col.name ∧ x.kind = .value ∧ x.nullable = false :=
      ⟨x, Schema.mem_of_lookup? hx, Schema.name_of_lookup? hx, hk, hn⟩
    simp only [List.forall_mem_cons, List.not_mem_nil, false_implies, implies_true, and_true]
    exact ⟨hfound hx hxkind hxnull, hfound hy hykind hynull, hfound hz hzkind hznull⟩

/-- Measured values of three days; the name of the place is there every day, but one day not for
all rows. -/
def measured (day : Nat) : Schema :=
  ⟨[.ofValues "place" ⟨"String", [], day == 1⟩] ++
    (if day < 2 then [.ofValues "mean" (.simple "Double")] else []) ++
      (if 0 < day then [.ofFrames "values" .star none] else [])⟩

/-- Three days are stacked either way. -/
theorem apply_concat_assoc_measured :
    let rule : OperationRule := ⟨.dataFrame, "concat", .exact 1, .concat, .dataFrame⟩
    let frame (day : Nat) : Binding := .known .dataFrame (measured day) none
    rule.kind = .concat ∧ (measured 0).names.Nodup ∧ (measured 1).names.Nodup ∧
      (measured 2).names.Nodup ∧
      ∀ d, (∃ lm, rule.apply (stacking (frame 0) (frame 1) []) = .ok lm ∧
          rule.apply (stacking lm (frame 2) []) = .ok d) ↔
        ∃ mr, rule.apply (stacking (frame 1) (frame 2) []) = .ok mr ∧
          rule.apply (stacking (frame 0) mr []) = .ok d := by
  intro rule frame
  have h (day : Nat) (hday : day < 3) : (measured day).names.Nodup := by
    match day, hday with
    | 0, _ | 1, _ | 2, _ => decide
  exact ⟨rfl, h 0 (by decide), h 1 (by decide), h 2 (by decide),
    (apply_concat_assoc rfl (l := frame 0) (m := frame 1) (r := frame 2) rfl rfl rfl
      (h 0 (by decide)) (h 1 (by decide)) (h 2 (by decide)) []).1⟩

/-- Two frames are stacked either way round or not at all. Under every name there is then a column
of one kind and type, nullable or not, or none. Nested in it is what the receiver has there, or the
other frame where the receiver has no such column. -/
theorem apply_concat_comm (hkind : rule.kind = .concat) {l r : Binding} {a b : Schema}
    (hl : l.schema? = some a) (hr : r.schema? = some b) (ha : a.names.Nodup) (hb : b.names.Nodup)
    (typeArgs : List Binding) :
    ((∃ d, rule.apply (stacking l r typeArgs) = .ok d) ↔
      ∃ d, rule.apply (stacking r l typeArgs) = .ok d) ∧
    ∀ shape s origin shape' t origin',
      rule.apply (stacking l r typeArgs) = .ok (.known shape s origin) →
      rule.apply (stacking r l typeArgs) = .ok (.known shape' t origin') →
      ∀ n, (s.lookup? n).map (fun c => (c.kind, c.type, c.nullable))
          = (t.lookup? n).map (fun c => (c.kind, c.type, c.nullable)) ∧
        (s.lookup? n).map Column.children = ((a.lookup? n).or (b.lookup? n)).map Column.children ∧
        (t.lookup? n).map Column.children
          = ((b.lookup? n).or (a.lookup? n)).map Column.children := by
  simp only [apply_concat_eq_ok_iff hkind hl hr ha hb, apply_concat_eq_ok_iff hkind hr hl hb ha]
  constructor
  · simp only [exists_and_left, exists_eq, and_true]
    exact ⟨Stackable.symm, Stackable.symm⟩
  · rintro shape s origin shape' t origin' ⟨h, hs⟩ ⟨-, ht⟩ n
    cases hs
    cases ht
    rw [lookup?_stacked, lookup?_stacked]
    exact ⟨stackedColumn_comm (h n), children_stackedColumn, children_stackedColumn⟩

/-- Rows that are grouped, with one other column of this name. -/
def groupedWith (name : String) : Schema :=
  ⟨[.ofValues "key" (.simple "Int"),
    .ofFrames groupColumn .star (some ⟨[.ofValues name (.simple "Int")]⟩)]⟩

theorem apply_concat_comm_grouped :
    let rule : OperationRule := ⟨.dataFrame, "concat", .exact 1, .concat, .dataFrame⟩
    let frame (name : String) : Binding := .known .dataFrame (groupedWith name) none
    rule.kind = .concat ∧ (groupedWith "x").names.Nodup ∧ (groupedWith "y").names.Nodup ∧
      ((∃ d, rule.apply (stacking (frame "x") (frame "y") []) = .ok d) ↔
        ∃ d, rule.apply (stacking (frame "y") (frame "x") []) = .ok d) := by
  intro rule frame
  have hx : (groupedWith "x").names.Nodup := by decide
  have hy : (groupedWith "y").names.Nodup := by decide
  exact ⟨rfl, hx, hy,
    (apply_concat_comm rfl (l := frame "x") (r := frame "y") rfl rfl hx hy []).1⟩

/-- The receiver does decide which nested columns there are. -/
theorem not_apply_concat_comm : ¬∀ (rule : OperationRule) (l r : Binding) (a b : Schema),
    rule.kind = .concat → l.schema? = some a → r.schema? = some b → a.names.Nodup →
      b.names.Nodup → ∀ shape s origin shape' t origin',
        rule.apply (stacking l r []) = .ok (.known shape s origin) →
        rule.apply (stacking r l []) = .ok (.known shape' t origin') →
        ∀ n, s.lookup? n = t.lookup? n := by
  intro h
  have hsame := h ⟨.dataFrame, "concat", .exact 1, .concat, .dataFrame⟩
    (.known .dataFrame (groupedWith "x") none) (.known .dataFrame (groupedWith "y") none)
    _ _ rfl rfl rfl (by decide) (by decide) .dataFrame (groupedWith "x") none .dataFrame
    (groupedWith "y") none rfl rfl groupColumn
  have hnames := congrArg (fun c => (c.bind Column.children).map Schema.names) hsame
  exact absurd hnames (by decide)

end OperationRule

end FrameCheck
