import FrameCheck.Proofs.Parse.Tracking

/-!
# Declarations go on

The rules of `Tracking`, followed through statements, declarations and classes. What is skipped starts
at a place that the parser has stood on, whatever it tried from there. So a text is parsed in the same
way by all grammars that are as deep as its tokens are heavy (`Grammar.agrees_ofDepth`).
-/

namespace FrameCheck

namespace Parser

variable {α β σ : Type}

/-! ## Skipping -/

/-- The place where the parser goes on behind a statement that it skips. -/
def skipStop (start : Cursor) : Cursor :=
  let stop := skipStatementFrom 0 start.here start.last start.ahead
  if stop.ahead.length < start.ahead.length then stop else stop.advance

/-- What is recorded of a statement that is skipped. -/
def skipSpan (start : Cursor) : Span :=
  if (skipStop start).ahead.length < start.ahead.length then
    start.here.span.join (skipStop start).last
  else start.here.span

theorem skipUnparsed_eq (start : Cursor) (s : ParseState) :
    skipUnparsed start s = .done () { s with
      cursor := skipStop start, skipped := skipSpan start :: s.skipped } := by
  unfold skipUnparsed skipSpan skipStop
  simp only [decide_eq_true_eq]

theorem reaches_skipStop (start : Cursor) : start.Reaches (skipStop start) := by
  have h := Cursor.reaches_skipStatementFrom start.ahead 0 start.here start.last
  unfold skipStop
  simp only
  split
  · exact h
  · exact h.step

namespace Tracks

variable {F : Nat → Cursor → Prop} [hF : Nesting F] {c d : Cursor} {n : Nat}

/-- Wherever the cursor is, the parser returns to a place that it has seen and skips. -/
theorem skipUnparsed_next {f f' : Unit → Parser α} (hd : Cursor.Leads F c n d)
    (hf : Tracks F c n (f ()) (f' ())) :
    Tracks F c n (Parser.skipUnparsed d >>= f) (Parser.skipUnparsed d >>= f') where
  along {s} _ := by
    rw [bind_of_done (skipUnparsed_eq d s), bind_of_done (skipUnparsed_eq d s)]
    exact (hf.along (hd.reach (reaches_skipStop d))).after
      ⟨Nat.le_refl _, Nat.le_refl _, List.suffix_cons _ _⟩

instance statementEnd : Tracks F c n Parser.statementEnd Parser.statementEnd := by
  refine next fun k => ?_
  split
  · infer_instance
  · split <;> infer_instance

/-! ## Annotations and modifiers -/

instance annotationName : Tracks F c n Parser.annotationName Parser.annotationName := by
  refine next fun (first, _) => next fun sited => ?_
  extract_lets rest
  have hrest : ∀ name, Tracks F c n (rest name) (rest name) := fun name => loop inferInstance _
  split <;> exact next hrest

instance skipModifiers : Tracks F c n Parser.skipModifiers Parser.skipModifiers := by
  refine loop (fun _ => next fun d => ?_) _
  extract_lets after
  split <;> infer_instance

instance skipTypeParameters :
    Tracks F c n Parser.skipTypeParameters Parser.skipTypeParameters := by
  refine next fun _ => loop (fun depth => next fun token => ?_) _
  split
  · infer_instance
  split
  · infer_instance
  split
  · split <;> infer_instance
  · infer_instance

theorem declaredRound {one one' : List α → Parser (List α)}
    (h : ∀ seen, Tracks F c n (one seen) (one' seen)) (seen : List α) :
    Tracks F c n (Rounds.declared one seen) (Rounds.declared one' seen) := by
  refine next fun _ => next fun closed => ?_
  split
  · infer_instance
  · exact next fun seen => inferInstance

theorem declared {one one' : List α → Parser (List α)}
    (h : ∀ seen, Tracks F c n (one seen) (one' seen)) :
    Tracks F c n (Parser.declared one) (Parser.declared one') :=
  next fun _ => loop (declaredRound h) _

variable (g g' : Grammar) [hg : Grammar.Agrees F n g g']

include hg

theorem unparsedVal {start : Cursor} (h : Cursor.Leads F c (n + 1) start) :
    Tracks F c (n + 1) (Parser.unparsedVal g start) (Parser.unparsedVal g' start) :=
  unparsedVal_cases (P := fun p => Tracks F c (n + 1) (p g) (p g')) inferInstance
    (fun _ _ _ _ => inferInstance) fun _ _ _ _ =>
      moveTo_next h.advance.advance.advance (seq (fun _ => inferInstance) (attempt inferInstance))

instance annotations : Tracks F c (n + 1) (Parser.annotations g) (Parser.annotations g') := by
  refine loop (fun seen => next fun marked => ?_) _
  split
  · refine next fun start => next fun name => next fun opened => ?_
    extract_lets entry
    have hentry : ∀ args, Tracks F c (n + 1) (entry args) (entry args) := inferInstance
    split <;> exact next hentry
  · infer_instance

/-! ## Functions and properties -/

instance typeMark : Tracks F c (n + 1) (Parser.typeMark g) (Parser.typeMark g') := by
  refine next fun typed => ?_
  split <;> infer_instance

instance initializer : Tracks F c (n + 1) (Parser.initializer g) (Parser.initializer g') := by
  refine next fun assigned => ?_
  split <;> infer_instance

instance param : Tracks F c (n + 1) (Parser.param g) (Parser.param g') :=
  next fun _ => next fun (_, _) => next fun _ => next fun _ => inferInstance

instance body : Tracks F c (n + 1) (Parser.body g) (Parser.body g') := by
  refine next fun short => ?_
  split <;> infer_instance

instance functionName : Tracks F c (n + 1) (Parser.functionName g) (Parser.functionName g') := by
  refine next fun head => next fun dotted => ?_
  split
  · infer_instance
  · split <;> infer_instance

instance propertyName : Tracks F c (n + 1) (Parser.propertyName g) (Parser.propertyName g') := by
  refine next fun d => ?_
  extract_lets after
  split
  · refine next fun head => next fun dotted => ?_
    split
    · exact next fun (_, _) => inferInstance
    · split <;> infer_instance
  · exact next fun (_, _) => inferInstance

instance getter : Tracks F c (n + 1) (Parser.getter g) (Parser.getter g') := by
  refine cursor_next fun start hstart => Tracks.at ?_
  extract_lets d
  have hd : Cursor.Leads F c (n + 1) d.advance.advance.advance :=
    (hstart.reach (start.reaches_skipWhile _)).advance.advance.advance
  split
  · exact moveTo_next hd (next fun _ => inferInstance)
  · infer_instance

theorem funDecl_led : Led F (n + 1) (Parser.funDecl g) (Parser.funDecl g') := by
  refine ⟨_, _, rfl, rfl, fun c start => ?_⟩
  refine next fun decl => next fun generic => ?_
  extract_lets rest rest'
  have hrest : ∀ u, Tracks F c (n + 1) (rest u) (rest' u) := by
    refine fun _ => next fun (receiver, name) => seq (fun params => next fun type =>
      next fun k => ?_) (declared fun seen => inferInstance)
    extract_lets made
    have hmade : ∀ b, Tracks F c (n + 1) (made b) (made b) := inferInstance
    split <;> exact next hmade
  split
  · exact next fun _ => hrest ()
  · exact hrest ()

instance funDecl : Tracks F c (n + 1) (Parser.funDecl g) (Parser.funDecl g') :=
  (funDecl_led g g').tracks inferInstance

theorem valDecl_led : Led F (n + 1) (Parser.valDecl g) (Parser.valDecl g') := by
  refine ⟨_, _, rfl, rfl, fun c keyword => ?_⟩
  extract_lets mutable
  exact next fun (receiver, name, nameSpan) => next fun type => next fun init => next fun getter =>
    inferInstance

instance valDecl : Tracks F c (n + 1) (Parser.valDecl g) (Parser.valDecl g') :=
  (valDecl_led g g').tracks inferInstance

/-! ## Statements -/

theorem returned_led : Led F (n + 1) (Parser.returned g) (Parser.returned g') := by
  refine ⟨_, _, rfl, rfl, fun c start => ?_⟩
  refine next fun k => ?_
  extract_lets made
  have hmade : ∀ value, Tracks F c (n + 1) (made value) (made value) := inferInstance
  split <;> exact next hmade

instance returned : Tracks F c (n + 1) (Parser.returned g) (Parser.returned g') :=
  (returned_led g g').tracks inferInstance

instance assignment : Tracks F c (n + 1) (Parser.assignment g) (Parser.assignment g') := by
  refine next fun target => next fun assigned => ?_
  split <;> infer_instance

instance statement : Tracks F c (n + 1) (Parser.statement g) (Parser.statement g') := by
  refine next fun k => ?_
  split
  · exact next fun v => inferInstance
  · exact next fun v => inferInstance
  · infer_instance
  · infer_instance
  · infer_instance

instance statementsRound (stmts : List Stmt) :
    Tracks F c (n + 1) (Rounds.statements g stmts) (Rounds.statements g' stmts) := by
  refine next fun _ => next fun closed => ?_
  split
  · infer_instance
  refine next fun k => ?_
  split
  · exact failBefore
  refine cursor_next fun start hstart => Tracks.at (seq (fun parsed => ?_) (attempt inferInstance))
  cases parsed with
  | some stmt => infer_instance
  | none =>
    exact seq (fun declared => skipUnparsed_next hstart inferInstance) (unparsedVal g g' hstart)

instance statements : Tracks F c (n + 1) (Parser.statements g) (Parser.statements g') :=
  loop (statementsRound g g') _

/-! ## Classes -/

instance constructorParam :
    Tracks F c (n + 1) (Parser.constructorParam g) (Parser.constructorParam g') := by
  refine next fun as => next fun _ => next fun start => next fun isVal => ?_
  extract_lets rest rest'
  have hrest (isVar) : Tracks F c (n + 1) (rest isVar) (rest' isVar) := by
    refine next fun (name, nameSpan) => next fun _ => next fun type => next fun default =>
      next fun decl => next fun last => ?_
    extract_lets span
    split <;> infer_instance
  split <;> exact next hrest

instance member (seen : Members) :
    Tracks F c (n + 1) (Parser.member g seen) (Parser.member g' seen) := by
  refine next fun as => next fun _ => next fun k => ?_
  split
  · exact next fun v => inferInstance
  · exact next fun v => inferInstance
  · infer_instance
  · infer_instance

instance classBodyRound (seen : Members) :
    Tracks F c (n + 1) (Rounds.classBody g seen) (Rounds.classBody g' seen) := by
  refine next fun _ => next fun closed => ?_
  split
  · infer_instance
  refine next fun k => ?_
  split
  · exact failBefore
  refine cursor_next fun start hstart => Tracks.at (seq (fun more => ?_) (attempt inferInstance))
  cases more with
  | some more => infer_instance
  | none => exact skipUnparsed_next hstart inferInstance

instance classBody (seen : Members) :
    Tracks F c (n + 1) (Parser.classBody g seen) (Parser.classBody g' seen) :=
  next fun _ => loop (classBodyRound g g') _

instance supertypes : Tracks F c (n + 1) (Parser.supertypes g) (Parser.supertypes g') := by
  refine next fun derived => ?_
  split
  · refine loop (fun types => next fun _ => ?_) _
    exact next fun type => inferInstance
  · infer_instance

theorem classDecl_led (as : List AnnotationEntry) (isInterface : Bool) :
    Led F (n + 1) (Parser.classDecl g as isInterface) (Parser.classDecl g' as isInterface) := by
  refine ⟨_, _, rfl, rfl, fun c start => ?_⟩
  refine next fun (name, nameSpan) => next fun generic => ?_
  extract_lets constructed opened constructed' opened'
  have hconstructed (constructor) :
      Tracks F c (n + 1) (constructed constructor) (constructed' constructor) := by
    refine next fun supertypes => ?_
    extract_lets members
    refine next fun braced => ?_
    split <;> exact next fun members => inferInstance
  have hopened (u) : Tracks F c (n + 1) (opened u) (opened' u) := by
    refine next fun paren => ?_
    split
    · exact seq hconstructed (declared fun seen => inferInstance)
    · exact next hconstructed
  split
  · exact next hopened
  · exact hopened ()

instance classDecl (as : List AnnotationEntry) (isInterface : Bool) :
    Tracks F c (n + 1) (Parser.classDecl g as isInterface) (Parser.classDecl g' as isInterface) :=
  (classDecl_led g g' as isInterface).tracks inferInstance

/-! ## Items -/

instance item : Tracks F c (n + 1) (Parser.item g) (Parser.item g') := by
  refine next fun as => next fun _ => next fun k => ?_
  split
  · infer_instance
  · infer_instance
  · infer_instance
  · exact next fun f => inferInstance
  · exact next fun v => inferInstance
  · exact next fun v => inferInstance
  · infer_instance

instance itemsRound (items : List Item) :
    Tracks F c (n + 1) (Rounds.items g items) (Rounds.items g' items) := by
  refine next fun _ => next fun k => ?_
  split
  · infer_instance
  · infer_instance
  · infer_instance
  refine cursor_next fun start hstart => Tracks.at (seq (fun parsed => ?_) (attempt inferInstance))
  cases parsed with
  | some i => infer_instance
  | none =>
    exact seq (fun declared => skipUnparsed_next hstart inferInstance) (unparsedVal g g' hstart)

instance items : Tracks F c (n + 1) (Parser.items g) (Parser.items g') :=
  loop (itemsRound g g') _

end Tracks

end Parser

/-! ## Depth -/

namespace Grammar

/-- Deeper grammars come to the same on what is not heavier than the less deep is deep. -/
theorem agrees_ofDepth (n k : Nat) : Agrees Cursor.Fits n (ofDepth n) (ofDepth (n + k)) := by
  induction n with
  | zero =>
    have hnone {α : Type} {c : Cursor} {p q : Parser α} : Parser.Tracks Cursor.Fits c 0 p q := by
      refine ⟨fun {s} hs => ?_⟩
      have hweight := hs.known.2
      rw [Cursor.rest, Token.listWeight, Token.weight_eq] at hweight
      omega
    exact ⟨fun _ => hnone, fun _ => hnone, fun _ => hnone⟩
  | succ n ih =>
    rw [Nat.add_right_comm]
    exact ⟨fun _ => Parser.Tracks.typeRef _ _, fun _ => Parser.Tracks.expression _ _,
      fun _ => Parser.Tracks.statements _ _⟩

/-- The parsers for nested parts go on, whatever the tokens are. -/
class Forward (g : Grammar) : Prop where
  agrees : ∀ n, Agrees Cursor.Unbounded n g g

instance forward_ofDepth (m : Nat) : (ofDepth m).Forward := by
  induction m with
  | zero =>
    exact ⟨fun n => ⟨fun _ => Parser.Tracks.fail, fun _ => Parser.Tracks.fail,
      fun _ => Parser.Tracks.fail⟩⟩
  | succ m ih =>
    refine ⟨fun n => ?_⟩
    have := ih.agrees n
    exact ⟨fun _ => Parser.Tracks.lower fun _ => Parser.Tracks.typeRef _ _,
      fun _ => Parser.Tracks.lower fun _ => Parser.Tracks.expression _ _,
      fun _ => Parser.Tracks.lower fun _ => Parser.Tracks.statements _ _⟩

end Grammar

end FrameCheck
