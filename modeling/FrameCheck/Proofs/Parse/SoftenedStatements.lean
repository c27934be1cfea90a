import FrameCheck.Proofs.Parse.Printing
import FrameCheck.Proofs.Parse.SoftenedExpressions

/-!
# Statements with a soft keyword in the place of a name
-/

namespace FrameCheck

/-- No soft keyword has a dot in it. -/
theorem Softening.undotted_on {σ : Softening} {n : String} (h : '.' ∉ n.toList) :
    '.' ∉ (σ.on n).toList := by
  rw [Softening.on]
  split
  · cases σ.word <;> decide +kernel
  · exact h

namespace Named

/-- The receiver and the name of a function. -/
instance : Named (Option TypeRef × String) where
  rename σ x := (x.1.map (TypeRef.renamed σ.on),
    if x.1.isSome then σ.on x.2 else renameFirst σ.on x.2)
  strict x := (if x.1.isSome then [x.2] else innerSegments x.2.toList)
    ++ TypeRef.strictNamesAll x.1.toList

/-- The receiver and the name of a property, with the span of the name. -/
instance : Named (Option TypeRef × String × Span) where
  rename σ x := (x.1.map (TypeRef.renamed σ.on), σ.on x.2.1, x.2.2)
  strict x := (if x.1.isSome then [x.2.1] else []) ++ TypeRef.strictNamesAll x.1.toList

variable {σ : Softening}

theorem Same.type? {t t' : Option TypeRef} (h : Same σ t t') : t' = t.map (TypeRef.renamed σ.on) := by
  have h : t'.map (fun t => t) = (t.map (TypeRef.renamed σ.on)).map fun t => t := h
  rwa [Option.map_id', Option.map_id'] at h

theorem clean_type? {t : Option TypeRef} :
    Clean σ t ↔ σ.name ∉ TypeRef.strictNamesAll t.toList := by
  rw [TypeRef.strictNamesAll_eq_flatMap]
  exact Iff.rfl

theorem clean_expr? {e : Option Expr} : Clean σ e ↔ σ.name ∉ Expr.strictNames? e := by
  rw [Expr.strictNames?_eq_flatMap]
  exact Iff.rfl

theorem clean_receiver {type : TypeRef} {name : String} :
    Clean σ (some type, name) ↔ name ≠ σ.name ∧ Clean σ type := by
  simp [Clean, strict, eq_comm]

theorem clean_unreceived {name : String} :
    Clean σ ((none, name) : Option TypeRef × String) ↔ Clean σ name := by
  simp [Clean, strict]

theorem clean_property {type : TypeRef} {name : String} {span : Span} :
    Clean σ (some type, name, span) ↔ name ≠ σ.name ∧ Clean σ type := by
  simp [Clean, strict, eq_comm]

theorem clean_dotted {a b : String} (ha : Clean σ a) (hb : '.' ∉ b.toList) (hne : b ≠ σ.name) :
    Clean σ (a ++ "." ++ b) := by
  have ha : σ.name ∉ innerSegments a.toList := ha
  show σ.name ∉ innerSegments (a ++ "." ++ b).toList
  rw [toList_dotted, innerSegments_dotted, innerSegments_of_undotted hb, takeWhile_of_undotted hb,
    String.ofList_toList]
  simp [ha, hne.symm]

/-! ### Declarations and statements -/

section

variable {receiver type type' : Option TypeRef} {name : String} {b b' : Body}

theorem Same.funDecl {ps ps' : List Param} (hps : Same σ ps ps') (htype : Same σ type type')
    (hb : Same σ b b') {d d' : DeclId} {span : Span} {isProperty : Bool} :
    Same σ (FunDecl.mk d name receiver ps type b isProperty span)
      (FunDecl.mk d' (if receiver.isSome then σ.on name else renameFirst σ.on name)
        (receiver.map (TypeRef.renamed σ.on)) ps' type' b' isProperty span) := by
  have hps : ps'.map Param.unnumbered = (ps.map (Param.renamed σ.on)).map Param.unnumbered := hps
  have hb : b'.unnumbered = (b.renamed σ.on).unnumbered := hb
  show FunDecl.unnumbered _ = (FunDecl.renamed σ.on _).unnumbered
  rw [FunDecl.renamed, FunDecl.unnumbered, FunDecl.unnumbered, htype.type?, hb,
    Param.unnumberedAll_eq_map, Param.renamedAll_eq_map, Param.unnumberedAll_eq_map, hps]

theorem clean_funDecl {ps : List Param} {d : DeclId} {span : Span} {isProperty : Bool} :
    Clean σ (FunDecl.mk d name receiver ps type b isProperty span)
      ↔ Clean σ (receiver, name) ∧ Clean σ ps ∧ Clean σ type ∧ Clean σ b := by
  show σ.name ∉ FunDecl.strictNames _ ↔ σ.name ∉ _ ++ _ ∧ _
  rw [FunDecl.strictNames, List.mem_append, List.mem_append, List.mem_append, not_or, not_or, not_or,
    Param.strictNamesAll_eq_flatMap, ← clean_type?, and_assoc, and_assoc]
  exact Iff.rfl

theorem Same.valDecl {init init' : Option Expr} (htype : Same σ type type')
    (hinit : Same σ init init') (hb : Same σ b b') {d d' : DeclId} {mutable : Bool}
    {nameSpan span : Span} :
    Same σ (ValDecl.mk d mutable receiver name nameSpan type init b span)
      (ValDecl.mk d' mutable (receiver.map (TypeRef.renamed σ.on)) (σ.on name) nameSpan type' init' b'
        span) := by
  have hb : b'.unnumbered = (b.renamed σ.on).unnumbered := hb
  show ValDecl.unnumbered _ = (ValDecl.renamed σ.on _).unnumbered
  rw [ValDecl.renamed, ValDecl.unnumbered, ValDecl.unnumbered, htype.type?, hb,
    Expr.unnumbered?_eq_map, Expr.renamed?_eq_map, Expr.unnumbered?_eq_map, hinit.expr?]

theorem clean_valDecl {init : Option Expr} {d : DeclId} {mutable : Bool} {nameSpan span : Span} :
    Clean σ (ValDecl.mk d mutable receiver name nameSpan type init b span)
      ↔ Clean σ (receiver, name, nameSpan) ∧ Clean σ type ∧ Clean σ init ∧ Clean σ b := by
  show σ.name ∉ ValDecl.strictNames _ ↔ σ.name ∉ _ ++ _ ∧ _
  rw [ValDecl.strictNames, List.mem_append, List.mem_append, List.mem_append, not_or, not_or, not_or,
    ← clean_expr?, ← clean_type?, and_assoc, and_assoc]
  exact Iff.rfl

end

section

variable {v v' : ValDecl}

/-- What two declarations with the same names have in common. -/
theorem Same.parts (h : Same σ v v') :
    v'.receiver = v.receiver.map (TypeRef.renamed σ.on) ∧ v'.name = σ.on v.name ∧
      Same σ v.type v'.type ∧ Same σ v.getter v'.getter ∧ v'.span = v.span := by
  obtain ⟨d, mutable, receiver, name, nameSpan, type, init, b, span⟩ := v
  obtain ⟨d', mutable', receiver', name', nameSpan', type', init', b', span'⟩ := v'
  have h : ValDecl.unnumbered _ = (ValDecl.renamed σ.on _).unnumbered := h
  rw [ValDecl.renamed, ValDecl.unnumbered, ValDecl.unnumbered] at h
  obtain ⟨-, -, hreceiver, hname, -, htype, -, hb, hspan⟩ := ValDecl.mk.inj h
  refine ⟨hreceiver, hname, ?_, hb, hspan⟩
  show type'.map (fun t => t) = (type.map (TypeRef.renamed σ.on)).map fun t => t
  rw [htype]

theorem Same.isSome_receiver (h : Same σ v v') : v'.receiver.isSome = v.receiver.isSome := by
  rw [h.parts.1, Option.isSome_map]

theorem Same.function {f f' : FunDecl} (h : Same σ f f') :
    Same σ (Stmt.function f) (Stmt.function f') :=
  congrArg Stmt.function h

theorem Same.getterFunction (hreceiver : v.receiver.isSome = true) (h : Same σ v v') :
    Same σ (Stmt.function v.getterFunction) (Stmt.function v'.getterFunction) := by
  obtain ⟨hreceiver', hname, htype, hb, hspan⟩ := h.parts
  refine Same.function ?_
  unfold ValDecl.getterFunction
  rw [hreceiver', hname, hspan, show σ.on v.name
    = if v.receiver.isSome then σ.on v.name else renameFirst σ.on v.name from (if_pos hreceiver).symm]
  exact Same.funDecl rfl htype hb

theorem clean_getterFunction (hreceiver : v.receiver.isSome = true)
    (hinit : σ.name ∉ Expr.strictNames? v.init) (h : Clean σ (Stmt.function v.getterFunction)) :
    Clean σ v := by
  obtain ⟨d, mutable, receiver, name, nameSpan, type, init, b, span⟩ := v
  have h : Clean σ (FunDecl.mk d name receiver [] type b true span) := h
  obtain ⟨hname, -, htype, hb⟩ := clean_funDecl.1 h
  refine clean_valDecl.2 ⟨?_, htype, clean_expr?.2 hinit, hb⟩
  cases receiver with
  | none => exact nomatch hreceiver
  | some receiver => exact clean_property.2 (clean_receiver.1 hname)

theorem Same.val (h : Same σ v v') : Same σ (Stmt.val v) (Stmt.val v') :=
  congrArg Stmt.val h

end

theorem Same.ret {e e' : Option Expr} (h : Same σ e e') {span : Span} :
    Same σ (Stmt.ret e span) (Stmt.ret e' span) := by
  have h : Expr.unnumbered? e' = Expr.unnumbered? (Expr.renamed? σ.on e) := by
    rw [Expr.unnumbered?_eq_map, Expr.renamed?_eq_map, Expr.unnumbered?_eq_map, h.expr?]
  exact congrArg (Stmt.ret · span) h

theorem Same.exprStmt {e e' : Expr} (h : Same σ e e') : Same σ (Stmt.expr e) (Stmt.expr e') :=
  congrArg Stmt.expr h.expr

theorem Same.assign {target target' value value' : Expr} (ht : Same σ target target')
    (hv : Same σ value value') {span : Span} :
    Same σ (Stmt.assign target value span) (Stmt.assign target' value' span) :=
  congrArg₂ (Stmt.assign · · span) ht.expr hv.expr

theorem clean_assign {target value : Expr} {span : Span} :
    Clean σ (Stmt.assign target value span) ↔ Clean σ target ∧ Clean σ value := by
  show σ.name ∉ target.strictNames ++ value.strictNames ↔ _
  rw [List.mem_append, not_or]
  exact Iff.rfl

end Named

namespace Parser

open Named

variable {σ : Softening}

theorem Exact.statementEnd (s : ParseState) : Exact σ statementEnd statementEnd s := by
  refine (Exact.kind s).seq fun k k' t _ hk => ?_
  obtain rfl : k' = k.soften σ := hk
  refine ite (by simp) ((Exact.advance t).seq fun _ _ t _ _ => done rfl) (ite (by simp) (done rfl) fail)

/-- Where no annotation stands, none is read. -/
theorem annotations_eq (g : Grammar) {s : ParseState} (h : s.cursor.kind.isMark .at = false) :
    annotations g s = .done [] s := by
  have hmark : Parser.atMark .at s = .done false s := by rw [Parser.atMark, h]
  exact bind_eq_done.2 ⟨.stop [], s, (bind_of_done hmark).trans rfl, rfl⟩

/-- Only a few keywords begin a statement that is no expression. -/
theorem statement_eq (g : Grammar) : statement g = (do
    let k ← kind
    if k.isKeyword .valKw || k.isKeyword .varKw then
      let v ← valDecl g
      if v.receiver.isSome then return .function v.getterFunction else return .val v
    else if k.isKeyword .funKw then .function <$> funDecl g
    else if k.isKeyword .returnKw then returned g
    else assignment g) := by
  refine congrArg (kind >>= ·) (funext fun k => ?_)
  cases k with
  | keyword w => cases w <;> rfl
  | _ => rfl

namespace Carries

variable {α β : Type} [Named α] [Named β] {A : Prop} {s : ParseState}

theorem skipTypeParameters (s : ParseState) :
    Carries σ True skipTypeParameters skipTypeParameters s := by
  refine (Exact.expect s .less).next fun _ t _ => ?_
  refine (loop (fun depth depth' s hdepth => ?_) rfl t).mono fun _ => trivial
  obtain rfl : depth = depth' := hdepth.symm
  refine (Exact.advance s).next fun token t _ => ?_
  rw [show (rename σ token).kind = token.kind.soften σ from Token.kind_soften σ token,
    TokenKind.isEof_soften, TokenKind.isMark_soften, TokenKind.isMark_soften]
  refine ite Iff.rfl (fun _ => fail) fun _ => ?_
  refine ite Iff.rfl (fun _ => done rfl fun _ => Nameless.clean depth) fun _ => ?_
  refine ite Iff.rfl (fun _ => ?_) fun _ => done rfl fun _ => Nameless.clean depth
  exact ite Iff.rfl (fun _ => done rfl fun _ => Nameless.clean depth) fun _ =>
    done rfl fun _ => Nameless.clean depth

theorem declared {one one' : List α → Parser (List α)}
    (h : ∀ seen seen' s, Same σ seen seen' →
      Carries σ (Clean σ seen) (one seen) (one' seen') s) (s : ParseState) :
    Carries σ True (declared one) (declared one') s := by
  refine (Exact.expect s .leftParen).next fun _ t _ => ?_
  refine (loop (fun seen seen' s hseen => ?_) rfl t).mono fun _ => trivial
  refine (Exact.skipNewlines s).next fun _ t _ => (Exact.eat t .rightParen).next fun closed t _ => ?_
  refine ite Iff.rfl (fun _ => done (congrArg Round.stop hseen) fun h => h) fun _ => ?_
  refine through (h seen seen' t hseen) fun more more' t hmore => ?_
  refine (Exact.skipNewlines t).next fun _ t _ => (Exact.eat t .comma).next fun comma t _ => ?_
  refine ite Iff.rfl (fun _ => done (congrArg Round.next hmore) fun h => h) fun _ => ?_
  exact (Exact.expect t .rightParen).next fun _ t _ => done (congrArg Round.stop hmore) fun h => h

variable (g : Grammar) [g.Forward] [hg : g.Softens σ]

omit [g.Forward] hg in
theorem annotations_next {f f' : List AnnotationEntry → Parser β}
    (hf : ∀ s, Carries σ A (f []) (f' []) s) :
    Carries σ A (annotations g >>= f) (annotations g >>= f') s := by
  intro hs a t hd
  have hmark : s.cursor.kind.isMark .at = false := hs.head.unmarked
  rw [bind_of_done (annotations_eq g hmark)] at hd
  obtain ⟨ht, hback⟩ := hf s hs a t hd
  refine ⟨ht, fun hskipped hclean => ?_⟩
  obtain ⟨hsskipped, hA, hrun⟩ := hback hskipped hclean
  refine ⟨hsskipped, hA, fun s' hs' => ?_⟩
  have hmark' : s'.cursor.kind.isMark .at = false := by
    rw [hs'.cursor, Cursor.kind_soften, TokenKind.isMark_soften, hmark]
  rw [bind_of_done (annotations_eq g hmark')]
  exact hrun s' hs'

include hg

theorem initializer (s : ParseState) : Carries σ True (initializer g) (initializer g) s := by
  refine (Exact.eat s .equal).next fun given t _ => ite Iff.rfl (fun _ => ?_) fun _ => ?_
  · exact (Exact.skipNewlines t).next fun _ t _ => some (expression g t)
  · exact done rfl fun _ => trivial

theorem typeMark (s : ParseState) : Carries σ True (typeMark g) (typeMark g) s :=
  (Exact.eat s .colon).next fun _ t _ => ite Iff.rfl (fun _ => some (typeRef g t)) fun _ =>
    done rfl fun _ => trivial

theorem param (s : ParseState) : Carries σ True (param g) (param g) s := by
  refine annotations_next g fun s => (Exact.expectName s).next fun named t _ => ?_
  obtain ⟨name, span⟩ := named
  refine next (typeMark g t) fun type type' t _ htype => ?_
  refine next (initializer g t) fun default default' t _ hdefault => newDecl_next fun d d' t _ => ?_
  refine (Exact.lastSpan t).next fun last t _ => done ?_ fun hclean => ?_
  · show Param.unnumbered _ = (Param.renamed σ.on _).unnumbered
    rw [Param.renamed, Param.unnumbered, Param.unnumbered, htype.type?, Expr.unnumbered?_eq_map,
      Expr.unnumbered?_eq_map, Expr.renamed?_eq_map, hdefault.expr?]
    rfl
  · have hclean : σ.name ∉ Param.strictNames _ := hclean
    rw [Param.strictNames, List.mem_append, not_or] at hclean
    exact ⟨clean_expr?.2 hclean.2, clean_type?.2 hclean.1, trivial⟩

theorem params (s : ParseState) :
    Carries σ True (Parser.declared fun seen => do return seen ++ [← Parser.param g])
      (Parser.declared fun seen => do return seen ++ [← Parser.param g]) s := by
  refine declared (fun seen seen' s hseen => ?_) s
  exact next (param g s) fun p p' t _ hp => done (same_append hseen hp) fun h => (clean_append.1 h).symm

theorem body (s : ParseState) : Carries σ True (body g) (body g) s := by
  refine (Exact.eat s .equal).next fun given t _ => ite Iff.rfl (fun _ => ?_) fun _ => ?_
  · refine (Exact.skipNewlines t).next fun _ t _ => map (expression g t) (fun e e' he => ?_) fun e h => h
    exact congrArg Body.expr he.expr
  · exact map (block g t) (fun b b' hb => congrArg Body.block hb.body) fun b h => h

/-! ## Functions -/

/-- The type arguments behind the name of a function are dropped, unless it has a receiver. -/
theorem functionName (hargs : ∀ head u, Parser.typeRef g s = .done head u →
      σ.name ∉ TypeRef.strictNamesAll head.args) :
    Carries σ True (functionName g) (functionName g) s := by
  refine next (typeRef g s) fun head head' t hd hhead => ?_
  replace hargs := hargs head t hd
  refine (Exact.eat t .dot).next fun dotted t _ => ite Iff.rfl (fun _ => ?_) fun _ => ?_
  · refine (Exact.expectName t).next fun named t _ => done ?_ fun hclean => ⟨?_, trivial⟩
    · rw [hhead.type]
      rfl
    · exact (clean_receiver.1 hclean).2
  · obtain ⟨n, args, nullable⟩ := head
    obtain rfl := hhead.type
    rw [TypeRef.strictNamesAll_eq_flatMap] at hargs
    rw [TypeRef.renamed, TypeRef.renamedAll_eq_map]
    dsimp only
    have hplain : Carries σ (Clean σ (TypeRef.mk n args nullable) ∧ True)
        (pure (none, n) : Parser (Option TypeRef × String)) (pure (none, renameFirst σ.on n)) t :=
      done rfl fun hclean => ⟨Lags.clean_typeRef.2 ⟨clean_unreceived.1 hclean, hargs⟩, trivial⟩
    rcases undotted_or_dotted n with hn | ⟨a, b, rfl, hb⟩
    · rw [splitReceiver?_of_undotted hn]
      rw [renameFirst_of_undotted hn] at hplain ⊢
      rw [splitReceiver?_of_undotted (Softening.undotted_on hn)]
      exact hplain
    · rw [splitReceiver?_dotted a hb]
      rw [renameFirst_dotted] at hplain ⊢
      rw [splitReceiver?_dotted _ hb]
      cases args with
      | cons arg args => exact hplain
      | nil =>
        refine done_of_clean fun hclean => ?_
        obtain ⟨hb', ha⟩ := clean_receiver.1 hclean
        refine ⟨?_, Lags.clean_typeRef.2 ⟨?_, hargs⟩, trivial⟩
        · show (Option.some (TypeRef.simple (renameFirst σ.on a)), b)
            = (Option.some ((TypeRef.simple a).renamed σ.on), σ.on b)
          rw [Softening.on_of_ne hb']
          rfl
        · exact clean_dotted (Lags.clean_typeRef.1 ha).1 hb hb'

theorem funDecl (hfun : s.cursor.kind.isKeyword .funKw = true) :
    Carries σ True (funDecl g) (funDecl g) s := by
  refine of_suited fun hs => (Exact.advance s).next fun start t hstart => ?_
  refine newDecl_next fun d d' u hdecl => (Exact.atMark u .less).next fun generic v hgeneric => ?_
  extract_lets rest rest'
  have hrest {w} (hhead : ∀ head x, Parser.typeRef g w = .done head x →
      Parser.functionHead g s = .done head x) : Carries σ True (rest ()) (rest' ()) w := by
    obtain ⟨n, hn⟩ := hg.depth
    refine next (functionName g fun head x hd => ?_) fun named named' t _ hnamed => ?_
    · exact hs.head.args_dropped hfun n s head x rfl (hn ▸ hhead head x hd)
    obtain ⟨receiver, name⟩ := named
    obtain rfl := hnamed.eq
    refine next (params g t) fun ps ps' t _ hps => next (typeMark g t) fun type type' t _ htype => ?_
    refine (Exact.kind t).next fun k t _ => ?_
    extract_lets made made'
    have hmade {b b' : Body} (hb : Same σ b b') (t) :
        Carries σ (Clean σ b ∧ Clean σ type ∧ Clean σ ps ∧ Clean σ (receiver, name) ∧ True)
          (made b) (made' b') t := by
      refine (Exact.lastSpan t).next fun last t _ => done ?_ fun hclean => ?_
      · rw [span_rename]
        exact Same.funDecl hps htype hb
      · obtain ⟨hname, hps, htype, hb⟩ := clean_funDecl.1 hclean
        exact ⟨hb, htype, hps, hname, trivial⟩
    rw [show (rename σ k).isMark .equal = k.isMark .equal from TokenKind.isMark_soften k _,
      show (rename σ k).isMark .leftBrace = k.isMark .leftBrace from TokenKind.isMark_soften k _]
    refine ite Iff.rfl (fun _ => next (body g t) fun b b' t _ hb => hmade hb t) fun _ => ?_
    exact next (done (a := Body.absent) (b := Body.absent) rfl fun _ => trivial) fun b b' t _ hb =>
      hmade hb t
  have hhead : Parser.functionHead g s = (if generic = true then (do
      Parser.skipTypeParameters
      Parser.typeRef g) else Parser.typeRef g) v := by
    rw [Parser.functionHead, bind_of_done hstart, bind_of_done hdecl, bind_of_done hgeneric]
  refine ite Iff.rfl (fun htrue => ?_) fun hfalse => ?_
  · refine next (skipTypeParameters v) fun _ _ w hskip _ => ?_
    refine (hrest fun head x hd => ?_).mono fun _ => ⟨Nameless.clean (), trivial⟩
    rw [hhead, if_pos htrue, bind_of_done hskip, hd]
  · refine hrest fun head x hd => ?_
    rw [hhead, if_neg hfalse, hd]

/-! ## Properties -/

theorem propertyName (s : ParseState) : Carries σ True (propertyName g) (propertyName g) s := by
  refine cursor_next fun _ => ?_
  simp only [Cursor.kindAt_soften, TokenKind.isMark_soften]
  refine ite Iff.rfl (fun _ => ?_) fun _ => ?_
  · refine next (typeRef g s) fun head head' t _ hhead => ?_
    refine (Exact.eat t .dot).next fun dotted t _ => ite Iff.rfl (fun _ => ?_) fun _ => ?_
    · refine (Exact.expectName t).next fun named t _ => done ?_ fun hclean => ⟨?_, trivial⟩
      · rw [hhead.type]
        rfl
      · exact (clean_property.1 hclean).2
    · obtain ⟨n, args, nullable⟩ := head
      obtain rfl := hhead.type
      rw [TypeRef.renamed, TypeRef.renamedAll_eq_map]
      dsimp only
      rcases undotted_or_dotted n with hn | ⟨a, b, rfl, hb⟩
      · rw [splitReceiver?_of_undotted hn, renameFirst_of_undotted hn,
          splitReceiver?_of_undotted (Softening.undotted_on hn)]
        exact fail
      · rw [splitReceiver?_dotted a hb, renameFirst_dotted, splitReceiver?_dotted _ hb]
        cases args with
        | cons arg args => exact fail
        | nil =>
          cases nullable with
          | true => exact fail
          | false =>
            refine (Exact.lastSpan t).next fun last t _ => done_of_clean fun hclean => ?_
            obtain ⟨hb', ha⟩ := clean_property.1 hclean
            refine ⟨?_, Lags.clean_typeRef.2 ⟨?_, List.not_mem_nil⟩, trivial⟩
            · show (Option.some (TypeRef.simple (renameFirst σ.on a)), b, _)
                = (Option.some ((TypeRef.simple a).renamed σ.on), σ.on b, _)
              rw [Softening.on_of_ne hb']
              rfl
            · exact clean_dotted (Lags.clean_typeRef.1 ha).1 hb hb'
  · refine (Exact.expectName s).next fun named t _ => done rfl fun _ => trivial

omit [g.Forward] hg in
theorem isGetter_soften (c : Cursor) : isGetter (c.soften σ) = isGetter c := by
  have hget (k : TokenKind) : (k.soften σ).isName "get" = k.isName "get" :=
    k.isName_soften (by simp)
  simp only [isGetter, Cursor.kind_soften, Cursor.kindAt?_soften, Option.any_map, hget,
    TokenKind.isMark_soften]

theorem getter (s : ParseState) : Carries σ True (getter g) (getter g) s := by
  refine cursor_next fun _ => ?_
  dsimp only
  rw [Cursor.pastNewlines_soften, isGetter_soften, Cursor.advance_soften, Cursor.advance_soften,
    Cursor.advance_soften]
  refine ite Iff.rfl (fun _ => moveTo_next ?_ (of_suited fun hs => ?_)) fun _ =>
    done rfl fun _ => trivial
  · exact (Cursor.reaches_skipWhile s.cursor _).step.step.step.rest_suffix
  · rw [Parser.typeMark, bind_assoc]
    refine (Exact.eat _ .colon).next fun typed t heat => ite_next Iff.rfl (fun htrue => ?_) fun _ => ?_
    · subst htrue
      rw [bind_map_left]
      exact dropped_next g (fun k hk => Or.inr hk) hs heat fun _ _ t => body g t
    · exact body g t

theorem valDecl (s : ParseState) : Carries σ True (valDecl g) (valDecl g) s := by
  refine (Exact.advance s).next fun keyword t _ => next (propertyName g t) fun named named' t _ hn => ?_
  obtain ⟨receiver, name, nameSpan⟩ := named
  obtain rfl := hn.eq
  refine next (typeMark g t) fun type type' t _ htype => ?_
  refine next (initializer g t) fun init init' t _ hinit => next (getter g t) fun b b' t _ hb => ?_
  refine newDecl_next fun d d' t _ => (Exact.lastSpan t).next fun last t _ => done ?_ fun hclean => ?_
  · rw [span_rename, show (rename σ keyword).kind.isKeyword .varKw = keyword.kind.isKeyword .varKw by
      rw [show (rename σ keyword).kind = keyword.kind.soften σ from Token.kind_soften σ keyword,
        TokenKind.isKeyword_soften rfl]]
    exact Same.valDecl htype hinit hb
  · obtain ⟨hname, htype, hinit, hb⟩ := clean_valDecl.1 hclean
    exact ⟨hb, hinit, htype, hname, trivial⟩

/-! ## Statements -/

theorem returned (s : ParseState) : Carries σ True (returned g) (returned g) s := by
  refine (Exact.advance s).next fun start t _ => (Exact.kind t).next fun k t _ => ?_
  extract_lets made made'
  have hmade {value value' : Option Expr} (h : Same σ value value') (t) :
      Carries σ (Clean σ value ∧ True) (made value) (made' value') t := by
    refine (Exact.lastSpan t).next fun last t _ => done ?_ fun hclean => ⟨?_, trivial⟩
    · rw [span_rename]
      exact Same.ret h
    · exact clean_expr?.2 hclean
  rw [show (rename σ k).endsStatement = k.endsStatement from TokenKind.endsStatement_soften k]
  refine ite Iff.rfl (fun _ => ?_) fun _ => next (some (expression g t)) fun _ _ t _ h => hmade h t
  exact next (done (a := none) (b := none) rfl fun _ => trivial) fun _ _ t _ h => hmade h t

theorem assignment (s : ParseState) : Carries σ True (assignment g) (assignment g) s := by
  refine next (expression g s) fun target target' t _ ht => ?_
  refine (Exact.eat t .equal).next fun assigned t _ => ite Iff.rfl (fun _ => ?_) fun _ => ?_
  · refine (Exact.skipNewlines t).next fun _ t _ => next (expression g t) fun value value' t _ hv => ?_
    refine done ?_ fun hclean => ?_
    · rw [ht.span_eq, hv.span_eq]
      exact Same.assign ht hv
    · obtain ⟨ht, hv⟩ := clean_assign.1 hclean
      exact ⟨hv, ht, trivial⟩
  · exact done (Same.exprStmt ht) fun hclean => ⟨hclean, trivial⟩

theorem statement (s : ParseState) : Carries σ True (statement g) (statement g) s := by
  rw [statement_eq]
  refine of_suited fun hs => (Exact.kind s).next fun k t hk => ?_
  cases hk
  simp only [show rename σ s.cursor.kind = s.cursor.kind.soften σ from rfl,
    TokenKind.isKeyword_soften (show Keyword.isSoft .valKw = false from rfl),
    TokenKind.isKeyword_soften (show Keyword.isSoft .varKw = false from rfl),
    TokenKind.isKeyword_soften (show Keyword.isSoft .funKw = false from rfl),
    TokenKind.isKeyword_soften (show Keyword.isSoft .returnKw = false from rfl)]
  obtain ⟨n, rfl⟩ := hg.depth
  refine ite Iff.rfl (fun hkeyword => ?_) fun _ => ite Iff.rfl (fun hfun => ?_) fun _ =>
    ite Iff.rfl (fun _ => returned _ s) fun _ => assignment _ s
  · refine next (valDecl _ s) fun v v' t hd hv => ?_
    have hinit := hs.head.init_dropped (Bool.or_eq_true_iff.1 hkeyword) n s v t rfl hd
    rw [hv.isSome_receiver]
    refine ite Iff.rfl (fun hreceiver => ?_) fun _ => done (Same.val hv) fun hclean => ⟨hclean, trivial⟩
    exact done (Same.getterFunction hreceiver hv) fun hclean =>
      ⟨clean_getterFunction hreceiver (hinit hreceiver) hclean, trivial⟩
  · exact map (funDecl _ hfun) (fun f f' hf => Same.function hf) fun f h => h

omit [g.Forward] hg in
/-- Where the attempt fails, something is skipped. -/
theorem skipping_next {p p' : Parser α} (hp : Carries σ True p p' s) {f f' : Option α → Parser β}
    (hsome : ∀ a b t, Same σ a b → Carries σ (Clean σ a ∧ A) (f (Option.some a)) (f' (Option.some b)) t)
    (hnone : ∀ t r u, f none t = .done r u → s.cursor.Reaches u.cursor ∧ u.skipped ≠ []) :
    Carries σ A (Parser.attempt p >>= f) (Parser.attempt p' >>= f') s := by
  intro hs c u hd
  cases hps : p s with
  | done a t =>
    rw [bind_of_done (attempt_of_done hps)] at hd
    obtain ⟨ht, hback⟩ := hp hs a t hps
    obtain ⟨hu, hback'⟩ := hsome a (rename σ a) t rfl ht c u hd
    refine ⟨hu, fun hskipped hclean => ?_⟩
    obtain ⟨htskipped, ⟨ha, hA⟩, -⟩ := hback' hskipped hclean
    obtain ⟨hsskipped, -, hrun⟩ := hback htskipped ha
    refine ⟨hsskipped, hA, fun s' hs' => ?_⟩
    obtain ⟨b, t', hpb, hab, ht'⟩ := hrun s' hs'
    obtain ⟨d, u', hfb, hcd, hu'⟩ := ((hsome a b t hab ht c u hd).2 hskipped hclean).2.2 t' ht'
    exact ⟨d, u', (bind_of_done (attempt_of_done hpb)).trans hfb, hcd, hu'⟩
  | failed t =>
    rw [bind_of_done (attempt_of_failed hps)] at hd
    obtain ⟨hreach, hne⟩ := hnone t c u hd
    exact ⟨hs.of_suffix hreach.rest_suffix, fun hskipped => absurd hskipped hne⟩

theorem statements (s : ParseState) : Carries σ True (statements g) (statements g) s := by
  refine (loop (fun stmts stmts' s hstmts => ?_) rfl s).mono fun _ => trivial
  refine (Exact.skipSeparators s).next fun _ t _ => (Exact.eat t .rightBrace).next fun closed t _ => ?_
  refine ite Iff.rfl (fun _ => done (congrArg Round.stop hstmts) fun h => h) fun _ => ?_
  refine (Exact.kind t).next fun k t _ => ?_
  rw [show (rename σ k).isEof = k.isEof from TokenKind.isEof_soften k]
  refine ite Iff.rfl (fun _ => fail) fun _ => cursor_next fun _ => skipping_next ?_ ?_ ?_
  · refine next (statement g t) fun stmt stmt' t _ hstmt => (Exact.statementEnd t).next fun _ t _ => ?_
    exact done hstmt fun h => ⟨h, trivial⟩
  · intro stmt stmt' t hstmt
    exact done (congrArg Round.next (same_append hstmts hstmt)) fun h => (clean_append.1 h).symm
  · intro u r v hd
    obtain ⟨declared, w, -, hd⟩ := bind_eq_done.1 hd
    rw [bind_of_done (skipUnparsed_eq _ w)] at hd
    cases hd
    exact ⟨reaches_skipStop _, List.cons_ne_nil _ _⟩

end Carries

instance softens_ofDepth (σ : Softening) (n : ℕ) : (Grammar.ofDepth n).Softens σ := by
  induction n with
  | zero => exact ⟨⟨0, rfl⟩, .ofDepth 0, fun _ => .fail, fun _ => .fail, fun _ => .fail⟩
  | succ n ih =>
    exact ⟨⟨n + 1, rfl⟩, .ofDepth (n + 1), Lags.typeRef _ ih.type, Carries.expression _,
      Carries.statements _⟩

/-- A soft keyword can stand for a name in an expression, also in templates and in blocks: the
expression is read to the same place, and is the same but for the name. No statement of a block may
be skipped, and the name may stand in no place where the parser asks for a plain name. -/
theorem expression_soften (n : ℕ) {σ : Softening} {ts : List Token} (hts : σ.Suited ts) {e : Expr}
    {t : ParseState} (hd : expression (Grammar.ofDepth n) (SourceUnit.start ts) = .done e t)
    (hskipped : t.skipped = []) (hstrict : σ.name ∉ e.strictNames) :
    ∃ e' t', expression (Grammar.ofDepth n) (SourceUnit.start (ts.map (Token.soften σ)))
        = .done e' t' ∧
      t'.cursor = t.cursor.soften σ ∧ t'.skipped = [] ∧
      e'.unnumbered = (e.renamed σ.on).unnumbered := by
  have hstart : (SourceUnit.start ts).Softens σ (SourceUnit.start (ts.map (Token.soften σ))) :=
    ⟨hts.ofTokens, Cursor.ofTokens_soften ts, rfl⟩
  obtain ⟨-, hback⟩ := Carries.expression (.ofDepth n) _ hts.ofTokens e t hd
  obtain ⟨-, -, hrun⟩ := hback hskipped hstrict
  obtain ⟨e', t', hd', he, ht⟩ := hrun _ hstart
  exact ⟨e', t', hd', ht.cursor, ht.skipped.trans hskipped, he⟩

/-- `f("${x}") { x.size }` -/
def templateTokens : List Token :=
  [.named "f", Mark.leftParen.token, (TokenKind.template [[.named "x", TokenKind.eof.token]]).token,
    Mark.rightParen.token, Mark.leftBrace.token, .named "x", Mark.dot.token, .named "size",
    Mark.rightBrace.token, TokenKind.eof.token]

def dataForX : Softening := ⟨"x", .dataKw, rfl, by decide, by decide +kernel, by decide +kernel⟩

theorem suited_templateTokens : dataForX.Suited templateTokens := by
  refine .of_undemanding (by decide +kernel) fun t ht part hpart => ?_
  have hparts : ∀ t ∈ templateTokens, ∀ part ∈ t.kind.parts,
      (∀ u ∈ part, u.kind.isUndemanding = true) ∧ ∀ u ∈ part, u.kind.parts = [] := by
    decide +kernel
  obtain ⟨hplain, hnone⟩ := hparts t ht part hpart
  exact .of_undemanding hplain fun u hu part' hpart' => by simp [hnone u hu] at hpart'

theorem expression_soften_template : ∃ e t,
    expression (Grammar.ofDepth 12) (SourceUnit.start templateTokens) = .done e t ∧
      t.cursor.kind.isEof = true ∧ t.skipped = [] ∧ "x" ∉ e.strictNames ∧
      ∃ e' t', expression (Grammar.ofDepth 12)
          (SourceUnit.start (templateTokens.map (Token.soften dataForX))) = .done e' t' ∧
        t'.cursor = t.cursor.soften dataForX ∧ t'.skipped = [] ∧
        e'.unnumbered = (e.renamed dataForX.on).unnumbered := by
  have hvalue : (expression (Grammar.ofDepth 12) (SourceUnit.start templateTokens)).value?.map
      (fun e => e.strictNames.contains "x") = some false := by
    decide +kernel
  have hstate : let t := (expression (Grammar.ofDepth 12) (SourceUnit.start templateTokens)).state
      t.cursor.kind.isEof = true ∧ t.skipped = [] := by
    decide +kernel
  cases hd : expression (Grammar.ofDepth 12) (SourceUnit.start templateTokens) with
  | failed t =>
    rw [hd] at hvalue
    cases hvalue
  | done e t =>
    rw [hd] at hvalue hstate
    have hstrict : "x" ∉ e.strictNames := by simpa [Outcome.value?] using hvalue
    exact ⟨e, t, rfl, hstate.1, hstate.2, hstrict,
      expression_soften 12 suited_templateTokens hd hstate.2 hstrict⟩

/-- `f(x = 1)` -/
def namedArgumentTokens : List Token :=
  [.named "f", Mark.leftParen.token, .named "x", Mark.equal.token, (TokenKind.integer 1).token,
    Mark.rightParen.token, TokenKind.eof.token]

/-- The name of a named argument is no soft keyword. -/
theorem not_soften_namedArgument :
    (∃ e t, expression (Grammar.ofDepth 8) (SourceUnit.start namedArgumentTokens) = .done e t ∧
      t.cursor.kind.isEof = true) ∧
    ∀ e t, expression (Grammar.ofDepth 8)
      (SourceUnit.start (namedArgumentTokens.map (Token.soften dataForX))) ≠ .done e t := by
  refine ⟨?_, fun e t hd => ?_⟩
  · have hdone : (expression (Grammar.ofDepth 8)
        (SourceUnit.start namedArgumentTokens)).value?.isSome = true := by decide +kernel
    have hend : (expression (Grammar.ofDepth 8)
        (SourceUnit.start namedArgumentTokens)).state.cursor.kind.isEof = true := by decide +kernel
    cases hd : expression (Grammar.ofDepth 8) (SourceUnit.start namedArgumentTokens) with
    | failed t =>
      rw [hd] at hdone
      cases hdone
    | done e t =>
      rw [hd] at hend
      exact ⟨e, t, rfl, hend⟩
  · have hnone : (expression (Grammar.ofDepth 8)
        (SourceUnit.start (namedArgumentTokens.map (Token.soften dataForX)))).value?.isSome
          = false := by
      decide +kernel
    rw [hd] at hnone
    cases hnone

end Parser

end FrameCheck
