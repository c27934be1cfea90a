import FrameCheck.Proofs.Parse.Relocation

/-!
# Units from tokens at other places

The rules of `Parser.Follows`, followed through statements, declarations and classes. Skipping
what does not parse records spans of tokens too, and never that of an end.

* `SourceUnit.ofTokens_relocateAll` : relocated tokens give the relocated unit.
-/

namespace FrameCheck

namespace Parser

/-- What a constructor declares, with other spans. -/
def ConstructorParam.respan (f : Span → Span) : ConstructorParam → ConstructorParam
  | .plain p => .plain (p.respan f)
  | .property p => .property (p.respan f)

def Members.respan (f : Span → Span) (m : Members) : Members :=
  ⟨m.properties.map (PropertyDecl.respan f), m.methods.map (FunDecl.respan f)⟩

/-- One round of `items` : an item is read, or what does not parse is skipped. -/
def itemRound (g : Grammar) (items : List Item) : Parser (Round (List Item) (List Item)) := do
  let start ← cursor
  match ← attempt (item g) with
  | some i => return .next (items ++ [i])
  | none =>
    let declared ← unparsedVal g start
    skipUnparsed start
    return .next (items ++ (declared.map Item.property).toList)

theorem ConstructorParam.param?_respan (f : Span → Span) (p : ConstructorParam) :
    (p.respan f).param? = p.param?.map (Param.respan f) := by
  cases p <;> rfl

theorem ConstructorParam.property?_respan (f : Span → Span) (p : ConstructorParam) :
    (p.respan f).property? = p.property?.map (PropertyDecl.respan f) := by
  cases p <;> rfl

end Parser

theorem ValDecl.getterFunction_respan (f : Span → Span) (v : ValDecl) :
    (v.respan f).getterFunction = v.getterFunction.respan f := by
  rcases v with ⟨decl, mutable, receiver, name, nameSpan, type, init, getter, span⟩
  simp [ValDecl.respan, getterFunction, FunDecl.respan]

namespace Parser.Follows

variable {r : Relocation}

/-! ### Skipping -/

/-- What is skipped starts at a token that is no end. -/
theorem skipUnparsed {start : Cursor} (h : start.kind.isEof = false) (s : ParseState) :
    Follows r id (skipUnparsed start) (skipUnparsed (start.relocate r)) s := by
  have hstop : skipStatementFrom 0 (start.relocate r).here (start.relocate r).last
      (start.relocate r).ahead
      = (skipStatementFrom 0 start.here start.last start.ahead).relocate r :=
    skipStatementFrom_relocate r _ _ _ _
  have hspan := start.span_here_relocate r h
  unfold Follows Parser.skipUnparsed
  simp only [hstop]
  simp only [hspan, Cursor.length_ahead_relocate, Cursor.advance_relocate,
    ← apply_ite (Cursor.relocate r), Cursor.last_relocate, ← r.span_join, ← apply_ite r.span,
    Outcome.relocate, ParseState.relocate, List.map_cons, id]

variable (g : Grammar) [hg : g.Follows r]

theorem unparsedVal (start : Cursor) (s : ParseState) :
    Follows r (Option.map (ValDecl.respan r.span)) (unparsedVal g start)
      (unparsedVal g (start.relocate r)) s := by
  unfold Parser.unparsedVal
  cases h : start.ahead with
  | nil =>
    have h' : (start.relocate r).ahead = [] := by simp [Cursor.relocate, h, Token.relocateAll]
    simp only [h']
    exact done rfl
  | cons nameToken rest =>
    have h' : (start.relocate r).ahead
        = nameToken.relocate r rest.isEmpty :: Token.relocateAll r rest := by
      simp [Cursor.relocate, h, Token.relocateAll]
    have hnext : (Token.relocateAll r rest).head?.map Token.kind
        = (rest.head?.map Token.kind).map (TokenKind.relocate r) := by
      cases rest <;> simp [Token.relocateAll]
    simp only [h', hnext, Cursor.kind_relocate, TokenKind.isKeyword_relocate,
      Token.kind_relocate, Cursor.advance_relocate, Option.any_map,
      TokenKind.isMark_relocate]
    cases hdecl : start.kind.isKeyword .valKw || start.kind.isKeyword .varKw with
    | false => exact done rfl
    | true =>
      have hstart : (start.relocate r).here.span = r.span start.here.span := by
        rcases Bool.or_eq_true_iff.1 hdecl with hk | hk
        all_goals exact start.span_here_relocate r (TokenKind.isEof_of_isKeyword hk)
      cases hname : nameToken.kind
      case name name =>
        have hspan : (nameToken.relocate r rest.isEmpty).span = r.span nameToken.span :=
          Token.span_relocate r (by rw [hname]; exact Bool.and_false _)
        rw [hstart, hspan]
        have hmade {type : Option TypeRef} {decl : DeclId} :
            some (ValDecl.mk decl (start.kind.isKeyword .varKw) none name (r.span nameToken.span)
              type none .absent ((r.span start.here.span).join (r.span nameToken.span)))
            = Option.map (ValDecl.respan r.span) (some ⟨decl, start.kind.isKeyword .varKw, none,
              name, nameToken.span, type, none, .absent,
              start.here.span.join nameToken.span⟩) := by
          simp [ValDecl.respan, Body.respan, Relocation.span_join]
        refine ite rfl (fun _ => done rfl) fun _ => ite rfl (fun _ => ?_) fun _ => ?_
        · refine same (moveTo s _) fun _ t _ => next (attempt (typeRef g t)) fun type t _ => ?_
          rw [Option.map_id]
          exact same (newDecl t) fun decl t _ => done hmade
        · exact same (done rfl) fun type t _ => same (newDecl t) fun decl t _ => done hmade
      all_goals exact done rfl

omit hg in
theorem statementEnd (s : ParseState) : Follows r id statementEnd statementEnd s := by
  refine next (kind s) fun k t _ => ite (by simp) (fun _ => ?_) fun _ => ?_
  · exact next (advance t) fun _ t _ => done rfl
  · exact ite (by simp) (fun _ => done rfl) fun _ => fail

/-! ### Annotations and modifiers -/

omit hg in
theorem annotationName (s : ParseState) : Follows r id annotationName annotationName s := by
  refine next (expectName s) fun (first, _) t _ => same (eat t .colon) fun sited t _ => ?_
  extract_lets rest
  have hrest (name t) : Follows r id (rest name) (rest name) t := by
    refine loop id id (fun name s => same (eat s .dot) fun more t _ => ?_) name t
    exact ite rfl (fun _ => next (expectName t) fun (_, _) t _ => done rfl) fun _ => done rfl
  refine ite rfl (fun _ => ?_) fun _ => same (done rfl) fun name t _ => hrest name t
  exact same (map (expectName t) fun _ => rfl) fun name t _ => hrest name t

theorem annotations (s : ParseState) :
    Follows r (List.map (AnnotationEntry.respan r.span)) (annotations g) (annotations g) s := by
  refine loop (List.map (AnnotationEntry.respan r.span)) _ (fun seen s => ?_) [] s
  refine same (atMark s .at) fun marked t ht => ite rfl (fun hm => ?_) fun _ => done rfl
  cases ht
  refine next (advance_of (TokenKind.isEof_of_isMark hm)) fun start t _ => ?_
  refine same (annotationName t) fun name t _ => same (atMark t .leftParen) fun paren t _ => ?_
  extract_lets entry entry'
  have hentry (args t) : Follows r
      (Round.map (List.map (AnnotationEntry.respan r.span))
        (List.map (AnnotationEntry.respan r.span)))
      (entry args) (entry' (args.map (Argument.respan r.span))) t := by
    refine next (lastSpan t) fun last t _ => same (skipNewlines t) fun _ t _ => done ?_
    simp [AnnotationEntry.respan, Relocation.span_join]
  refine ite rfl (fun _ => next (arguments g t) fun args t _ => hentry args t) fun _ => ?_
  exact next (g := List.map (Argument.respan r.span)) (done rfl) fun args t _ => hentry args t

omit hg in
theorem skipModifiers (s : ParseState) : Follows r id skipModifiers skipModifiers s := by
  refine loop id id (fun _ s => next (cursor s) fun c t _ => ?_) () s
  refine ite (by simp) (fun _ => ?_) fun _ => done rfl
  exact next (advance t) fun _ t _ => done rfl

omit hg in
theorem skipTypeParameters (s : ParseState) :
    Follows r id skipTypeParameters skipTypeParameters s := by
  refine next (expect s .less) fun _ t _ => loop id id (fun depth s => ?_) 0 t
  refine next (advance s) fun token t _ => ite (by simp) (fun _ => fail) fun _ => ?_
  refine ite (by simp) (fun _ => done rfl) fun _ => ?_
  refine ite (by simp) (fun _ => ite rfl (fun _ => done rfl) fun _ => done rfl) fun _ => done rfl

/-! ### Functions and properties -/

theorem initializer (s : ParseState) :
    Follows r (Option.map (Expr.respan r.span)) (initializer g) (initializer g) s := by
  refine same (eat s .equal) fun given t _ => ite rfl (fun _ => ?_) fun _ => done rfl
  exact same (skipNewlines t) fun _ t _ => map (expression g t) fun _ => rfl

theorem typeMark (s : ParseState) : Follows r id (typeMark g) (typeMark g) s :=
  same (eat s .colon) fun _ t _ =>
    ite rfl (fun _ => map (typeRef g t) fun _ => rfl) fun _ => done rfl

omit hg in
theorem declared {α β : Type} (f : α → β) {one : List α → Parser (List α)}
    {one' : List β → Parser (List β)}
    (h : ∀ seen s, Follows r (List.map f) (one seen) (one' (seen.map f)) s) (s : ParseState) :
    Follows r (List.map f) (declared one) (declared one') s := by
  refine next (expect s .leftParen) fun _ t _ =>
    loop (List.map f) (List.map f) (fun seen s => ?_) [] t
  refine same (skipNewlines s) fun _ t _ => same (eat t .rightParen) fun closed t _ => ?_
  refine ite rfl (fun _ => done rfl) fun _ => next (h seen t) fun seen t _ => ?_
  refine same (skipNewlines t) fun _ t _ => same (eat t .comma) fun more t _ => ?_
  exact ite rfl (fun _ => done rfl) fun _ => next (expect t .rightParen) fun _ t _ => done rfl

theorem param (s : ParseState) : Follows r (Param.respan r.span) (param g) (param g) s := by
  refine next (annotations g s) fun _ t _ => next (expectName t) fun (name, span) t _ => ?_
  refine same (typeMark g t) fun type t _ => next (initializer g t) fun default t _ => ?_
  refine same (newDecl t) fun decl t _ => next (lastSpan t) fun last t _ => done ?_
  simp [Param.respan, Relocation.span_join]

theorem body (s : ParseState) : Follows r (Body.respan r.span) (body g) (body g) s := by
  refine same (eat s .equal) fun given t _ => ite rfl (fun _ => ?_) fun _ => ?_
  · exact same (skipNewlines t) fun _ t _ => map (expression g t) fun _ => by rw [Body.respan]
  · exact map (block g t) fun _ => by rw [Body.respan]

theorem functionName (s : ParseState) : Follows r id (functionName g) (functionName g) s := by
  refine same (typeRef g s) fun head t _ => same (eat t .dot) fun dotted t _ => ?_
  refine ite rfl (fun _ => next (expectName t) fun (_, _) t _ => done rfl) fun _ => ?_
  split <;> exact done rfl

theorem funDecl {s : ParseState} (h : s.cursor.kind.isEof = false) :
    Follows r (FunDecl.respan r.span) (funDecl g) (funDecl g) s := by
  refine next (advance_of h) fun start t _ => same (newDecl t) fun decl t _ => ?_
  refine same (atMark t .less) fun generic t _ => ?_
  extract_lets named named'
  have hnamed (t) : Follows r (FunDecl.respan r.span) (named ()) (named' ()) t := by
    refine same (functionName g t) fun (receiver, name) t _ => ?_
    refine next (declared (Param.respan r.span) (fun seen s => ?_) t) fun params t _ => ?_
    · exact next (param g s) fun p t _ => done (by simp)
    refine same (typeMark g t) fun returnType t _ => next (kind t) fun k t _ => ?_
    extract_lets made made'
    have hmade (b t) : Follows r (FunDecl.respan r.span) (made b)
        (made' (b.respan r.span)) t :=
      next (lastSpan t) fun last t _ => done (by simp [FunDecl.respan, Relocation.span_join])
    refine ite (by simp) (fun _ => next (body g t) fun b t _ => hmade b t) fun _ => ?_
    exact next (g := Body.respan r.span) (done (by rw [Body.respan])) fun b t _ => hmade b t
  exact ite rfl (fun _ => same (skipTypeParameters t) fun _ t _ => hnamed t) fun _ => hnamed t

theorem propertyName (s : ParseState) :
    Follows r (Prod.map id (Prod.map id r.span)) (propertyName g) (propertyName g) s := by
  refine next (cursor s) fun c t _ => ?_
  refine ite (by simp) (fun _ => ?_) fun _ => ?_
  · refine same (typeRef g t) fun head t _ => same (eat t .dot) fun dotted t _ => ?_
    refine ite rfl (fun _ => next (expectName t) fun (_, _) t _ => done rfl) fun _ => ?_
    split
    · exact next (lastSpan t) fun last t _ => done rfl
    · exact fail
  · exact next (expectName t) fun (_, _) t _ => done rfl

omit hg in
theorem isGetter_relocate (c : Cursor) : isGetter (c.relocate r) = isGetter c := by
  simp [isGetter, Option.any_map]

theorem getter (s : ParseState) : Follows r (Body.respan r.span) (getter g) (getter g) s := by
  refine next (cursor s) fun c t _ => ?_
  extract_lets d d'
  have hd : d' = d.relocate r := c.pastNewlines_relocate r
  refine ite (by rw [hd, isGetter_relocate]) (fun _ => ?_) fun _ => done (by rw [Body.respan])
  rw [hd, Cursor.advance_relocate, Cursor.advance_relocate, Cursor.advance_relocate]
  exact same (moveTo t _) fun _ t _ => same (typeMark g t) fun _ t _ => body g t

theorem valDecl {s : ParseState} (h : s.cursor.kind.isEof = false) :
    Follows r (ValDecl.respan r.span) (valDecl g) (valDecl g) s := by
  refine next (advance_of h) fun keyword t _ => ?_
  extract_lets mutable mutable'
  have hm : mutable' = mutable := by simp [mutable, mutable']
  refine next (propertyName g t) fun (receiver, name, nameSpan) t _ => ?_
  refine same (typeMark g t) fun type t _ => next (initializer g t) fun init t _ => ?_
  refine next (getter g t) fun b t _ => same (newDecl t) fun decl t _ => ?_
  refine next (lastSpan t) fun last t _ => done ?_
  simp [ValDecl.respan, Relocation.span_join, hm]

/-! ### Statements -/

theorem returned {s : ParseState} (h : s.cursor.kind.isEof = false) :
    Follows r (Stmt.respan r.span) (returned g) (returned g) s := by
  refine next (advance_of h) fun start t _ => next (kind t) fun k t _ => ?_
  extract_lets made made'
  have hmade (value t) : Follows r (Stmt.respan r.span) (made value)
      (made' (value.map (Expr.respan r.span))) t :=
    next (lastSpan t) fun last t _ => done (by simp [Stmt.respan, Relocation.span_join])
  refine ite (by simp) (fun _ => ?_) fun _ => ?_
  · exact next (g := Option.map (Expr.respan r.span)) (done rfl) fun value t _ => hmade value t
  · exact next (map (expression g t) fun _ => rfl) fun value t _ => hmade value t

theorem assignment (s : ParseState) :
    Follows r (Stmt.respan r.span) (assignment g) (assignment g) s := by
  refine next (expression g s) fun target t _ => same (eat t .equal) fun given t _ => ?_
  refine ite rfl (fun _ => ?_) fun _ => done (by rw [Stmt.respan])
  refine same (skipNewlines t) fun _ t _ => next (expression g t) fun value t _ => done ?_
  simp [Stmt.respan, Relocation.span_join]

theorem statement (s : ParseState) :
    Follows r (Stmt.respan r.span) (statement g) (statement g) s := by
  refine next (kind s) fun k t hk => ?_
  cases hk
  rcases s.cursor.kind.relocate_cases r with ⟨parts, hk⟩ | ⟨hk, -⟩
  · rw [hk, TokenKind.relocate]
    exact assignment g s
  · rw [hk]
    have hend {k : TokenKind} (h : s.cursor.kind = k) (hk : k.isEof = false) :
        s.cursor.kind.isEof = false := h ▸ hk
    split
    case h_1 h | h_2 h =>
      refine next (valDecl g (hend h rfl)) fun v t _ => ite (by simp) (fun _ => done ?_)
        fun _ => done ?_
      · rw [ValDecl.getterFunction_respan, Stmt.respan]
      · rw [Stmt.respan]
    case h_3 h => exact map (funDecl g (hend h rfl)) fun _ => by rw [Stmt.respan]
    case h_4 h => exact returned g (hend h rfl)
    case h_5 => exact assignment g s

theorem statements (s : ParseState) :
    Follows r (List.map (Stmt.respan r.span)) (statements g) (statements g) s := by
  refine loop (List.map (Stmt.respan r.span)) _ (fun stmts s => ?_) [] s
  refine same (skipSeparators s) fun _ t _ => same (eat t .rightBrace) fun closed t _ => ?_
  refine ite rfl (fun _ => done rfl) fun _ => next (kind t) fun k t' hk => ?_
  cases hk
  refine ite (by simp) (fun _ => fail) fun hend => next (cursor t) fun start t' hc => ?_
  cases hc
  refine next (attempt (g := Stmt.respan r.span) ?_) fun parsed u _ => ?_
  · exact next (statement g t) fun stmt t _ => same (statementEnd t) fun _ t _ => done rfl
  · cases parsed with
    | some stmt => exact done (by simp)
    | none =>
      refine next (unparsedVal g t.cursor u) fun declared u _ => ?_
      refine same (skipUnparsed (by simpa using hend) u) fun _ u _ => done ?_
      cases declared <;> simp [Stmt.respan]

/-! ### Classes -/

theorem expectName_done {s t : ParseState} {x : String × Span}
    (h : Parser.expectName s = .done x t) : s.cursor.kind.isEof = false := by
  obtain ⟨token, u, ht, hu⟩ := bind_eq_done.1 h
  cases ht
  cases hn : s.cursor.here.kind.asName? with
  | none => simp [hn, Parser.fail] at hu
  | some name => exact isEof_of_asName? hn

theorem eatKeyword_done {s t : ParseState} {w : Keyword} {b : Bool}
    (h : Parser.eatKeyword w s = .done b t) (hend : s.cursor.kind.isEof = true) : t = s := by
  have hw : s.cursor.kind.isKeyword w = false := by
    cases hw : s.cursor.kind.isKeyword w with
    | false => rfl
    | true => exact absurd (TokenKind.isEof_of_isKeyword hw) (by simp [hend])
  unfold Parser.eatKeyword Parser.eatIf at h
  rw [hw] at h
  cases h
  rfl

theorem constructorParam (s : ParseState) :
    Follows r (ConstructorParam.respan r.span) (constructorParam g) (constructorParam g) s := by
  refine next (annotations g s) fun annotations t _ => same (skipModifiers t) fun _ t _ => ?_
  refine span_next fun start hstart => same (eatKeyword t .valKw) fun isVal u hu => ?_
  extract_lets named named'
  -- no keyword and no name stands at an end
  have hnamed (isVar : Bool) (v : ParseState) (hv : t.cursor.kind.isEof = true → v = t) :
      Follows r (ConstructorParam.respan r.span) (named isVar) (named' isVar) v := by
    refine next (expectName v) fun (name, nameSpan) w hw => ?_
    have hend : t.cursor.kind.isEof = false := by
      cases hend : t.cursor.kind.isEof with
      | false => rfl
      | true =>
        rw [hv hend] at hw
        exact hend ▸ expectName_done hw
    obtain rfl := hstart hend
    refine next (expect w .colon) fun _ w _ => same (typeRef g w) fun type w _ => ?_
    refine next (initializer g w) fun default w _ => same (newDecl w) fun decl w _ => ?_
    refine next (lastSpan w) fun last w _ => ite rfl (fun _ => done ?_) fun _ => done ?_
    · simp [ConstructorParam.respan, PropertyDecl.respan, Body.respan, Relocation.span_join]
    · simp [ConstructorParam.respan, Param.respan, Relocation.span_join]
  refine ite rfl (fun _ => ?_) fun _ => ?_
  · exact same (done rfl) fun isVar v hv => hnamed isVar v fun hend => by
      cases hv
      exact eatKeyword_done hu hend
  · refine same (eatKeyword u .varKw) fun isVar v hv => hnamed isVar v fun hend => ?_
    obtain rfl := eatKeyword_done hu hend
    exact eatKeyword_done hv hend

theorem member (seen : Members) (s : ParseState) :
    Follows r (Members.respan r.span) (member g seen) (member g (seen.respan r.span)) s := by
  refine next (annotations g s) fun annotations t _ => same (skipModifiers t) fun _ t _ => ?_
  refine next (kind t) fun k t' hk => ?_
  cases hk
  rcases t.cursor.kind.relocate_cases r with ⟨parts, hk⟩ | ⟨hk, -⟩
  · rw [hk, TokenKind.relocate]
    exact fail
  · rw [hk]
    have hend {k : TokenKind} (h : t.cursor.kind = k) (hk : k.isEof = false) :
        t.cursor.kind.isEof = false := h ▸ hk
    split
    case h_1 h | h_2 h =>
      refine next (valDecl g (hend h rfl)) fun v t _ => same (statementEnd t) fun _ t _ => ?_
      refine ite (by simp) (fun _ => done ?_) fun _ => done ?_
      · simp [Members.respan, ValDecl.getterFunction_respan]
      · rcases v with ⟨decl, mutable, receiver, name, nameSpan, type, init, getter, span⟩
        simp [Members.respan, PropertyDecl.respan, ValDecl.respan]
    case h_3 h =>
      refine next (funDecl g (hend h rfl)) fun f t _ => same (statementEnd t) fun _ t _ => done ?_
      simp [Members.respan]
    case h_4 => exact fail

theorem classBody (seen : Members) (s : ParseState) :
    Follows r (Members.respan r.span) (classBody g seen) (classBody g (seen.respan r.span)) s := by
  refine next (expect s .leftBrace) fun _ t _ =>
    loop (Members.respan r.span) _ (fun seen s => ?_) seen t
  refine same (skipSeparators s) fun _ t _ => same (eat t .rightBrace) fun closed t _ => ?_
  refine ite rfl (fun _ => done rfl) fun _ => next (kind t) fun k t' hk => ?_
  cases hk
  refine ite (by simp) (fun _ => fail) fun hend => next (cursor t) fun start t' hc => ?_
  cases hc
  refine next (attempt (member g seen t)) fun parsed u _ => ?_
  cases parsed with
  | some more => exact done rfl
  | none => exact same (skipUnparsed (by simpa using hend) u) fun _ u _ => done rfl

theorem supertypes (s : ParseState) : Follows r id (supertypes g) (supertypes g) s := by
  refine same (eat s .colon) fun given t _ => ite rfl (fun _ => ?_) fun _ => done rfl
  refine loop id id (fun types s => same (skipNewlines s) fun _ t _ => ?_) [] t
  refine same (typeRef g t) fun type t _ => same (atMark t .leftParen) fun paren t _ => ?_
  extract_lets types more
  have hmore (t) : Follows r (Round.map id id) (more ()) (more ()) t :=
    same (eat t .comma) fun _ t _ => ite rfl (fun _ => done rfl) fun _ => done rfl
  exact ite rfl (fun _ => next (arguments g t) fun _ t _ => hmore t) fun _ => hmore t

theorem classDecl (annotations : List AnnotationEntry) (isInterface : Bool) (s : ParseState) :
    Follows r (ClassDecl.respan r.span) (classDecl g annotations isInterface)
      (classDecl g (annotations.map (AnnotationEntry.respan r.span)) isInterface) s := by
  refine next (advance s) fun start t ht => next (expectName t) fun (name, nameSpan) u hu => ?_
  -- behind an end there is no name
  have hstart : (start.relocate r s.cursor.ahead.isEmpty).span = r.span start.span := by
    cases ht
    refine Token.span_relocate r ?_
    cases hahead : s.cursor.ahead with
    | cons t ts => rfl
    | nil =>
      have hend := expectName_done hu
      unfold Cursor.advance at hend
      rw [hahead] at hend
      exact hend
  refine same (atMark u .less) fun generic t _ => ?_
  extract_lets made headed made' headed'
  have hmade (params t) : Follows r (ClassDecl.respan r.span) (made params)
      (made' (params.map (ConstructorParam.respan r.span))) t := by
    refine same (supertypes g t) fun types t _ => ?_
    extract_lets members built members' built'
    have hmembers : members' = members.respan r.span := by
      simp [members, members', Members.respan, List.filterMap_map, List.map_filterMap,
        ConstructorParam.property?_respan]
    have hbuilt (members t) : Follows r (ClassDecl.respan r.span) (built members)
        (built' (members.respan r.span)) t := by
      refine next (lastSpan t) fun last t _ => done ?_
      simp [ClassDecl.respan, Members.respan, Relocation.span_join, hstart, List.filterMap_map,
        List.map_filterMap, ConstructorParam.param?_respan]
    refine same (atMark t .leftBrace) fun braced t _ => ?_
    rw [hmembers]
    refine ite rfl (fun _ => ?_) fun _ => ?_
    · exact next (classBody g members t) fun members t _ => hbuilt members t
    · exact next (g := Members.respan r.span) (done rfl) fun members t _ => hbuilt members t
  have hheaded (t) : Follows r (ClassDecl.respan r.span) (headed ()) (headed' ()) t := by
    refine same (atMark t .leftParen) fun paren t _ => ite rfl (fun _ => ?_) fun _ => ?_
    · refine next (declared (ConstructorParam.respan r.span) (fun seen s => ?_) t)
        fun params t _ => hmade params t
      exact next (constructorParam g s) fun p t _ => done (by simp)
    · exact next (g := List.map (ConstructorParam.respan r.span)) (done rfl) fun params t _ =>
        hmade params t
  exact ite rfl (fun _ => same (skipTypeParameters t) fun _ t _ => hheaded t) fun _ => hheaded t

omit hg in
theorem skipLine (s : ParseState) : Follows r id skipLine skipLine s :=
  skipWhile s fun k => by simp

theorem item (s : ParseState) : Follows r (Item.respan r.span) (item g) (item g) s := by
  refine next (annotations g s) fun annotations t _ => same (skipModifiers t) fun _ t _ => ?_
  refine next (kind t) fun k t' hk => ?_
  cases hk
  rcases t.cursor.kind.relocate_cases r with ⟨parts, hk⟩ | ⟨hk, -⟩
  · rw [hk, TokenKind.relocate]
    exact fail
  · rw [hk]
    have hend {k : TokenKind} (h : t.cursor.kind = k) (hk : k.isEof = false) :
        t.cursor.kind.isEof = false := h ▸ hk
    split
    case h_1 => exact map (classDecl g annotations true t) fun _ => rfl
    case h_2 =>
      exact next (advance t) fun _ t _ => map (classDecl g annotations false t) fun _ => rfl
    case h_3 => exact map (classDecl g annotations false t) fun _ => rfl
    case h_4 h =>
      exact next (funDecl g (hend h rfl)) fun f t _ => same (statementEnd t) fun _ t _ => done rfl
    case h_5 h | h_6 h =>
      refine next (valDecl g (hend h rfl)) fun v t _ => same (statementEnd t) fun _ t _ => ?_
      refine ite (by simp) (fun _ => done ?_) fun _ => done rfl
      rw [ValDecl.getterFunction_respan, Item.respan]
    case h_7 => exact fail

/-- The round of `items` that reads an item, or skips what does not parse. -/
theorem itemRound (items : List Item) {s : ParseState} (h : s.cursor.kind.isEof = false) :
    Follows r (Round.map (List.map (Item.respan r.span)) (List.map (Item.respan r.span)))
      (itemRound g items) (itemRound g (items.map (Item.respan r.span))) s := by
  refine next (cursor s) fun start t hc => ?_
  cases hc
  refine next (attempt (item g s)) fun parsed u _ => ?_
  cases parsed with
  | some i => exact done (by simp)
  | none =>
    refine next (unparsedVal g s.cursor u) fun declared u _ => ?_
    refine same (skipUnparsed h u) fun _ u _ => done ?_
    cases declared <;> simp [Item.respan]

theorem items (s : ParseState) :
    Follows r (List.map (Item.respan r.span)) (items g) (items g) s := by
  refine loop (List.map (Item.respan r.span)) _ (fun items s => ?_) [] s
  refine same (skipSeparators s) fun _ t _ => next (kind t) fun k t' hk => ?_
  cases hk
  rcases t.cursor.kind.relocate_cases r with ⟨parts, hk⟩ | ⟨hk, -⟩
  · rw [hk, TokenKind.relocate]
    exact itemRound g items (by rw [hk]; rfl)
  · rw [hk]
    split
    case h_1 => exact done rfl
    case h_2 | h_3 => exact same (skipLine t) fun _ t _ => done rfl
    case h_4 hend _ _ =>
      refine itemRound g items ?_
      cases h : t.cursor.kind <;> first | rfl | exact absurd h hend

end Parser.Follows

/-! ## Units -/

instance Grammar.ofDepth_follows (r : Relocation) (n : Nat) : (ofDepth n).Follows r := by
  induction n with
  | zero => exact ⟨fun _ => rfl, fun _ => rfl, fun _ => rfl, fun _ _ => rfl⟩
  | succ n _ =>
    exact ⟨Parser.Follows.typeRef (ofDepth n), Parser.Follows.expression (ofDepth n),
      Parser.Follows.statements (ofDepth n), Parser.Follows.expression_eof (ofDepth n)⟩

namespace SourceUnit

/-- A text that is at its end has no items. -/
theorem ofTokens_of_isEof {ts : List Token} (h : (Cursor.ofTokens ts).kind.isEof = true) :
    ofTokens ts = ⟨[], []⟩ := by
  rcases ts with _ | ⟨⟨kind, span⟩, ts⟩
  · rfl
  · cases kind <;> first | (cases ts <;> rfl) | exact nomatch h

/-- Relocated tokens give the relocated unit. -/
theorem ofTokens_relocateAll (r : Relocation) (ts : List Token) :
    ofTokens (Token.relocateAll r ts) = (ofTokens ts).respan r.span := by
  cases h : (Cursor.ofTokens ts).kind.isEof with
  | true =>
    rw [ofTokens_of_isEof h,
      ofTokens_of_isEof ((Cursor.isEof_ofTokens_relocateAll r ts).trans h)]
    rfl
  | false =>
    have hstart : start (Token.relocateAll r ts) = (start ts).relocate r := by
      unfold start
      rw [Cursor.ofTokens_relocateAll r h]
      rfl
    have hitems := Parser.Follows.items (r := r) (Grammar.ofDepth (Token.listWeight ts)) (start ts)
    unfold Parser.Follows at hitems
    unfold ofTokens
    rw [Token.listWeight_relocateAll, hstart, hitems]
    cases Parser.items (Grammar.ofDepth (Token.listWeight ts)) (start ts) <;>
      simp [Outcome.relocate, ParseState.relocate, respan]

end SourceUnit

end FrameCheck
