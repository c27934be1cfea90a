import FrameCheck.Proofs.Parse.Recovery
import FrameCheck.Proofs.Parse.Totality
import FrameCheck.Proofs.Resolution.Shadowing
import Mathlib.Data.List.Induction

/-!
# What skipped declarations declare

A `val` or `var` that does not parse still declares its name, if it is a statement or an item that
starts with that keyword and its name is no soft keyword and not part of a longer one
(`Cursor.declaredName?`). A member of a class that is skipped declares nothing
(`Parser.classBody_eq`), and so its name means what it meant outside.

* `Parser.unparsedVal_ensures` : the declaration is as it is written.
* `Parser.declared_of_skipped` : what is declared in a text, and where it is seen.
-/

namespace FrameCheck

/-- The part that is kept. -/
def ParseEntry.kept? {α : Type} : ParseEntry α → Option α
  | kept a => some a
  | skipped _ _ => none

/-- Behind the name stands what may be part of a type : a dot or an angle bracket. -/
def TokenKind.extendsName (k : TokenKind) : Bool := k.isMark .dot || k.isMark .less

/-- The name that a statement declares which is skipped from the cursor on. -/
def Cursor.declaredName? (c : Cursor) : Option String :=
  match c.ahead with
  | [] => none
  | token :: rest =>
    if (c.kind.isKeyword .valKw || c.kind.isKeyword .varKw) = true ∧
        (rest.head?.map Token.kind).any TokenKind.extendsName = false then
      token.kind.plainName?
    else none

namespace Parser

variable {α β σ : Type}

/-! ## What parsers return -/

/-- What the parser returns, it returns with the property. -/
def Ensures (p : Parser α) (P : α → Prop) : Prop := ∀ s a t, p s = .done a t → P a

namespace Ensures

variable {p : Parser α} {f : α → Parser β} {P : α → Prop} {Q : β → Prop}

theorem next (hp : Ensures p P) (hf : ∀ a, P a → Ensures (f a) Q) : Ensures (p >>= f) Q := by
  intro s b u h
  obtain ⟨a, t, ha, hb⟩ := bind_eq_done.1 h
  exact hf a (hp s a t ha) t b u hb

theorem skip (hf : ∀ a, Ensures (f a) Q) : Ensures (p >>= f) Q :=
  next (P := fun _ => True) (fun _ _ _ _ => trivial) fun a _ => hf a

theorem answer {a : α} (h : P a) : Ensures (pure a) P := by
  intro s b t hd
  cases hd
  exact h

theorem fail : Ensures (Parser.fail : Parser α) P := by
  intro s a t hd
  cases hd

/-- What a round of a loop comes to, by a property of its states and one of its results. -/
def ofRound (P : σ → Prop) (Q : β → Prop) : Round σ β → Prop
  | .next a => P a
  | .stop b => Q b

theorem loop {step : σ → Parser (Round σ β)} {P : σ → Prop}
    (h : ∀ a, P a → Ensures (step a) (ofRound P Q)) {start : σ} (hstart : P start) :
    Ensures (Parser.loop step start) Q := by
  have hrounds : ∀ n a, P a → Ensures (rounds step n a) Q := by
    intro n
    induction n with
    | zero => exact fun a _ => fail
    | succ n ih =>
      intro a ha
      refine next (h a ha) fun r hr => ?_
      cases r with
      | next b => exact ih b hr
      | stop r => exact answer hr
  exact fun s => hrounds _ start hstart s

end Ensures

/-! ## The declaration -/

variable (g : Grammar)

/-- The type that is written behind the name at `start`, where there is a colon and the type can be
read. -/
def WrittenType (start : Cursor) (type : Option TypeRef) : Prop :=
  if ((start.ahead.tail.head?.map Token.kind).any (TokenKind.isMark .colon)) = true then
    ∃ s, s.cursor = start.advance.advance.advance ∧ type = (typeRef g s).value?
  else type = none

/-- The declaration is that of the statement at `start` : it has the name and the type that are
written there, and nothing else. -/
structure Declares (start : Cursor) (v : ValDecl) : Prop where
  name : start.declaredName? = some v.name
  nameSpan : start.ahead.head?.map Token.span = some v.nameSpan
  mutable : v.mutable = start.kind.isKeyword .varKw
  type : WrittenType g start v.type
  bare : v.receiver = none ∧ v.init = none ∧ v.getter = .absent

/-- What is declared in place of the statement at `start`. -/
def DeclaresAt (start : Cursor) : Option ValDecl → Prop
  | none => start.declaredName? = none
  | some v => Declares g start v

theorem attempt_writtenType {start : Cursor}
    (h : (start.ahead.tail.head?.map Token.kind).any (TokenKind.isMark .colon) = true) :
    Ensures (moveTo start.advance.advance.advance >>= fun _ => attempt (typeRef g))
      (WrittenType g start) := by
  intro s type t hd
  obtain ⟨_, u, hu, hd⟩ := bind_eq_done.1 hd
  cases hu
  rw [WrittenType, if_pos h]
  refine ⟨{ s with cursor := start.advance.advance.advance }, rfl, ?_⟩
  obtain ⟨a, rfl, ha⟩ | ⟨rfl, ha⟩ := attempt_eq_done.1 hd
  · rw [ha, Outcome.value?]
  · rw [ha, Outcome.value?]

theorem unparsedVal_ensures (start : Cursor) :
    Ensures (unparsedVal g start) (DeclaresAt g start) := by
  obtain ⟨here, ahead, last⟩ := start
  unfold unparsedVal
  extract_lets mutable
  cases ahead with
  | nil => exact .answer rfl
  | cons token rest =>
  have hextends (o : Option TokenKind) : (o.any (TokenKind.isMark .dot) ||
      o.any (TokenKind.isMark .less)) = o.any TokenKind.extendsName := by
    cases o <;> rfl
  dsimp only
  split
  · next name hkey hname =>
    rw [hextends]
    by_cases hnext : (rest.head?.map Token.kind).any TokenKind.extendsName = true
    · rw [if_pos hnext]
      exact .answer (if_neg fun h => absurd (h.2.symm.trans hnext) Bool.false_ne_true)
    rw [if_neg hnext]
    have hdeclare (type : Option TypeRef) (htype : WrittenType g ⟨here, token :: rest, last⟩ type)
        (decl : DeclId) : DeclaresAt g ⟨here, token :: rest, last⟩ (some ⟨decl, mutable, none, name,
          token.span, type, none, .absent, here.span.join token.span⟩) := by
      refine ⟨?_, rfl, rfl, htype, rfl, rfl, rfl⟩
      refine (if_pos ⟨hkey, Bool.eq_false_iff.2 hnext⟩).trans ?_
      rw [hname]
      rfl
    split
    · next hcolon =>
      rw [← bind_assoc]
      have hwritten : Ensures _ (WrittenType g ⟨here, token :: rest, last⟩) :=
        attempt_writtenType g hcolon
      refine hwritten.next fun type htype => .skip fun decl => .answer ?_
      exact hdeclare type htype decl
    · next hcolon =>
      refine (Ensures.answer (P := WrittenType g ⟨here, token :: rest, last⟩) ?_).next
        fun type htype => .skip fun decl => .answer (hdeclare type htype decl)
      rw [WrittenType]
      exact (if_neg hcolon).mpr rfl
  · next hnot =>
    refine .answer ?_
    show Cursor.declaredName? _ = none
    unfold Cursor.declaredName?
    dsimp only
    split
    · next h =>
      cases hk : token.kind <;> first | rfl | exact absurd hk (hnot _ h.1)
    · rfl

/-! ## Entries -/

/-- Every entry that is skipped declares what is declared in its place. -/
def AllDeclare {α : Type} (es : List (ParseEntry α)) : Prop :=
  ∀ start declared, .skipped start declared ∈ es → DeclaresAt g start declared

variable {g} in
theorem AllDeclare.kept {es : List (ParseEntry α)} (h : AllDeclare g es) (a : α) :
    AllDeclare g (es ++ [.kept a]) := by
  intro start declared hmem
  rcases List.mem_append.1 hmem with hmem | hmem
  · exact h start declared hmem
  · cases List.mem_singleton.1 hmem

variable {g} in
theorem AllDeclare.skipped {es : List (ParseEntry α)} (h : AllDeclare g es) {start : Cursor}
    {declared : Option ValDecl} (hd : DeclaresAt g start declared) :
    AllDeclare g (es ++ [.skipped start declared]) := by
  intro start' declared' hmem
  rcases List.mem_append.1 hmem with hmem | hmem
  · exact h start' declared' hmem
  · cases List.mem_singleton.1 hmem
    exact hd

theorem AllDeclare.nil : AllDeclare g ([] : List (ParseEntry α)) :=
  fun _ _ hmem => absurd hmem List.not_mem_nil

theorem entries_ensures : Ensures (entries g) (AllDeclare g) := by
  refine Ensures.loop (P := AllDeclare g) (fun es hes => .skip fun _ => .skip fun closed => ?_) (.nil g)
  split
  · exact .answer hes
  refine .skip fun k => ?_
  split
  · exact .next .fail fun a h => h
  refine .skip fun start => .skip fun parsed => ?_
  cases parsed with
  | some stmt => exact .answer (hes.kept stmt)
  | none =>
    exact (unparsedVal_ensures g start).next fun declared hd => .skip fun _ =>
      .answer (hes.skipped hd)

/-- What becomes of an item. -/
def itemEntry : Parser (ParseEntry Item) := do
  let start ← cursor
  match ← attempt (item g) with
  | some i => return .kept i
  | none =>
    let declared ← unparsedVal g start
    skipUnparsed start
    return .skipped start declared

/-- The entries of a text. -/
def itemEntries : Parser (List (ParseEntry Item)) :=
  loop (fun (es : List (ParseEntry Item)) => do
    skipSeparators
    match ← kind with
    | .eof => return .stop es
    | .keyword .packageKw | .keyword .importKw =>
      skipLine
      return .next es
    | _ => return .next (es ++ [← itemEntry g])) []

/-- The items of a text are what is left of its entries. -/
theorem items_eq : items g =
    (fun es : List (ParseEntry Item) => es.flatMap (ParseEntry.parts Item.property)) <$> itemEntries g := by
  refine loop_map (fun es : List (ParseEntry Item) => es.flatMap (ParseEntry.parts Item.property)) _
    (fun es => ?_) []
  refine bind_eq_map fun _ => bind_eq_map fun k => ?_
  have hround : (do
      let start ← cursor
      match ← attempt (item g) with
      | some i => return .next (es.flatMap (ParseEntry.parts Item.property) ++ [i])
      | none =>
        let declared ← unparsedVal g start
        skipUnparsed start
        return .next (es.flatMap (ParseEntry.parts Item.property)
          ++ (declared.map Item.property).toList) : Parser (Round (List Item) (List Item)))
      = Round.map (fun es => es.flatMap (ParseEntry.parts Item.property))
        (fun es : List (ParseEntry Item) => es.flatMap (ParseEntry.parts Item.property)) <$>
          (itemEntry g >>= fun e => pure (.next (es ++ [e]))) := by
    rw [itemEntry, bind_assoc]
    refine bind_eq_map fun start => ?_
    rw [bind_assoc]
    refine bind_eq_map fun parsed => ?_
    cases parsed with
    | some i => simp [ParseEntry.parts]
    | none => simp [ParseEntry.parts]
  cases k with
  | keyword w => cases w <;> first | rfl | exact hround
  | eof => rfl
  | _ => exact hround

theorem itemEntry_ensures : Ensures (itemEntry g) fun e => AllDeclare g [e] := by
  refine .skip fun start => .skip fun parsed => ?_
  cases parsed with
  | some i => exact .answer ((AllDeclare.nil g).kept i)
  | none =>
    exact (unparsedVal_ensures g start).next fun declared hd => .skip fun _ =>
      .answer ((AllDeclare.nil g).skipped hd)

theorem itemEntries_ensures : Ensures (itemEntries g) (AllDeclare g) := by
  refine Ensures.loop (P := AllDeclare g) (fun es hes => .skip fun _ => .skip fun k => ?_) (.nil g)
  have hround : Ensures (itemEntry g >>= fun e => pure (Round.next (es ++ [e])))
      (Ensures.ofRound (β := List (ParseEntry Item)) (AllDeclare g) (AllDeclare g)) :=
    (itemEntry_ensures g).next fun e he => .answer fun start declared hmem =>
      (List.mem_append.1 hmem).elim (hes start declared) (he start declared)
  split
  · exact .answer hes
  · exact .skip fun _ => .answer hes
  · exact .skip fun _ => .answer hes
  · exact hround

/-! ### Members -/

namespace Members

def append (m more : Members) : Members :=
  ⟨m.properties ++ more.properties, m.methods ++ more.methods⟩

def none : Members := ⟨[], []⟩

end Members

/-- What a member adds does not depend on those before. -/
theorem member_eq (seen : Members) : member g seen = seen.append <$> member g .none := by
  refine bind_eq_map fun as => bind_eq_map fun _ => bind_eq_map fun k => ?_
  split
  · refine bind_eq_map fun v => bind_eq_map fun _ => ?_
    split <;> simp [Members.append, Members.none]
  · refine bind_eq_map fun v => bind_eq_map fun _ => ?_
    split <;> simp [Members.append, Members.none]
  · refine bind_eq_map fun f => bind_eq_map fun _ => ?_
    simp [Members.append, Members.none]
  · rfl

theorem attempt_map (f : α → β) (p : Parser α) :
    attempt (f <$> p) = Option.map f <$> attempt p := by
  funext s
  rw [map_eq_pure_bind, map_eq_pure_bind]
  cases h : p s with
  | done a t =>
    have ha : attempt p s = .done (some a) t := by rw [attempt, h]
    rw [bind_of_done ha, attempt, bind_of_done h]
    rfl
  | failed t =>
    have ha : attempt p s = .done none t := by rw [attempt, h]
    rw [bind_of_done ha, attempt, bind_failed h]
    rfl

/-- The entries of a class body; a member that is skipped declares nothing. -/
def memberEntries : Parser (List (ParseEntry Members)) := do
  let _ ← expect .leftBrace
  loop (fun (es : List (ParseEntry Members)) => do
    skipSeparators
    if ← eat .rightBrace then return .stop es
    if (← kind).isEof then fail
    let start ← cursor
    match ← attempt (member g .none) with
    | some m => return .next (es ++ [.kept m])
    | none =>
      skipUnparsed start
      return .next (es ++ [.skipped start none])) []

/-- The members of a class are those of the entries that are kept. -/
theorem classBody_eq (seen : Members) : classBody g seen =
    (fun es => (es.filterMap ParseEntry.kept?).foldl Members.append seen) <$> memberEntries g := by
  refine bind_eq_map fun _ => ?_
  refine loop_map (fun es : List (ParseEntry Members) =>
    (es.filterMap ParseEntry.kept?).foldl Members.append seen) _ (fun es => ?_) []
  refine bind_eq_map fun _ => bind_eq_map fun closed => ?_
  split
  · rfl
  refine bind_eq_map fun k => ?_
  split
  · rfl
  refine bind_eq_map fun start => ?_
  rw [member_eq, attempt_map, bind_map_left]
  refine bind_eq_map fun parsed => ?_
  cases parsed with
  | some m => simp [ParseEntry.kept?]
  | none => simp [ParseEntry.kept?, List.filterMap_cons]

end Parser

/-! ## Where the names are seen -/

namespace Stmt

theorem facts_append (sc : Scope) (ss rest : List Stmt) :
    Stmt.facts sc (ss ++ rest) = Stmt.facts sc ss ++ Stmt.facts (ss.foldl Scope.afterStmt sc) rest := by
  induction ss generalizing sc with
  | nil => rw [Stmt.facts, List.nil_append, List.nil_append, List.foldl_nil]
  | cons s ss ih =>
    rw [List.cons_append, Stmt.facts, Stmt.facts, ih, List.append_assoc, List.foldl_cons]

/-- A declaration among statements is what its name refers to in those behind it, whatever it was
before. -/
theorem facts_val (sc : Scope) (ss : List Stmt) (v : ValDecl) (rest : List Stmt) :
    Stmt.facts sc (ss ++ .val v :: rest) = Stmt.facts sc (ss ++ [.val v])
      ++ Stmt.facts ((ss.foldl Scope.afterStmt sc).declare v.name v.decl) rest := by
  rw [facts_append, facts_append, List.append_assoc]
  refine congrArg (_ ++ ·) ?_
  rw [Stmt.facts, Stmt.facts, Stmt.facts, List.append_nil]
  rfl

end Stmt

/-- A name that is declared at the top level refers to a declaration of the top level. -/
theorem SourceUnit.lookup?_scope {u : SourceUnit} {v : ValDecl} (h : Item.property v ∈ u.items) :
    ∃ w, Item.property w ∈ u.items ∧ w.name = v.name ∧ u.scope.lookup? v.name = some w.decl := by
  unfold SourceUnit.scope
  generalize u.items = items at h
  induction items using List.reverseRecOn with
  | nil => cases h
  | append_singleton items i ih =>
    rw [List.foldl_append, List.foldl_cons, List.foldl_nil]
    by_cases hi : ∃ w, i = .property w ∧ w.name = v.name
    · obtain ⟨w, rfl, hw⟩ := hi
      refine ⟨w, List.mem_append_right _ List.mem_cons_self, hw, ?_⟩
      rw [← hw]
      exact List.lookup_cons_self
    · have hv : Item.property v ∈ items := (List.mem_append.1 h).resolve_right fun hv =>
        hi ⟨v, (List.mem_singleton.1 hv).symm, rfl⟩
      obtain ⟨w, hw, hname, hlookup⟩ := ih hv
      refine ⟨w, List.mem_append_left _ hw, hname, ?_⟩
      cases i with
      | classDecl | function => exact hlookup
      | property x =>
        have hx : v.name ≠ x.name := fun hx => hi ⟨x, rfl, hx.symm⟩
        show List.lookup v.name ((x.name, x.decl) :: _) = _
        rw [List.lookup_cons, beq_eq_false_iff_ne.2 hx]
        exact hlookup

/-! ## Texts -/

namespace Parser

/-- What is declared by the items, the statements and the members that are skipped : an item or a
statement declares what `AllDeclare` says, and then the name refers to that in what it is seen by;
a member declares nothing. -/
theorem declared_of_skipped (n : Nat) :
    (∀ text u, SourceUnit.ofText text = .ok u → ∃ ts es t, Token.scan text = .ok ts ∧
      itemEntries (Grammar.ofDepth (Token.listWeight ts)) (SourceUnit.start ts) = .done es t ∧
      u.items = es.flatMap (ParseEntry.parts Item.property) ∧
      AllDeclare (Grammar.ofDepth (Token.listWeight ts)) es ∧
      ∀ start v, .skipped start (some v) ∈ es → ∃ w, Item.property w ∈ u.items ∧
        w.name = v.name ∧ u.scope.lookup? v.name = some w.decl) ∧
    (∀ s stmts t, statements (Grammar.ofDepth n) s = .done stmts t → ∃ es,
      entries (Grammar.ofDepth n) s = .done es t ∧ stmts = es.flatMap ParseEntry.stmts ∧
      AllDeclare (Grammar.ofDepth n) es ∧
      ∀ earlier start v later, es = earlier ++ .skipped start (some v) :: later → ∀ sc,
        Stmt.facts sc stmts = Stmt.facts sc (earlier.flatMap ParseEntry.stmts ++ [.val v])
          ++ Stmt.facts (((earlier.flatMap ParseEntry.stmts).foldl Scope.afterStmt sc).declare v.name v.decl)
            (later.flatMap ParseEntry.stmts) ∧
        ∀ sc', Scope.Alike (· = v.name) sc sc' →
          Stmt.facts (sc.declare v.name v.decl) (later.flatMap ParseEntry.stmts)
            = Stmt.facts (sc'.declare v.name v.decl) (later.flatMap ParseEntry.stmts)) ∧
    ∀ s seen members t, classBody (Grammar.ofDepth n) seen s = .done members t → ∃ es,
      memberEntries (Grammar.ofDepth n) s = .done es t ∧
        members = (es.filterMap ParseEntry.kept?).foldl Members.append seen := by
  refine ⟨fun text u hu => ?_, fun s stmts t hs => ?_, fun s seen members t hs => ?_⟩
  · obtain ⟨ts, t, hts, hitems, -⟩ := SourceUnit.exists_items hu
    rw [items_eq, map_eq_pure_bind] at hitems
    obtain ⟨es, t', hes, hdone⟩ := bind_eq_done.1 hitems
    obtain ⟨hparts, rfl⟩ : es.flatMap (ParseEntry.parts Item.property) = u.items ∧ t' = t := by
      injection hdone with hparts ht
      exact ⟨hparts, ht⟩
    refine ⟨ts, es, t', hts, hes, hparts.symm, itemEntries_ensures _ _ _ _ hes, ?_⟩
    intro start v hv
    refine SourceUnit.lookup?_scope (hparts ▸ List.mem_flatMap.2 ⟨_, hv, ?_⟩)
    exact List.mem_singleton_self _
  · obtain ⟨es, hes, rfl⟩ := entries_of_statements _ hs
    refine ⟨es, hes, rfl, entries_ensures _ _ _ _ hes, ?_⟩
    rintro earlier start v later rfl sc
    refine ⟨?_, fun sc' h => Stmt.facts_declare h v.decl _⟩
    rw [List.flatMap_append, List.flatMap_cons]
    exact Stmt.facts_val sc _ v _
  · rw [classBody_eq, map_eq_pure_bind] at hs
    obtain ⟨es, t', hes, hdone⟩ := bind_eq_done.1 hs
    cases hdone
    exact ⟨es, hes, rfl⟩

/-- A property of the top level that is skipped. -/
def delegatedText : String := "val a: Int by b\n"

/-- The skipped property is declared. -/
theorem declared_of_skipped_delegatedText : ∃ u w, SourceUnit.ofText delegatedText = .ok u ∧
    Item.property w ∈ u.items ∧ w.name = "a" ∧ u.scope.lookup? "a" = some w.decl := by
  obtain ⟨ts, hts, hskipped⟩ : ∃ ts, Token.scan delegatedText = .ok ts ∧
      ((itemEntries (Grammar.ofDepth (Token.listWeight ts)) (SourceUnit.start ts)).value?.any fun es =>
        es.any fun e => e.lostName? == some "a") = true := by
    refine Token.exists_scan rfl ?_
    decide +kernel
  have hu : SourceUnit.ofText delegatedText = .ok (SourceUnit.ofTokens ts) := by
    rw [SourceUnit.ofText, hts]
    rfl
  obtain ⟨ts', es, t, hts', hes, -, -, hseen⟩ := (declared_of_skipped 0).1 _ _ hu
  obtain rfl : ts = ts' := Except.ok.inj (hts.symm.trans hts')
  rw [hes, Outcome.value?, Option.any_some, List.any_eq_true] at hskipped
  obtain ⟨e, he, hname⟩ := hskipped
  obtain ⟨start, v, rfl, ha⟩ := ParseEntry.lostName?_eq_some (beq_iff_eq.1 hname)
  obtain ⟨w, hw, hwname, hlookup⟩ := hseen start v he
  exact ⟨_, w, hu, hw, hwname.trans ha, ha ▸ hlookup⟩

end Parser

/-- A class with a member of the name of a property outside, which is skipped. -/
def hiddenText : String :=
  "val df = 1\nclass C \x7b\n    val df by lazy \x7b 2 \x7d\n    fun g() \x7b df \x7d\n\x7d\n"

/-- The fact is that the expression refers to the declaration. -/
def Fact.isReference (e : ExprId) (decl : DeclId) : Fact → Bool
  | .refers e' decl' => e' == e && decl' == decl
  | _ => false

theorem Fact.eq_of_isReference {e : ExprId} {decl : DeclId} {f : Fact}
    (h : f.isReference e decl = true) : f = .refers e decl := by
  cases f with
  | refers e' decl' =>
    simp only [isReference, Bool.and_eq_true, beq_iff_eq] at h
    rw [h.1, h.2]
  | _ => cases h

/-- Whether the property of the class is skipped, while its name in the method refers to the
property before the class. -/
def SourceUnit.hides (u : SourceUnit) : Bool :=
  match u.items, u.skipped with
  | [.property v, .classDecl ⟨_, _, _, _, _, _, [],
      [⟨_, _, _, _, _, .block ⟨[.expr ⟨id, _, .name name⟩], _⟩, _, _⟩], _⟩], [skipped] =>
    (hiddenText.toList.take skipped.stop).drop skipped.start ==
        "val df by lazy \x7b 2 \x7d".toList && name == "df" &&
      u.facts.any (Fact.isReference id v.decl)
  | _, _ => false

/-- The property of the class is skipped, and the class declares nothing in its place : in the
method its name refers to the property of the top level. -/
theorem not_declared_hiddenText : ∃ u v c m b e skipped,
    SourceUnit.ofText hiddenText = .ok u ∧ u.items = [.property v, .classDecl c] ∧ u.skipped = [skipped] ∧
      (hiddenText.toList.take skipped.stop).drop skipped.start = "val df by lazy \x7b 2 \x7d".toList ∧
        c.properties = [] ∧ c.methods = [m] ∧ m.body = .block b ∧ b.stmts = [.expr e] ∧
          e.kind = .name "df" ∧ Fact.refers e.id v.decl ∈ u.facts := by
  obtain ⟨u, hu, h⟩ : ∃ u, SourceUnit.ofText hiddenText = .ok u ∧ u.hides = true := by
    refine SourceUnit.exists_ofText rfl ?_
    decide +kernel
  rw [SourceUnit.hides] at h
  split at h
  · next hitems hskipped =>
    simp only [Bool.and_eq_true, beq_iff_eq, List.any_eq_true] at h
    obtain ⟨⟨htext, rfl⟩, f, hf, hrefers⟩ := h
    refine ⟨u, _, _, _, _, _, _, hu, hitems, hskipped, htext, rfl, rfl, rfl, rfl, rfl, ?_⟩
    exact Fact.eq_of_isReference hrefers ▸ hf
  · exact absurd h Bool.false_ne_true

end FrameCheck
