import FrameCheck.Proofs.Tree.Respan

/-!
# Trees with other names

`relabel g` gives a tree other spans and other names: a name by the id of the expression, the name
of a `val` or a parameter by the id of the declaration. Functions have a namespace of their own, and
the properties of classes are columns, so these keep their names, and so does the name that a call
starts with.

* `Expr.relabel`, `SourceUnit.relabel` : expressions and whole units.
* `SourceUnit.respan_eq_relabel` : other spans alone.
-/

namespace FrameCheck

/-- Other spans and names for a tree. -/
structure Relabel where
  span : Span → Span
  /-- What becomes of the name that the expression with this id is. -/
  name : ExprId → String → String
  /-- What becomes of the name that the declaration with this id has. -/
  declared : DeclId → String → String

/-- Other spans, and the same names. -/
def Relabel.spans (f : Span → Span) : Relabel := ⟨f, fun _ n => n, fun _ n => n⟩

def LambdaParam.relabel (g : Relabel) (p : LambdaParam) : LambdaParam :=
  ⟨p.decl, g.declared p.decl p.name, p.type⟩

mutual

def Expr.relabel (g : Relabel) : Expr → Expr
  | ⟨id, span, kind⟩ => ⟨id, g.span span, kind.relabel g (g.name id)⟩

/-- The kind of an expression that, if it is a name, becomes another by `rename`. -/
def ExprKind.relabel (g : Relabel) (rename : String → String) : ExprKind → ExprKind
  | .literal value => .literal value
  | .name n => .name (rename n)
  | .this => .this
  | .member receiver n nameSpan safe => .member (receiver.relabel g) n (g.span nameSpan) safe
  | .call ⟨id, span, kind⟩ typeArgs args =>
    .call ⟨id, g.span span, kind.relabel g fun n => n⟩ typeArgs (Argument.relabelAll g args)
  | .index receiver indices => .index (receiver.relabel g) (Expr.relabelAll g indices)
  | .binary op left right => .binary op (left.relabel g) (right.relabel g)
  | .unary op operand => .unary op (operand.relabel g)
  | .notNull inner => .notNull (inner.relabel g)
  | .cast operand type safe => .cast (operand.relabel g) type safe
  | .ifElse condition thenBranch elseBranch =>
    .ifElse (condition.relabel g) (thenBranch.relabel g) (Expr.relabel? g elseBranch)
  | .whenOf subject branches =>
    .whenOf (Expr.relabel? g subject) (WhenBranch.relabelAll g branches)
  | .template parts => .template (Expr.relabelAll g parts)
  | .block body => .block (body.relabel g)
  | .lambda params implicitIt body =>
    .lambda (params.map (LambdaParam.relabel g)) implicitIt (body.relabel g)

def Expr.relabelAll (g : Relabel) : List Expr → List Expr
  | [] => []
  | e :: rest => e.relabel g :: Expr.relabelAll g rest

def Expr.relabel? (g : Relabel) : Option Expr → Option Expr
  | none => none
  | some e => some (e.relabel g)

def Argument.relabel (g : Relabel) : Argument → Argument
  | ⟨name, value⟩ => ⟨name, value.relabel g⟩

def Argument.relabelAll (g : Relabel) : List Argument → List Argument
  | [] => []
  | a :: rest => a.relabel g :: Argument.relabelAll g rest

def WhenBranch.relabel (g : Relabel) : WhenBranch → WhenBranch
  | ⟨conditions, isElse, body⟩ => ⟨Expr.relabelAll g conditions, isElse, body.relabel g⟩

def WhenBranch.relabelAll (g : Relabel) : List WhenBranch → List WhenBranch
  | [] => []
  | b :: rest => b.relabel g :: WhenBranch.relabelAll g rest

def Block.relabel (g : Relabel) : Block → Block
  | ⟨stmts, span⟩ => ⟨Stmt.relabelAll g stmts, g.span span⟩

def Stmt.relabel (g : Relabel) : Stmt → Stmt
  | .val v => .val (v.relabel g)
  | .function f => .function (f.relabel g)
  | .expr e => .expr (e.relabel g)
  | .assign target value span => .assign (target.relabel g) (value.relabel g) (g.span span)
  | .ret value span => .ret (Expr.relabel? g value) (g.span span)

def Stmt.relabelAll (g : Relabel) : List Stmt → List Stmt
  | [] => []
  | s :: rest => s.relabel g :: Stmt.relabelAll g rest

def Body.relabel (g : Relabel) : Body → Body
  | .absent => .absent
  | .expr e => .expr (e.relabel g)
  | .block b => .block (b.relabel g)

def Param.relabel (g : Relabel) : Param → Param
  | ⟨decl, name, type, default, span⟩ =>
    ⟨decl, g.declared decl name, type, Expr.relabel? g default, g.span span⟩

def Param.relabelAll (g : Relabel) : List Param → List Param
  | [] => []
  | p :: rest => p.relabel g :: Param.relabelAll g rest

def FunDecl.relabel (g : Relabel) : FunDecl → FunDecl
  | ⟨decl, name, receiver, params, returnType, body, isProperty, span⟩ =>
    ⟨decl, name, receiver, Param.relabelAll g params, returnType, body.relabel g, isProperty,
      g.span span⟩

def ValDecl.relabel (g : Relabel) : ValDecl → ValDecl
  | ⟨decl, mutable, receiver, name, nameSpan, type, init, getter, span⟩ =>
    ⟨decl, mutable, receiver, g.declared decl name, g.span nameSpan, type, Expr.relabel? g init,
      getter.relabel g, g.span span⟩

end

-- The parameter `a` of `fun f(a) { a(a) }` is renamed where it is declared and referred to.
example : FunDecl.relabel ⟨fun s => s, fun id n => if id = 4 then "b" else n,
      fun d n => if d = 2 then "b" else n⟩
    ⟨1, "f", none, [⟨2, "a", none, none, ⟨6, 7⟩⟩], none,
      .block ⟨[.expr ⟨5, ⟨11, 15⟩, .call ⟨3, ⟨11, 12⟩, .name "a"⟩ []
        [⟨none, ⟨4, ⟨13, 14⟩, .name "a"⟩⟩]⟩], ⟨9, 17⟩⟩, false, ⟨0, 17⟩⟩ =
    ⟨1, "f", none, [⟨2, "b", none, none, ⟨6, 7⟩⟩], none,
      .block ⟨[.expr ⟨5, ⟨11, 15⟩, .call ⟨3, ⟨11, 12⟩, .name "a"⟩ []
        [⟨none, ⟨4, ⟨13, 14⟩, .name "b"⟩⟩]⟩], ⟨9, 17⟩⟩, false, ⟨0, 17⟩⟩ := by cbv

/-- The expression that a call starts with; if it is a name, it keeps it. -/
def Expr.relabelCalled (g : Relabel) (e : Expr) : Expr :=
  ⟨e.id, g.span e.span, e.kind.relabel g fun n => n⟩

namespace AnnotationEntry

def relabel (g : Relabel) (a : AnnotationEntry) : AnnotationEntry :=
  ⟨a.name, a.args.map (Expr.relabel g), g.span a.span⟩

end AnnotationEntry

namespace PropertyDecl

def relabel (g : Relabel) (p : PropertyDecl) : PropertyDecl :=
  ⟨p.decl, p.annotations.map (AnnotationEntry.relabel g), p.mutable, p.name, g.span p.nameSpan,
    p.type, p.init.map (Expr.relabel g), p.getter.relabel g, p.inConstructor, g.span p.span⟩

end PropertyDecl

namespace ClassDecl

def relabel (g : Relabel) (c : ClassDecl) : ClassDecl :=
  ⟨c.annotations.map (AnnotationEntry.relabel g), c.isInterface, c.name, g.span c.nameSpan,
    c.supertypes, c.params.map (Param.relabel g), c.properties.map (PropertyDecl.relabel g),
    c.methods.map (FunDecl.relabel g), g.span c.span⟩

end ClassDecl

namespace Item

def relabel (g : Relabel) : Item → Item
  | classDecl c => classDecl (c.relabel g)
  | function f => function (f.relabel g)
  | property v => property (v.relabel g)

end Item

namespace SourceUnit

def relabel (g : Relabel) (u : SourceUnit) : SourceUnit :=
  ⟨u.items.map (Item.relabel g), u.skipped.map g.span⟩

end SourceUnit

/-! ## Lists and parts -/

section

variable (g : Relabel)

@[simp] theorem Expr.relabelAll_eq_map (es : List Expr) :
    relabelAll g es = es.map (relabel g) := by
  induction es with
  | nil => rfl
  | cons e rest ih => rw [relabelAll, ih, List.map_cons]

@[simp] theorem Expr.relabel?_eq_map (e : Option Expr) : relabel? g e = e.map (relabel g) := by
  cases e <;> rfl

@[simp] theorem Argument.relabelAll_eq_map (as : List Argument) :
    relabelAll g as = as.map (relabel g) := by
  induction as with
  | nil => rfl
  | cons a rest ih => rw [relabelAll, ih, List.map_cons]

@[simp] theorem WhenBranch.relabelAll_eq_map (bs : List WhenBranch) :
    relabelAll g bs = bs.map (relabel g) := by
  induction bs with
  | nil => rfl
  | cons b rest ih => rw [relabelAll, ih, List.map_cons]

@[simp] theorem Stmt.relabelAll_eq_map (ss : List Stmt) :
    relabelAll g ss = ss.map (relabel g) := by
  induction ss with
  | nil => rfl
  | cons s rest ih => rw [relabelAll, ih, List.map_cons]

@[simp] theorem Param.relabelAll_eq_map (ps : List Param) :
    relabelAll g ps = ps.map (relabel g) := by
  induction ps with
  | nil => rfl
  | cons p rest ih => rw [relabelAll, ih, List.map_cons]

@[simp] theorem Expr.id_relabel (e : Expr) : (e.relabel g).id = e.id := by
  rcases e with ⟨id, span, kind⟩
  rw [relabel]

@[simp] theorem Expr.span_relabel (e : Expr) : (e.relabel g).span = g.span e.span := by
  rcases e with ⟨id, span, kind⟩
  rw [relabel]

@[simp] theorem Expr.kind_relabel (e : Expr) :
    (e.relabel g).kind = e.kind.relabel g (g.name e.id) := by
  rcases e with ⟨id, span, kind⟩
  rw [relabel]

@[simp] theorem Argument.value_relabel (a : Argument) :
    (a.relabel g).value = a.value.relabel g := by
  rcases a with ⟨name, value⟩
  rw [relabel]

@[simp] theorem WhenBranch.isElse_relabel (b : WhenBranch) : (b.relabel g).isElse = b.isElse := by
  rcases b with ⟨conditions, isElse, body⟩
  rw [relabel]

@[simp] theorem WhenBranch.body_relabel (b : WhenBranch) :
    (b.relabel g).body = b.body.relabel g := by
  rcases b with ⟨conditions, isElse, body⟩
  rw [relabel]

@[simp] theorem Block.stmts_relabel (b : Block) :
    (b.relabel g).stmts = b.stmts.map (Stmt.relabel g) := by
  rcases b with ⟨stmts, span⟩
  rw [relabel, Stmt.relabelAll_eq_map]

@[simp] theorem Param.name_relabel (p : Param) : (p.relabel g).name = g.declared p.decl p.name := by
  rcases p with ⟨decl, name, type, default, span⟩
  rw [relabel]

@[simp] theorem Param.decl_relabel (p : Param) : (p.relabel g).decl = p.decl := by
  rcases p with ⟨decl, name, type, default, span⟩
  rw [relabel]

@[simp] theorem FunDecl.name_relabel (d : FunDecl) : (d.relabel g).name = d.name := by
  rcases d with ⟨decl, name, receiver, params, returnType, body, isProperty, span⟩
  rw [relabel]

@[simp] theorem FunDecl.receiver_relabel (d : FunDecl) : (d.relabel g).receiver = d.receiver := by
  rcases d with ⟨decl, name, receiver, params, returnType, body, isProperty, span⟩
  rw [relabel]

@[simp] theorem FunDecl.returnType_relabel (d : FunDecl) :
    (d.relabel g).returnType = d.returnType := by
  rcases d with ⟨decl, name, receiver, params, returnType, body, isProperty, span⟩
  rw [relabel]

@[simp] theorem FunDecl.isProperty_relabel (d : FunDecl) :
    (d.relabel g).isProperty = d.isProperty := by
  rcases d with ⟨decl, name, receiver, params, returnType, body, isProperty, span⟩
  rw [relabel]

@[simp] theorem ValDecl.name_relabel (v : ValDecl) :
    (v.relabel g).name = g.declared v.decl v.name := by
  rcases v with ⟨decl, mutable, receiver, name, nameSpan, type, init, getter, span⟩
  rw [relabel]

@[simp] theorem ValDecl.decl_relabel (v : ValDecl) : (v.relabel g).decl = v.decl := by
  rcases v with ⟨decl, mutable, receiver, name, nameSpan, type, init, getter, span⟩
  rw [relabel]

end

/-! ## Calls -/

section

variable (g : Relabel)

theorem ExprKind.relabel_call (rename : String → String) (callee : Expr) (typeArgs : List TypeRef)
    (args : List Argument) : (ExprKind.call callee typeArgs args).relabel g rename
      = .call (callee.relabelCalled g) typeArgs (args.map (Argument.relabel g)) := by
  rcases callee with ⟨id, span, kind⟩
  rw [relabel, Argument.relabelAll_eq_map, Expr.relabelCalled]

/-- What a call starts with gets its names as everything else, unless it is a name. -/
theorem Expr.relabelCalled_of_not_isName {e : Expr} (h : ¬e.isName) :
    e.relabelCalled g = e.relabel g := by
  rcases e with ⟨id, span, kind⟩
  rw [relabelCalled, relabel]
  cases kind with
  | name n => exact absurd rfl h
  | call callee typeArgs args => rw [ExprKind.relabel_call, ExprKind.relabel_call]
  | _ => simp only [ExprKind.relabel]

theorem Expr.relabelCalled_of_name {e : Expr} {n : String} (h : e.kind = .name n) :
    e.relabelCalled g = ⟨e.id, g.span e.span, .name n⟩ := by
  rw [relabelCalled, h, ExprKind.relabel]

theorem Expr.relabel_of_name {e : Expr} {n : String} (h : e.kind = .name n) :
    e.relabel g = ⟨e.id, g.span e.span, .name (g.name e.id n)⟩ := by
  rcases e with ⟨id, span, kind⟩
  rw [relabel, show kind = .name n from h, ExprKind.relabel]

@[simp] theorem Expr.isName_relabelCalled (e : Expr) : (e.relabelCalled g).isName = e.isName := by
  rcases e with ⟨id, span, kind⟩
  cases kind with
  | call callee typeArgs args => rw [relabelCalled, ExprKind.relabel_call]; rfl
  | _ => rfl

end

/-! ## Readings of trees -/

section

variable (g : Relabel)

namespace Expr

@[simp] theorem stringLiteral?_relabel (e : Expr) :
    (e.relabel g).stringLiteral? = e.stringLiteral? := by
  rcases e with ⟨id, span, kind⟩
  cases kind with
  | call callee typeArgs args => rw [relabel, ExprKind.relabel_call]; rfl
  | _ => rfl

@[simp] theorem intLiteral?_relabel (e : Expr) : (e.relabel g).intLiteral? = e.intLiteral? := by
  rcases e with ⟨id, span, kind⟩
  cases kind with
  | call callee typeArgs args => rw [relabel, ExprKind.relabel_call]; rfl
  | _ => rfl

@[simp] theorem isNullLiteral_relabel (e : Expr) :
    (e.relabel g).isNullLiteral = e.isNullLiteral := by
  rcases e with ⟨id, span, kind⟩
  cases kind with
  | call callee typeArgs args => rw [relabel, ExprKind.relabel_call]; rfl
  | _ => rfl

@[simp] theorem isLambda_relabel (e : Expr) : (e.relabel g).isLambda = e.isLambda := by
  rcases e with ⟨id, span, kind⟩
  cases kind with
  | call callee typeArgs args => rw [relabel, ExprKind.relabel_call]; rfl
  | _ => rfl

theorem columnFrom?_relabel (e : Expr) :
    (e.relabel g).columnFrom? = e.columnFrom?.map fun c => (c.1, c.2.relabel g) := by
  unfold columnFrom?
  rw [kind_relabel]
  cases e.kind
  case binary op left right =>
    by_cases hop : op = .named "from"
    · subst hop
      simp [ExprKind.relabel, Function.comp_def]
    · simp [ExprKind.relabel, hop]
  case call callee typeArgs args => rw [ExprKind.relabel_call]; rfl
  all_goals simp [ExprKind.relabel]

end Expr

theorem Stmt.expr?_relabel (s : Stmt) : (s.relabel g).expr? = s.expr?.map (Expr.relabel g) := by
  cases s <;> simp [Stmt.relabel, expr?]

namespace Block

theorem tail?_relabel (b : Block) : (b.relabel g).tail? = b.tail?.map (Expr.relabel g) := by
  unfold tail?
  rw [stmts_relabel, List.getLast?_map]
  cases b.stmts.getLast? with
  | none => rfl
  | some s => exact s.expr?_relabel g

theorem columnFroms?_relabel (b : Block) : (b.relabel g).columnFroms?
    = b.columnFroms?.map (List.map fun c => (c.1, c.2.relabel g)) := by
  have hone (s : Stmt) : (s.relabel g).expr?.bind Expr.columnFrom?
      = (s.expr?.bind Expr.columnFrom?).map fun c => (c.1, c.2.relabel g) := by
    rw [Stmt.expr?_relabel]
    cases s.expr? with
    | none => rfl
    | some e => exact e.columnFrom?_relabel g
  have hall (ss : List Stmt) :
      (ss.map (Stmt.relabel g)).mapM (fun s : Stmt => s.expr?.bind Expr.columnFrom?)
        = (ss.mapM fun s : Stmt => s.expr?.bind Expr.columnFrom?).map
          (List.map fun c => (c.1, c.2.relabel g)) := by
    induction ss with
    | nil => rfl
    | cons s ss ih =>
      rw [List.map_cons, List.mapM_cons, List.mapM_cons, hone, ih]
      cases s.expr?.bind Expr.columnFrom? with
      | none => rfl
      | some c => cases ss.mapM fun s : Stmt => s.expr?.bind Expr.columnFrom? <;> rfl
  unfold columnFroms?
  rw [stmts_relabel, List.isEmpty_map, hall]
  split <;> rfl

end Block

namespace AnnotationEntry

theorem find?_relabel (as : List AnnotationEntry) (name : String) :
    find? (as.map (relabel g)) name = (find? as name).map (relabel g) := by
  unfold find?
  rw [List.find?_map]
  rfl

@[simp] theorem stringArg?_relabel (a : AnnotationEntry) :
    (a.relabel g).stringArg? = a.stringArg? := by
  unfold stringArg? relabel
  cases a.args <;> simp

end AnnotationEntry

namespace PropertyDecl

@[simp] theorem isStored_relabel (p : PropertyDecl) : (p.relabel g).isStored = p.isStored := by
  unfold isStored relabel
  cases p.getter <;> simp [Body.relabel]

@[simp] theorem columnName_relabel (p : PropertyDecl) :
    (p.relabel g).columnName = p.columnName := by
  unfold columnName relabel
  simp only [AnnotationEntry.find?_relabel]
  cases AnnotationEntry.find? p.annotations columnNameAnnotationName <;> simp

end PropertyDecl

@[simp] theorem ClassDecl.isMarker_relabel (c : ClassDecl) :
    (c.relabel g).isMarker = c.isMarker := by
  unfold isMarker relabel
  simp [AnnotationEntry.find?_relabel]

end

/-! ## Other spans alone -/

section

variable (f : Span → Span)

theorem LambdaParam.map_relabel_spans (ps : List LambdaParam) :
    ps.map (LambdaParam.relabel (.spans f)) = ps := by
  rw [show LambdaParam.relabel (.spans f) = id from rfl, List.map_id]

mutual

theorem Expr.respan_eq_relabel : ∀ e : Expr, e.respan f = e.relabel (.spans f)
  | ⟨id, _, kind⟩ => by
    have h := kind.respan_eq_relabel
    simp only [Expr.respan, Expr.relabel, h]
    rfl

theorem ExprKind.respan_eq_relabel : ∀ k : ExprKind, k.respan f = k.relabel (.spans f) fun n => n
  | .literal _ | .name _ | .this => by simp only [ExprKind.respan, ExprKind.relabel]
  | .member receiver _ _ _ => by
    simp only [ExprKind.respan, ExprKind.relabel, receiver.respan_eq_relabel]
    rfl
  | .call ⟨_, _, kind⟩ _ args => by
    simp only [ExprKind.respan, ExprKind.relabel, Expr.respan, kind.respan_eq_relabel,
      Argument.respanAll_eq_relabel args]
    rfl
  | .index receiver indices => by
    simp only [ExprKind.respan, ExprKind.relabel, receiver.respan_eq_relabel,
      Expr.respanAll_eq_relabel indices]
  | .binary _ left right => by
    simp only [ExprKind.respan, ExprKind.relabel, left.respan_eq_relabel, right.respan_eq_relabel]
  | .unary _ operand => by
    simp only [ExprKind.respan, ExprKind.relabel, operand.respan_eq_relabel]
  | .notNull inner => by simp only [ExprKind.respan, ExprKind.relabel, inner.respan_eq_relabel]
  | .cast operand _ _ => by
    simp only [ExprKind.respan, ExprKind.relabel, operand.respan_eq_relabel]
  | .ifElse condition thenBranch elseBranch => by
    simp only [ExprKind.respan, ExprKind.relabel, condition.respan_eq_relabel,
      thenBranch.respan_eq_relabel, Expr.respan?_eq_relabel elseBranch]
  | .whenOf subject branches => by
    simp only [ExprKind.respan, ExprKind.relabel, Expr.respan?_eq_relabel subject,
      WhenBranch.respanAll_eq_relabel branches]
  | .template parts => by
    simp only [ExprKind.respan, ExprKind.relabel, Expr.respanAll_eq_relabel parts]
  | .block body => by simp only [ExprKind.respan, ExprKind.relabel, body.respan_eq_relabel]
  | .lambda _ _ body => by
    simp only [ExprKind.respan, ExprKind.relabel, body.respan_eq_relabel,
      LambdaParam.map_relabel_spans]

theorem Expr.respanAll_eq_relabel :
    ∀ es : List Expr, Expr.respanAll f es = Expr.relabelAll (.spans f) es
  | [] => rfl
  | e :: rest => by
    simp only [Expr.respanAll, Expr.relabelAll, e.respan_eq_relabel,
      Expr.respanAll_eq_relabel rest]

theorem Expr.respan?_eq_relabel :
    ∀ e : Option Expr, Expr.respan? f e = Expr.relabel? (.spans f) e
  | none => rfl
  | some e => by simp only [Expr.respan?, Expr.relabel?, e.respan_eq_relabel]

theorem Argument.respan_eq_relabel : ∀ a : Argument, a.respan f = a.relabel (.spans f)
  | ⟨_, value⟩ => by simp only [Argument.respan, Argument.relabel, value.respan_eq_relabel]

theorem Argument.respanAll_eq_relabel :
    ∀ as : List Argument, Argument.respanAll f as = Argument.relabelAll (.spans f) as
  | [] => rfl
  | a :: rest => by
    simp only [Argument.respanAll, Argument.relabelAll, a.respan_eq_relabel,
      Argument.respanAll_eq_relabel rest]

theorem WhenBranch.respan_eq_relabel : ∀ b : WhenBranch, b.respan f = b.relabel (.spans f)
  | ⟨conditions, _, body⟩ => by
    simp only [WhenBranch.respan, WhenBranch.relabel, Expr.respanAll_eq_relabel conditions,
      body.respan_eq_relabel]

theorem WhenBranch.respanAll_eq_relabel :
    ∀ bs : List WhenBranch, WhenBranch.respanAll f bs = WhenBranch.relabelAll (.spans f) bs
  | [] => rfl
  | b :: rest => by
    simp only [WhenBranch.respanAll, WhenBranch.relabelAll, b.respan_eq_relabel,
      WhenBranch.respanAll_eq_relabel rest]

theorem Block.respan_eq_relabel : ∀ b : Block, b.respan f = b.relabel (.spans f)
  | ⟨stmts, _⟩ => by
    simp only [Block.respan, Block.relabel, Stmt.respanAll_eq_relabel stmts]
    rfl

theorem Stmt.respan_eq_relabel : ∀ s : Stmt, s.respan f = s.relabel (.spans f)
  | .val v => by simp only [Stmt.respan, Stmt.relabel, v.respan_eq_relabel]
  | .function h => by simp only [Stmt.respan, Stmt.relabel, h.respan_eq_relabel]
  | .expr e => by simp only [Stmt.respan, Stmt.relabel, e.respan_eq_relabel]
  | .assign target value _ => by
    simp only [Stmt.respan, Stmt.relabel, target.respan_eq_relabel, value.respan_eq_relabel]
    rfl
  | .ret value _ => by
    simp only [Stmt.respan, Stmt.relabel, Expr.respan?_eq_relabel value]
    rfl

theorem Stmt.respanAll_eq_relabel :
    ∀ ss : List Stmt, Stmt.respanAll f ss = Stmt.relabelAll (.spans f) ss
  | [] => rfl
  | s :: rest => by
    simp only [Stmt.respanAll, Stmt.relabelAll, s.respan_eq_relabel,
      Stmt.respanAll_eq_relabel rest]

theorem Body.respan_eq_relabel : ∀ b : Body, b.respan f = b.relabel (.spans f)
  | .absent => rfl
  | .expr e => by simp only [Body.respan, Body.relabel, e.respan_eq_relabel]
  | .block b => by simp only [Body.respan, Body.relabel, b.respan_eq_relabel]

theorem Param.respan_eq_relabel : ∀ p : Param, p.respan f = p.relabel (.spans f)
  | ⟨_, _, _, default, _⟩ => by
    simp only [Param.respan, Param.relabel, Expr.respan?_eq_relabel default]
    rfl

theorem Param.respanAll_eq_relabel :
    ∀ ps : List Param, Param.respanAll f ps = Param.relabelAll (.spans f) ps
  | [] => rfl
  | p :: rest => by
    simp only [Param.respanAll, Param.relabelAll, p.respan_eq_relabel,
      Param.respanAll_eq_relabel rest]

theorem FunDecl.respan_eq_relabel : ∀ d : FunDecl, d.respan f = d.relabel (.spans f)
  | ⟨_, _, _, params, _, body, _, _⟩ => by
    simp only [FunDecl.respan, FunDecl.relabel, Param.respanAll_eq_relabel params,
      body.respan_eq_relabel]
    rfl

theorem ValDecl.respan_eq_relabel : ∀ v : ValDecl, v.respan f = v.relabel (.spans f)
  | ⟨_, _, _, _, _, _, init, getter, _⟩ => by
    simp only [ValDecl.respan, ValDecl.relabel, Expr.respan?_eq_relabel init,
      getter.respan_eq_relabel]
    rfl

end

theorem AnnotationEntry.respan_eq_relabel (a : AnnotationEntry) :
    a.respan f = a.relabel (.spans f) := by
  simp only [respan, relabel, funext (Expr.respan_eq_relabel f)]
  rfl

theorem PropertyDecl.respan_eq_relabel (p : PropertyDecl) : p.respan f = p.relabel (.spans f) := by
  simp only [respan, relabel, funext (AnnotationEntry.respan_eq_relabel f),
    funext (Expr.respan_eq_relabel f), Body.respan_eq_relabel]
  rfl

theorem ClassDecl.respan_eq_relabel (c : ClassDecl) : c.respan f = c.relabel (.spans f) := by
  simp only [respan, relabel, funext (AnnotationEntry.respan_eq_relabel f),
    funext (PropertyDecl.respan_eq_relabel f), funext (Param.respan_eq_relabel f),
    funext (FunDecl.respan_eq_relabel f)]
  rfl

theorem Item.respan_eq_relabel : ∀ i : Item, i.respan f = i.relabel (.spans f)
  | .classDecl c => by rw [respan, relabel, c.respan_eq_relabel]
  | .function d => by rw [respan, relabel, d.respan_eq_relabel]
  | .property v => by rw [respan, relabel, v.respan_eq_relabel]

theorem SourceUnit.respan_eq_relabel (u : SourceUnit) : u.respan f = u.relabel (.spans f) := by
  rw [respan, relabel, funext (Item.respan_eq_relabel f)]
  rfl

end

end FrameCheck
