import FrameCheck.Tree.Children

/-!
# Trees with other spans

`respan f` replaces every span of a tree by its image under `f` and keeps all else: shapes,
names, literals and ids. The tree in which all spans are the same (`SourceUnit.bare`) is what
two trees have in common that differ in their spans only.

* `Expr.respan`, `SourceUnit.respan` : expressions and whole units.
* `SourceUnit.bare_respan` : other spans leave the bare tree as it is.
-/

namespace FrameCheck

mutual

def Expr.respan (f : Span → Span) : Expr → Expr
  | ⟨id, span, kind⟩ => ⟨id, f span, kind.respan f⟩

def ExprKind.respan (f : Span → Span) : ExprKind → ExprKind
  | .literal value => .literal value
  | .name n => .name n
  | .this => .this
  | .member receiver n nameSpan safe => .member (receiver.respan f) n (f nameSpan) safe
  | .call callee typeArgs args => .call (callee.respan f) typeArgs (Argument.respanAll f args)
  | .index receiver indices => .index (receiver.respan f) (Expr.respanAll f indices)
  | .binary op left right => .binary op (left.respan f) (right.respan f)
  | .unary op operand => .unary op (operand.respan f)
  | .notNull inner => .notNull (inner.respan f)
  | .cast operand type safe => .cast (operand.respan f) type safe
  | .ifElse condition thenBranch elseBranch =>
    .ifElse (condition.respan f) (thenBranch.respan f) (Expr.respan? f elseBranch)
  | .whenOf subject branches =>
    .whenOf (Expr.respan? f subject) (WhenBranch.respanAll f branches)
  | .template parts => .template (Expr.respanAll f parts)
  | .block body => .block (body.respan f)
  | .lambda params implicitIt body => .lambda params implicitIt (body.respan f)

def Expr.respanAll (f : Span → Span) : List Expr → List Expr
  | [] => []
  | e :: rest => e.respan f :: Expr.respanAll f rest

def Expr.respan? (f : Span → Span) : Option Expr → Option Expr
  | none => none
  | some e => some (e.respan f)

def Argument.respan (f : Span → Span) : Argument → Argument
  | ⟨name, value⟩ => ⟨name, value.respan f⟩

def Argument.respanAll (f : Span → Span) : List Argument → List Argument
  | [] => []
  | a :: rest => a.respan f :: Argument.respanAll f rest

def WhenBranch.respan (f : Span → Span) : WhenBranch → WhenBranch
  | ⟨conditions, isElse, body⟩ => ⟨Expr.respanAll f conditions, isElse, body.respan f⟩

def WhenBranch.respanAll (f : Span → Span) : List WhenBranch → List WhenBranch
  | [] => []
  | b :: rest => b.respan f :: WhenBranch.respanAll f rest

def Block.respan (f : Span → Span) : Block → Block
  | ⟨stmts, span⟩ => ⟨Stmt.respanAll f stmts, f span⟩

def Stmt.respan (f : Span → Span) : Stmt → Stmt
  | .val v => .val (v.respan f)
  | .function g => .function (g.respan f)
  | .expr e => .expr (e.respan f)
  | .assign target value span => .assign (target.respan f) (value.respan f) (f span)
  | .ret value span => .ret (Expr.respan? f value) (f span)

def Stmt.respanAll (f : Span → Span) : List Stmt → List Stmt
  | [] => []
  | s :: rest => s.respan f :: Stmt.respanAll f rest

def Body.respan (f : Span → Span) : Body → Body
  | .absent => .absent
  | .expr e => .expr (e.respan f)
  | .block b => .block (b.respan f)

def Param.respan (f : Span → Span) : Param → Param
  | ⟨decl, name, type, default, span⟩ => ⟨decl, name, type, Expr.respan? f default, f span⟩

def Param.respanAll (f : Span → Span) : List Param → List Param
  | [] => []
  | p :: rest => p.respan f :: Param.respanAll f rest

def FunDecl.respan (f : Span → Span) : FunDecl → FunDecl
  | ⟨decl, name, receiver, params, returnType, body, isProperty, span⟩ =>
    ⟨decl, name, receiver, Param.respanAll f params, returnType, body.respan f, isProperty,
      f span⟩

def ValDecl.respan (f : Span → Span) : ValDecl → ValDecl
  | ⟨decl, mutable, receiver, name, nameSpan, type, init, getter, span⟩ =>
    ⟨decl, mutable, receiver, name, f nameSpan, type, Expr.respan? f init, getter.respan f,
      f span⟩

end

-- The spans of `fun f(a) { g(a) }` go, down to those of its expressions.
example : FunDecl.respan (fun _ => ⟨0, 0⟩) ⟨1, "f", none, [⟨2, "a", none, none, ⟨6, 7⟩⟩], none,
    .block ⟨[.expr ⟨5, ⟨11, 15⟩, .call ⟨3, ⟨11, 12⟩, .name "g"⟩ []
      [⟨none, ⟨4, ⟨13, 14⟩, .name "a"⟩⟩]⟩], ⟨9, 17⟩⟩, false, ⟨0, 17⟩⟩ =
    ⟨1, "f", none, [⟨2, "a", none, none, ⟨0, 0⟩⟩], none,
      .block ⟨[.expr ⟨5, ⟨0, 0⟩, .call ⟨3, ⟨0, 0⟩, .name "g"⟩ []
        [⟨none, ⟨4, ⟨0, 0⟩, .name "a"⟩⟩]⟩], ⟨0, 0⟩⟩, false, ⟨0, 0⟩⟩ := by cbv

namespace AnnotationEntry

def respan (f : Span → Span) (a : AnnotationEntry) : AnnotationEntry :=
  ⟨a.name, a.args.map (Expr.respan f), f a.span⟩

end AnnotationEntry

namespace PropertyDecl

def respan (f : Span → Span) (p : PropertyDecl) : PropertyDecl :=
  ⟨p.decl, p.annotations.map (AnnotationEntry.respan f), p.mutable, p.name, f p.nameSpan, p.type,
    p.init.map (Expr.respan f), p.getter.respan f, p.inConstructor, f p.span⟩

end PropertyDecl

namespace ClassDecl

def respan (f : Span → Span) (c : ClassDecl) : ClassDecl :=
  ⟨c.annotations.map (AnnotationEntry.respan f), c.isInterface, c.name, f c.nameSpan,
    c.supertypes, c.params.map (Param.respan f), c.properties.map (PropertyDecl.respan f),
    c.methods.map (FunDecl.respan f), f c.span⟩

end ClassDecl

namespace Item

def respan (f : Span → Span) : Item → Item
  | classDecl c => classDecl (c.respan f)
  | function g => function (g.respan f)
  | property v => property (v.respan f)

end Item

namespace SourceUnit

def respan (f : Span → Span) (u : SourceUnit) : SourceUnit :=
  ⟨u.items.map (Item.respan f), u.skipped.map f⟩

/-- The tree without its spans. -/
def bare (u : SourceUnit) : SourceUnit := u.respan fun _ => ⟨0, 0⟩

end SourceUnit

/-! ## Lists and parts -/

section

variable (f : Span → Span)

@[simp] theorem Expr.respanAll_eq_map : ∀ es : List Expr, respanAll f es = es.map (respan f)
  | [] => rfl
  | e :: rest => by rw [respanAll, respanAll_eq_map rest, List.map_cons]

@[simp] theorem Expr.respan?_eq_map (e : Option Expr) : respan? f e = e.map (respan f) := by
  cases e <;> rfl

@[simp] theorem Argument.respanAll_eq_map :
    ∀ as : List Argument, respanAll f as = as.map (respan f)
  | [] => rfl
  | a :: rest => by rw [respanAll, respanAll_eq_map rest, List.map_cons]

@[simp] theorem WhenBranch.respanAll_eq_map :
    ∀ bs : List WhenBranch, respanAll f bs = bs.map (respan f)
  | [] => rfl
  | b :: rest => by rw [respanAll, respanAll_eq_map rest, List.map_cons]

@[simp] theorem Stmt.respanAll_eq_map : ∀ ss : List Stmt, respanAll f ss = ss.map (respan f)
  | [] => rfl
  | s :: rest => by rw [respanAll, respanAll_eq_map rest, List.map_cons]

@[simp] theorem Param.respanAll_eq_map : ∀ ps : List Param, respanAll f ps = ps.map (respan f)
  | [] => rfl
  | p :: rest => by rw [respanAll, respanAll_eq_map rest, List.map_cons]

@[simp] theorem Expr.span_respan (e : Expr) : (e.respan f).span = f e.span := by
  rcases e with ⟨id, span, kind⟩
  rw [respan]

@[simp] theorem Expr.kind_respan (e : Expr) : (e.respan f).kind = e.kind.respan f := by
  rcases e with ⟨id, span, kind⟩
  rw [respan]

@[simp] theorem Argument.value_respan (a : Argument) : (a.respan f).value = a.value.respan f := by
  rcases a with ⟨name, value⟩
  rw [respan]

@[simp] theorem Block.span_respan (b : Block) : (b.respan f).span = f b.span := by
  rcases b with ⟨stmts, span⟩
  rw [respan]

@[simp] theorem ValDecl.receiver_respan (v : ValDecl) : (v.respan f).receiver = v.receiver := by
  rcases v with ⟨decl, mutable, receiver, name, nameSpan, type, init, getter, span⟩
  rw [respan]

end

/-! ## One change of spans behind another -/

section

variable (f g : Span → Span)

mutual

theorem Expr.respan_respan : ∀ e : Expr, (e.respan f).respan g = e.respan (g ∘ f)
  | ⟨_, _, kind⟩ => by
    simp only [Expr.respan, kind.respan_respan, Function.comp]

theorem ExprKind.respan_respan : ∀ k : ExprKind, (k.respan f).respan g = k.respan (g ∘ f)
  | .literal _ | .name _ | .this => rfl
  | .member receiver _ _ _ => by simp only [ExprKind.respan, receiver.respan_respan, Function.comp]
  | .call callee _ args => by
    simp only [ExprKind.respan, callee.respan_respan, Argument.respanAll_respanAll args]
  | .index receiver indices => by
    simp only [ExprKind.respan, receiver.respan_respan, Expr.respanAll_respanAll indices]
  | .binary _ left right => by simp only [ExprKind.respan, left.respan_respan, right.respan_respan]
  | .unary _ operand => by simp only [ExprKind.respan, operand.respan_respan]
  | .notNull inner => by simp only [ExprKind.respan, inner.respan_respan]
  | .cast operand _ _ => by simp only [ExprKind.respan, operand.respan_respan]
  | .ifElse condition thenBranch elseBranch => by
    simp only [ExprKind.respan, condition.respan_respan, thenBranch.respan_respan,
      Expr.respan?_respan? elseBranch]
  | .whenOf subject branches => by
    simp only [ExprKind.respan, Expr.respan?_respan? subject,
      WhenBranch.respanAll_respanAll branches]
  | .template parts => by simp only [ExprKind.respan, Expr.respanAll_respanAll parts]
  | .block body => by simp only [ExprKind.respan, body.respan_respan]
  | .lambda _ _ body => by simp only [ExprKind.respan, body.respan_respan]

theorem Expr.respanAll_respanAll :
    ∀ es : List Expr, Expr.respanAll g (Expr.respanAll f es) = Expr.respanAll (g ∘ f) es
  | [] => rfl
  | e :: rest => by simp only [Expr.respanAll, e.respan_respan, Expr.respanAll_respanAll rest]

theorem Expr.respan?_respan? :
    ∀ e : Option Expr, Expr.respan? g (Expr.respan? f e) = Expr.respan? (g ∘ f) e
  | none => rfl
  | some e => by simp only [Expr.respan?, e.respan_respan]

theorem Argument.respan_respan : ∀ a : Argument, (a.respan f).respan g = a.respan (g ∘ f)
  | ⟨_, value⟩ => by simp only [Argument.respan, value.respan_respan]

theorem Argument.respanAll_respanAll :
    ∀ as : List Argument,
      Argument.respanAll g (Argument.respanAll f as) = Argument.respanAll (g ∘ f) as
  | [] => rfl
  | a :: rest => by
    simp only [Argument.respanAll, a.respan_respan, Argument.respanAll_respanAll rest]

theorem WhenBranch.respan_respan :
    ∀ b : WhenBranch, (b.respan f).respan g = b.respan (g ∘ f)
  | ⟨conditions, _, body⟩ => by
    simp only [WhenBranch.respan, Expr.respanAll_respanAll conditions, body.respan_respan]

theorem WhenBranch.respanAll_respanAll :
    ∀ bs : List WhenBranch,
      WhenBranch.respanAll g (WhenBranch.respanAll f bs) = WhenBranch.respanAll (g ∘ f) bs
  | [] => rfl
  | b :: rest => by
    simp only [WhenBranch.respanAll, b.respan_respan, WhenBranch.respanAll_respanAll rest]

theorem Block.respan_respan : ∀ b : Block, (b.respan f).respan g = b.respan (g ∘ f)
  | ⟨stmts, _⟩ => by simp only [Block.respan, Stmt.respanAll_respanAll stmts, Function.comp]

theorem Stmt.respan_respan : ∀ s : Stmt, (s.respan f).respan g = s.respan (g ∘ f)
  | .val v => by simp only [Stmt.respan, v.respan_respan]
  | .function h => by simp only [Stmt.respan, h.respan_respan]
  | .expr e => by simp only [Stmt.respan, e.respan_respan]
  | .assign target value _ => by
    simp only [Stmt.respan, target.respan_respan, value.respan_respan, Function.comp]
  | .ret value _ => by simp only [Stmt.respan, Expr.respan?_respan? value, Function.comp]

theorem Stmt.respanAll_respanAll :
    ∀ ss : List Stmt, Stmt.respanAll g (Stmt.respanAll f ss) = Stmt.respanAll (g ∘ f) ss
  | [] => rfl
  | s :: rest => by simp only [Stmt.respanAll, s.respan_respan, Stmt.respanAll_respanAll rest]

theorem Body.respan_respan : ∀ b : Body, (b.respan f).respan g = b.respan (g ∘ f)
  | .absent => rfl
  | .expr e => by simp only [Body.respan, e.respan_respan]
  | .block b => by simp only [Body.respan, b.respan_respan]

theorem Param.respan_respan : ∀ p : Param, (p.respan f).respan g = p.respan (g ∘ f)
  | ⟨_, _, _, default, _⟩ => by
    simp only [Param.respan, Expr.respan?_respan? default, Function.comp]

theorem Param.respanAll_respanAll :
    ∀ ps : List Param,
      Param.respanAll g (Param.respanAll f ps) = Param.respanAll (g ∘ f) ps
  | [] => rfl
  | p :: rest => by simp only [Param.respanAll, p.respan_respan, Param.respanAll_respanAll rest]

theorem FunDecl.respan_respan : ∀ d : FunDecl, (d.respan f).respan g = d.respan (g ∘ f)
  | ⟨_, _, _, params, _, body, _, _⟩ => by
    simp only [FunDecl.respan, Param.respanAll_respanAll params, body.respan_respan, Function.comp]

theorem ValDecl.respan_respan : ∀ v : ValDecl, (v.respan f).respan g = v.respan (g ∘ f)
  | ⟨_, _, _, _, _, _, init, getter, _⟩ => by
    simp only [ValDecl.respan, Expr.respan?_respan? init, getter.respan_respan, Function.comp]

end

theorem AnnotationEntry.respan_respan (a : AnnotationEntry) :
    (a.respan f).respan g = a.respan (g ∘ f) := by
  simp [respan, Expr.respan_respan]

theorem PropertyDecl.respan_respan (p : PropertyDecl) :
    (p.respan f).respan g = p.respan (g ∘ f) := by
  simp [respan, AnnotationEntry.respan_respan, Expr.respan_respan, Body.respan_respan,
    Function.comp_def]

theorem ClassDecl.respan_respan (c : ClassDecl) : (c.respan f).respan g = c.respan (g ∘ f) := by
  simp [respan, AnnotationEntry.respan_respan, PropertyDecl.respan_respan, Param.respan_respan,
    FunDecl.respan_respan]

theorem Item.respan_respan (i : Item) : (i.respan f).respan g = i.respan (g ∘ f) := by
  cases i <;> simp [respan, ClassDecl.respan_respan, FunDecl.respan_respan, ValDecl.respan_respan]

theorem SourceUnit.respan_respan (u : SourceUnit) :
    (u.respan f).respan g = u.respan (g ∘ f) := by
  simp [respan, Item.respan_respan]

end

/-- Other spans leave the bare tree as it is. -/
@[simp] theorem SourceUnit.bare_respan (f : Span → Span) (u : SourceUnit) :
    (u.respan f).bare = u.bare := u.respan_respan f _

end FrameCheck
