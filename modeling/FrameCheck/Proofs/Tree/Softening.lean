import FrameCheck.Parse.Decl
import FrameCheck.Proofs.Tree.Unnumbered
import FrameCheck.Proofs.TypeRef.Qualified

/-!
# Other names in a tree

`renamed f` changes every name of a tree by `f`, of a qualified name its first segment. Where a
parser asks for a plain name, a soft keyword does not do: `strictNames` are the names of a tree
that were read in such a place. These are the names of named arguments, of the parameters of lambdas
and of operators, the segments of types behind a dot, and the names of extensions, which may have
been read as such a segment.

* `Expr.renamed`, `Stmt.renamed` : expressions and statements.
* `Expr.strictNames` : the names that are no soft keywords.
-/

namespace FrameCheck

/-! ## Qualified names -/

/-- A qualified name with another first segment. -/
def renameFirst (f : String → String) (name : String) : String :=
  f (String.ofList (name.toList.takeWhile (· != '.'))) ++
    String.ofList (name.toList.dropWhile (· != '.'))

/-- The segments behind the dots of a qualified name. -/
def innerSegments : List Char → List String
  | [] => []
  | c :: cs =>
    if c = '.' then String.ofList (cs.takeWhile (· != '.')) :: innerSegments cs
    else innerSegments cs

section

variable {a : List Char}

theorem innerSegments_dotted (a b : List Char) :
    innerSegments (a ++ '.' :: b)
      = innerSegments a ++ String.ofList (b.takeWhile (· != '.')) :: innerSegments b := by
  induction a with
  | nil => simp [innerSegments]
  | cons c a ih =>
    rw [List.cons_append, innerSegments, innerSegments, ih, takeWhile_dotted]
    split <;> rfl

theorem innerSegments_of_undotted (h : '.' ∉ a) : innerSegments a = [] := by
  induction a with
  | nil => rfl
  | cons c cs ih =>
    rw [List.mem_cons, not_or] at h
    rw [innerSegments, if_neg (Ne.symm h.1), ih h.2]

end

theorem renameFirst_of_undotted {f : String → String} {name : String} (h : '.' ∉ name.toList) :
    renameFirst f name = f name := by
  rw [renameFirst, takeWhile_of_undotted h, dropWhile_of_undotted h, String.ofList_toList]
  exact String.append_empty

theorem renameFirst_dotted (f : String → String) (a b : String) :
    renameFirst f (a ++ "." ++ b) = renameFirst f a ++ "." ++ b := by
  refine String.toList_inj.1 ?_
  rw [toList_dotted, renameFirst, renameFirst, toList_dotted, takeWhile_dotted, dropWhile_dotted]
  simp

/-! ### Receivers -/

theorem splitReceiver?_dotted (a : String) {b : String} (h : '.' ∉ b.toList) :
    splitReceiver? (a ++ "." ++ b) = some (a, b) := by
  have hlength : (a ++ "." ++ b).length = a.length + 1 + b.length := by
    simp [String.length_append, show ".".length = 1 from rfl]
  unfold splitReceiver?
  dsimp only
  rw [TypeRef.lastSegment_dotted a h, if_pos (by omega), hlength,
    show a.length + 1 + b.length - b.length - 1 = a.toList.length by
      rw [String.length_toList]; omega, toList_dotted,
    List.take_left, String.ofList_toList]

theorem splitReceiver?_of_undotted {b : String} (h : '.' ∉ b.toList) : splitReceiver? b = none := by
  unfold splitReceiver?
  dsimp only
  rw [TypeRef.lastSegment_of_undotted h, if_neg (Nat.lt_irrefl _)]

/-! ## Trees -/

namespace TypeRef

mutual

def renamed (f : String → String) : TypeRef → TypeRef
  | ⟨name, args, nullable⟩ => ⟨renameFirst f name, renamedAll f args, nullable⟩

def renamedAll (f : String → String) : List TypeRef → List TypeRef
  | [] => []
  | t :: ts => t.renamed f :: renamedAll f ts

end

mutual

def strictNames : TypeRef → List String
  | ⟨name, args, _⟩ => innerSegments name.toList ++ strictNamesAll args

def strictNamesAll : List TypeRef → List String
  | [] => []
  | t :: ts => t.strictNames ++ strictNamesAll ts

end

end TypeRef

namespace BinaryOp

def renamed (f : String → String) : BinaryOp → BinaryOp
  | named n => named (f n)
  | op => op

def strictNames : BinaryOp → List String
  | named n => [n]
  | _ => []

end BinaryOp

namespace LambdaParam

def renamed (f : String → String) (p : LambdaParam) : LambdaParam :=
  ⟨p.decl, f p.name, p.type.map (TypeRef.renamed f)⟩

def strictNames (p : LambdaParam) : List String :=
  p.name :: p.type.toList.flatMap TypeRef.strictNames

end LambdaParam

section

variable (f : String → String)

mutual

def Expr.renamed : Expr → Expr
  | ⟨id, span, kind⟩ => ⟨id, span, kind.renamed⟩

def ExprKind.renamed : ExprKind → ExprKind
  | .literal value => .literal value
  | .name n => .name (f n)
  | .this => .this
  | .member receiver n nameSpan safe => .member receiver.renamed (f n) nameSpan safe
  | .call callee typeArgs args =>
    .call callee.renamed (typeArgs.map (TypeRef.renamed f)) (Argument.renamedAll args)
  | .index receiver indices => .index receiver.renamed (Expr.renamedAll indices)
  | .binary op left right => .binary (op.renamed f) left.renamed right.renamed
  | .unary op operand => .unary op operand.renamed
  | .notNull inner => .notNull inner.renamed
  | .cast operand type safe => .cast operand.renamed (type.renamed f) safe
  | .ifElse condition thenBranch elseBranch =>
    .ifElse condition.renamed thenBranch.renamed (Expr.renamed? elseBranch)
  | .whenOf subject branches => .whenOf (Expr.renamed? subject) (WhenBranch.renamedAll branches)
  | .template parts => .template (Expr.renamedAll parts)
  | .block body => .block body.renamed
  | .lambda params implicitIt body =>
    .lambda (params.map (LambdaParam.renamed f)) implicitIt body.renamed

def Expr.renamedAll : List Expr → List Expr
  | [] => []
  | e :: rest => e.renamed :: Expr.renamedAll rest

def Expr.renamed? : Option Expr → Option Expr
  | none => none
  | some e => some e.renamed

def Argument.renamed : Argument → Argument
  | ⟨name, value⟩ => ⟨name.map f, value.renamed⟩

def Argument.renamedAll : List Argument → List Argument
  | [] => []
  | a :: rest => a.renamed :: Argument.renamedAll rest

def WhenBranch.renamed : WhenBranch → WhenBranch
  | ⟨conditions, isElse, body⟩ => ⟨Expr.renamedAll conditions, isElse, body.renamed⟩

def WhenBranch.renamedAll : List WhenBranch → List WhenBranch
  | [] => []
  | b :: rest => b.renamed :: WhenBranch.renamedAll rest

def Block.renamed : Block → Block
  | ⟨stmts, span⟩ => ⟨Stmt.renamedAll stmts, span⟩

def Stmt.renamed : Stmt → Stmt
  | .val v => .val v.renamed
  | .function d => .function d.renamed
  | .expr e => .expr e.renamed
  | .assign target value span => .assign target.renamed value.renamed span
  | .ret value span => .ret (Expr.renamed? value) span

def Stmt.renamedAll : List Stmt → List Stmt
  | [] => []
  | s :: rest => s.renamed :: Stmt.renamedAll rest

def Body.renamed : Body → Body
  | .absent => .absent
  | .expr e => .expr e.renamed
  | .block b => .block b.renamed

def Param.renamed : Param → Param
  | ⟨decl, name, type, default, span⟩ =>
    ⟨decl, f name, type.map (TypeRef.renamed f), Expr.renamed? default, span⟩

def Param.renamedAll : List Param → List Param
  | [] => []
  | p :: rest => p.renamed :: Param.renamedAll rest

def FunDecl.renamed : FunDecl → FunDecl
  | ⟨decl, name, receiver, params, returnType, body, isProperty, span⟩ =>
    ⟨decl, if receiver.isSome then f name else renameFirst f name,
      receiver.map (TypeRef.renamed f), Param.renamedAll params,
      returnType.map (TypeRef.renamed f), body.renamed, isProperty, span⟩

def ValDecl.renamed : ValDecl → ValDecl
  | ⟨decl, mutable, receiver, name, nameSpan, type, init, getter, span⟩ =>
    ⟨decl, mutable, receiver.map (TypeRef.renamed f), f name, nameSpan,
      type.map (TypeRef.renamed f), Expr.renamed? init, getter.renamed, span⟩

end

end

mutual

def Expr.strictNames : Expr → List String
  | ⟨_, _, kind⟩ => kind.strictNames

def ExprKind.strictNames : ExprKind → List String
  | .literal _ | .name _ | .this => []
  | .member receiver _ _ _ => receiver.strictNames
  | .call callee typeArgs args =>
    callee.strictNames ++ TypeRef.strictNamesAll typeArgs ++ Argument.strictNamesAll args
  | .index receiver indices => receiver.strictNames ++ Expr.strictNamesAll indices
  | .binary op left right => op.strictNames ++ left.strictNames ++ right.strictNames
  | .unary _ operand => operand.strictNames
  | .notNull inner => inner.strictNames
  | .cast operand type _ => operand.strictNames ++ type.strictNames
  | .ifElse condition thenBranch elseBranch =>
    condition.strictNames ++ thenBranch.strictNames ++ Expr.strictNames? elseBranch
  | .whenOf subject branches => Expr.strictNames? subject ++ WhenBranch.strictNamesAll branches
  | .template parts => Expr.strictNamesAll parts
  | .block body => body.strictNames
  | .lambda params _ body => params.flatMap LambdaParam.strictNames ++ body.strictNames

def Expr.strictNamesAll : List Expr → List String
  | [] => []
  | e :: rest => e.strictNames ++ Expr.strictNamesAll rest

def Expr.strictNames? : Option Expr → List String
  | none => []
  | some e => e.strictNames

def Argument.strictNames : Argument → List String
  | ⟨name, value⟩ => name.toList ++ value.strictNames

def Argument.strictNamesAll : List Argument → List String
  | [] => []
  | a :: rest => a.strictNames ++ Argument.strictNamesAll rest

def WhenBranch.strictNames : WhenBranch → List String
  | ⟨conditions, _, body⟩ => Expr.strictNamesAll conditions ++ body.strictNames

def WhenBranch.strictNamesAll : List WhenBranch → List String
  | [] => []
  | b :: rest => b.strictNames ++ WhenBranch.strictNamesAll rest

def Block.strictNames : Block → List String
  | ⟨stmts, _⟩ => Stmt.strictNamesAll stmts

def Stmt.strictNames : Stmt → List String
  | .val v => v.strictNames
  | .function d => d.strictNames
  | .expr e => e.strictNames
  | .assign target value _ => target.strictNames ++ value.strictNames
  | .ret value _ => Expr.strictNames? value

def Stmt.strictNamesAll : List Stmt → List String
  | [] => []
  | s :: rest => s.strictNames ++ Stmt.strictNamesAll rest

def Body.strictNames : Body → List String
  | .absent => []
  | .expr e => e.strictNames
  | .block b => b.strictNames

def Param.strictNames : Param → List String
  | ⟨_, _, type, default, _⟩ =>
    TypeRef.strictNamesAll type.toList ++ Expr.strictNames? default

def Param.strictNamesAll : List Param → List String
  | [] => []
  | p :: rest => p.strictNames ++ Param.strictNamesAll rest

def FunDecl.strictNames : FunDecl → List String
  | ⟨_, name, receiver, params, returnType, body, _, _⟩ =>
    (if receiver.isSome then [name] else innerSegments name.toList)
      ++ TypeRef.strictNamesAll receiver.toList ++ Param.strictNamesAll params
      ++ TypeRef.strictNamesAll returnType.toList ++ body.strictNames

def ValDecl.strictNames : ValDecl → List String
  | ⟨_, _, receiver, name, _, type, init, getter, _⟩ =>
    (if receiver.isSome then [name] else []) ++ TypeRef.strictNamesAll receiver.toList
      ++ TypeRef.strictNamesAll type.toList ++ Expr.strictNames? init ++ getter.strictNames

end

/-! ## Lists and parts -/

namespace TypeRef

@[simp] theorem renamedAll_eq_map (f : String → String) (ts : List TypeRef) :
    renamedAll f ts = ts.map (renamed f) := by
  induction ts with
  | nil => rfl
  | cons t ts ih => rw [renamedAll, ih, List.map_cons]

@[simp] theorem strictNamesAll_eq_flatMap (ts : List TypeRef) :
    strictNamesAll ts = ts.flatMap strictNames := by
  induction ts with
  | nil => rfl
  | cons t ts ih => rw [strictNamesAll, ih, List.flatMap_cons]

end TypeRef

section

variable (f : String → String)

@[simp] theorem Expr.renamedAll_eq_map (es : List Expr) : renamedAll f es = es.map (renamed f) := by
  induction es with
  | nil => rfl
  | cons e rest ih => rw [renamedAll, ih, List.map_cons]

@[simp] theorem Expr.renamed?_eq_map (e : Option Expr) : renamed? f e = e.map (renamed f) := by
  cases e <;> rfl

@[simp] theorem Argument.renamedAll_eq_map (as : List Argument) :
    renamedAll f as = as.map (renamed f) := by
  induction as with
  | nil => rfl
  | cons a rest ih => rw [renamedAll, ih, List.map_cons]

@[simp] theorem WhenBranch.renamedAll_eq_map (bs : List WhenBranch) :
    renamedAll f bs = bs.map (renamed f) := by
  induction bs with
  | nil => rfl
  | cons b rest ih => rw [renamedAll, ih, List.map_cons]

@[simp] theorem Stmt.renamedAll_eq_map (ss : List Stmt) : renamedAll f ss = ss.map (renamed f) := by
  induction ss with
  | nil => rfl
  | cons s rest ih => rw [renamedAll, ih, List.map_cons]

@[simp] theorem Param.renamedAll_eq_map (ps : List Param) :
    renamedAll f ps = ps.map (renamed f) := by
  induction ps with
  | nil => rfl
  | cons p rest ih => rw [renamedAll, ih, List.map_cons]

end

@[simp] theorem Expr.strictNamesAll_eq_flatMap (es : List Expr) :
    strictNamesAll es = es.flatMap strictNames := by
  induction es with
  | nil => rfl
  | cons e rest ih => rw [strictNamesAll, ih, List.flatMap_cons]

@[simp] theorem Expr.strictNames?_eq_flatMap (e : Option Expr) :
    strictNames? e = e.toList.flatMap strictNames := by
  cases e
  · rfl
  · exact (List.flatMap_singleton _ _).symm

@[simp] theorem Argument.strictNamesAll_eq_flatMap (as : List Argument) :
    strictNamesAll as = as.flatMap strictNames := by
  induction as with
  | nil => rfl
  | cons a rest ih => rw [strictNamesAll, ih, List.flatMap_cons]

@[simp] theorem WhenBranch.strictNamesAll_eq_flatMap (bs : List WhenBranch) :
    strictNamesAll bs = bs.flatMap strictNames := by
  induction bs with
  | nil => rfl
  | cons b rest ih => rw [strictNamesAll, ih, List.flatMap_cons]

@[simp] theorem Stmt.strictNamesAll_eq_flatMap (ss : List Stmt) :
    strictNamesAll ss = ss.flatMap strictNames := by
  induction ss with
  | nil => rfl
  | cons s rest ih => rw [strictNamesAll, ih, List.flatMap_cons]

@[simp] theorem Param.strictNamesAll_eq_flatMap (ps : List Param) :
    strictNamesAll ps = ps.flatMap strictNames := by
  induction ps with
  | nil => rfl
  | cons p rest ih => rw [strictNamesAll, ih, List.flatMap_cons]

/-! ## Templates -/

theorem ExprKind.strictNames_template (parts : List Expr) :
    (ExprKind.template parts).strictNames = parts.flatMap Expr.strictNames := by
  rw [strictNames, Expr.strictNamesAll_eq_flatMap]

theorem ExprKind.unnumbered_renamed_template (f : String → String) (parts : List Expr) :
    ((ExprKind.template parts).renamed f).unnumbered
      = .template ((parts.map (Expr.renamed f)).map Expr.unnumbered) := by
  rw [renamed, unnumbered, Expr.renamedAll_eq_map, Expr.unnumberedAll_eq_map]

-- In `f(a = b)` only the name of the argument is strict.
example : Expr.strictNames ⟨2, ⟨0, 8⟩, .call ⟨0, ⟨0, 1⟩, .name "f"⟩ []
    [⟨some "a", ⟨1, ⟨6, 7⟩, .name "b"⟩⟩]⟩ = ["a"] := by cbv

end FrameCheck
