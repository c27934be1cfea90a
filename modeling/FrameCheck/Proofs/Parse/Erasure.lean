import FrameCheck.Parse.State
import FrameCheck.Proofs.Tree.Unnumbered

/-!
# Values up to ids

What a parser returns holds ids that depend on what was read before. `Erasable` values can be
compared without them (`Erasable.Alike`).
-/

namespace FrameCheck

/-- Values in which ids may stand. -/
class Erasable (α : Type) where
  /-- The value without the ids in it. -/
  erase : α → α

namespace Erasable

/-- A value in which no id stands. -/
@[reducible] def plain (α : Type) : Erasable α := ⟨fun a => a⟩

instance : Erasable Unit := plain _
instance : Erasable Bool := plain _
instance : Erasable Nat := plain _
instance : Erasable String := plain _
instance : Erasable Span := plain _
instance : Erasable Token := plain _
instance : Erasable TokenKind := plain _
instance : Erasable Cursor := plain _
instance : Erasable UnaryOp := plain _
instance : Erasable TypeRef := plain _
instance : Erasable AnnotationEntry := ⟨fun a => { a with args := a.args.map Expr.unnumbered }⟩

instance : Erasable Expr := ⟨Expr.unnumbered⟩
instance : Erasable Argument := ⟨Argument.unnumbered⟩
instance : Erasable LambdaParam := ⟨LambdaParam.unnumbered⟩
instance : Erasable WhenBranch := ⟨WhenBranch.unnumbered⟩
instance : Erasable Block := ⟨Block.unnumbered⟩
instance : Erasable Stmt := ⟨Stmt.unnumbered⟩
instance : Erasable Body := ⟨Body.unnumbered⟩
instance : Erasable Param := ⟨Param.unnumbered⟩
instance : Erasable FunDecl := ⟨FunDecl.unnumbered⟩
instance : Erasable ValDecl := ⟨ValDecl.unnumbered⟩

variable {α β : Type} [Erasable α] [Erasable β]

instance : Erasable (Option α) := ⟨Option.map erase⟩
instance : Erasable (List α) := ⟨List.map erase⟩
instance : Erasable (α × β) := ⟨fun x => (erase x.1, erase x.2)⟩

instance : Erasable (Parser.Round α β) where
  erase
    | .next a => .next (erase a)
    | .stop b => .stop (erase b)

/-- A type whose values hold no ids. -/
class Idless (α : Type) [Erasable α] : Prop where
  erase_eq : ∀ a : α, erase a = a

instance : Idless Unit := ⟨fun _ => rfl⟩
instance : Idless Bool := ⟨fun _ => rfl⟩
instance : Idless Nat := ⟨fun _ => rfl⟩
instance : Idless String := ⟨fun _ => rfl⟩
instance : Idless Span := ⟨fun _ => rfl⟩
instance : Idless Token := ⟨fun _ => rfl⟩
instance : Idless TokenKind := ⟨fun _ => rfl⟩
instance : Idless UnaryOp := ⟨fun _ => rfl⟩
instance : Idless TypeRef := ⟨fun _ => rfl⟩

instance [Idless α] [Idless β] : Idless (α × β) where
  erase_eq x := by
    show (erase x.1, erase x.2) = x
    rw [Idless.erase_eq, Idless.erase_eq]

instance [Idless α] : Idless (List α) where
  erase_eq l := by
    show l.map erase = l
    rw [show (erase : α → α) = id from funext Idless.erase_eq, List.map_id]

instance [Idless α] : Idless (Option α) where
  erase_eq o := by
    show o.map erase = o
    rw [show (erase : α → α) = id from funext Idless.erase_eq, Option.map_id]
    rfl

/-- The same value up to ids. -/
def Alike (a b : α) : Prop := erase b = erase a

theorem Alike.eq [Idless α] {a b : α} (h : Alike a b) : b = a := by
  have h : erase b = erase a := h
  rwa [Idless.erase_eq, Idless.erase_eq] at h

theorem Alike.append {as as' : List α} {a a' : α} (has : Alike as as') (ha : Alike a a') :
    Alike (as ++ [a]) (as' ++ [a']) := by
  show (as' ++ [a']).map erase = (as ++ [a]).map erase
  rw [List.map_append, List.map_append, show as'.map erase = _ from has]
  exact congrArg (as.map erase ++ [·]) ha

end Erasable

end FrameCheck
