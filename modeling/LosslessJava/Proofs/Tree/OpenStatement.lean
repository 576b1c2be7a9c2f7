import LosslessJava.Proofs.Tree.Untyped

/-!
# Open statements

An `else` behind an open statement would belong to an `if` in it.

* `Statement.isOpen`: the statement ends with a branch that has no `else`.
* `Node.Closed`: the part in front of an `else` is not open.
-/

namespace LosslessJava

/-- The statement ends with a branch that has no `else`. -/
def Statement.isOpen : Statement → Bool
  | branch _ _ _ => true
  | fork _ _ _ _ elsePart => elsePart.isOpen
  | loop _ _ body => body.isOpen
  | _ => false

namespace Statement

theorem isOpen_untyped (s : Statement) : s.untyped.isOpen = s.isOpen := by
  fun_induction isOpen s with
  | case1 => rfl
  | case2 lead condition thenPart elseLead elsePart ih => exact ih
  | case3 lead condition body ih => exact ih
  | case4 s hbranch hfork hloop =>
    cases s with
    | branch => exact absurd rfl (hbranch _ _ _)
    | fork => exact absurd rfl (hfork _ _ _ _ _)
    | loop => exact absurd rfl (hloop _ _ _)
    | _ => rfl

end Statement

namespace Node

/-- The part in front of an `else` is not open. -/
def Closed : Node → Prop
  | statement (.fork _ _ thenPart _ _) => thenPart.isOpen = false
  | _ => True

theorem closed_untyped (n : Node) : n.untyped.Closed ↔ n.Closed := by
  cases n with
  | statement s =>
    cases s with
    | fork lead condition thenPart elseLead elsePart =>
      show thenPart.untyped.isOpen = false ↔ thenPart.isOpen = false
      rw [thenPart.isOpen_untyped]
    | _ => exact .rfl
  | _ => exact .rfl

end Node

end LosslessJava
