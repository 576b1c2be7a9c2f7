import LosslessJava.Proofs.Tree.Untyped

/-!
# Nodes at paths

A path of indexes leads from a node to a child, a child of that child, and so on. Two trees of one
structure correspond path by path.

* `Node.within_iff_at?`: paths lead to all nodes of a tree and to nothing else.
* `Node.at?_untyped`: types are no part of the structure.
-/

namespace LosslessJava

instance : Printable Node := ⟨Node.steps⟩

namespace Node

/-- The node at the end of the path, if the path stays in the tree. -/
def at? : Node → List Nat → Option Node
  | n, [] => some n
  | n, i :: path => n.children[i]?.bind (·.at? path)

/-- Paths lead to all nodes of a tree and to nothing else. -/
theorem within_iff_at? {m n : Node} : Within m n ↔ ∃ path, n.at? path = some m := by
  constructor
  · intro h
    induction h with
    | refl => exact ⟨[], rfl⟩
    | child hk _ ih =>
      obtain ⟨path, hpath⟩ := ih
      obtain ⟨i, hi⟩ := List.mem_iff_getElem?.mp hk
      exact ⟨i :: path, by rw [at?, hi, Option.bind_some, hpath]⟩
  · rintro ⟨path, h⟩
    induction path generalizing n with
    | nil =>
      cases h
      exact .refl m
    | cons i path ih =>
      obtain ⟨k, hk, hpath⟩ := Option.bind_eq_some_iff.mp h
      exact .child (List.mem_of_getElem? hk) (ih hpath)

theorem at?_untyped (n : Node) (path : List Nat) :
    n.untyped.at? path = (n.at? path).map untyped := by
  induction path generalizing n with
  | nil => rfl
  | cons i path ih =>
    rw [at?, at?, children_untyped, List.getElem?_map]
    cases n.children[i]? with
    | none => rfl
    | some k => exact ih k

/-- Trees that differ in types only have the same nodes at the same paths, up to types. -/
theorem map_untyped_at?_congr {m n : Node} (h : m.untyped = n.untyped) (path : List Nat) :
    (m.at? path).map untyped = (n.at? path).map untyped := by
  rw [← at?_untyped, h, at?_untyped]

/-- A print shows no types. -/
theorem print_untyped (n : Node) : print n.untyped = print n :=
  congrArg (Step.render .verbatim) n.steps_untyped

theorem printTrimmed_untyped (n : Node) : printTrimmed n.untyped = printTrimmed n :=
  congrArg (Step.render .trimmed) n.steps_untyped

end Node

end LosslessJava
