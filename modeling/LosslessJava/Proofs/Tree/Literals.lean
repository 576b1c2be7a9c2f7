import LosslessJava.Proofs.Tree.Occurrence

/-!
# Literals in a tree

* `Node.sizeOf_children`: a child is smaller than its parent.
* `Node.literals`: the texts of the literals in a node, in the order in which they are printed.
* `Node.literals_bare`: the literals stay in place when an expression loses its lead.
-/

namespace LosslessJava

/-! ## Sizes -/

section

variable {α : Type} [SizeOf α]

theorem Padded.sizeOf_lt {p : Padded α} {ps : List (Padded α)} (h : p ∈ ps) :
    sizeOf p.element < sizeOf ps := by
  have := List.sizeOf_lt_of_mem h
  obtain ⟨element, after⟩ := p
  simp only [mk.sizeOf_spec] at this
  show sizeOf element < _
  omega

theorem Delimited.sizeOf_lt {d : Delimited α} {a : α} (h : a ∈ d.toList) :
    sizeOf a < sizeOf d := by
  obtain ⟨p, hp, rfl⟩ := List.mem_map.mp h
  have := Padded.sizeOf_lt hp
  obtain ⟨before, elements, close⟩ := d
  simp only [mk.sizeOf_spec] at this ⊢
  omega

theorem Delimited.sizeOf_lt_optional {o : Option (Delimited α)} {a : α} (h : a ∈ optionalList o) :
    sizeOf a < sizeOf o := by
  cases o with
  | none => cases h
  | some d =>
    have := sizeOf_lt h
    simp only [Option.some.sizeOf_spec]
    omega

end

attribute [local grind →] Padded.sizeOf_lt Delimited.sizeOf_lt Delimited.sizeOf_lt_optional
  List.sizeOf_lt_of_mem
attribute [local grind =] Option.map_eq_some_iff

theorem Expression.sizeOf_children {e : Expression} {k : Node} (hk : k ∈ e.children) :
    sizeOf k < sizeOf (Node.expression e) := by
  cases e with
  | _ => grind [children]

theorem Statement.sizeOf_children {s : Statement} {k : Node} (hk : k ∈ s.children) :
    sizeOf k < sizeOf (Node.statement s) := by
  cases s with
  | _ => grind [children]

theorem Modifier.sizeOf_children {m : Modifier} {k : Node} (hk : k ∈ m.children) :
    sizeOf k < sizeOf (Node.modifier m) := by
  cases m with
  | _ => grind [children]

theorem Member.sizeOf_children {m : Member} {k : Node} (hk : k ∈ m.children) :
    sizeOf k < sizeOf (Node.member m) := by
  cases m with
  | _ => grind [children]

namespace Node

theorem sizeOf_children {n k : Node} (hk : k ∈ n.children) : sizeOf k < sizeOf n := by
  cases n with
  | expression e => exact e.sizeOf_children hk
  | modifier m => exact m.sizeOf_children hk
  | statement s => exact s.sizeOf_children hk
  | member m => exact m.sizeOf_children hk
  | typeTree t =>
    obtain ⟨lead, kind, arguments, dimensions, type⟩ := t
    cases kind <;> grind [children, TypeTree.bound?]
  | method m =>
    obtain ⟨lead, modifiers, returnType, name, parameters, throws, ending⟩ := m
    cases ending <;> grind [children, MethodEnding.block?]
  | typeList l => cases l; grind [children]
  | initializer i => cases i; grind [children]
  | wildcardBound b => cases b; grind [children]
  | namedVariable v => cases v; grind [children]
  | declarations d => cases d; grind [children]
  | classBody b => cases b; grind [children]
  | classDeclaration c => cases c; grind [children]
  | block b => cases b; grind [children]
  | ret r => cases r; grind [children]
  | condition c => cases c; grind [children]
  | unit u => cases u; grind [children]
  | _ => grind [children]

/-! ## Literals -/

/-- The text of a literal, which is a node of its own. -/
def literal? : Node → Option String
  | literal l => some l.source
  | _ => none

/-- The texts of the literals in the node, in the order in which they are printed. -/
def literals (n : Node) : List String :=
  n.literal?.toList ++ n.children.attach.flatMap fun k => k.1.literals
termination_by n
decreasing_by exact sizeOf_children k.2

theorem literals_eq (n : Node) :
    n.literals = n.literal?.toList ++ n.children.flatMap literals := by
  rw [literals]
  simp [List.flatMap_subtype]

@[simp] theorem literals_literal (l : Literal) : (literal l).literals = [l.source] := by
  rw [literals_eq]
  rfl

@[simp] theorem literals_identifier (i : Identifier) : (identifier i).literals = [] := by
  rw [literals_eq]
  rfl

theorem literals_expression (e : Expression) :
    (expression e).literals = e.children.flatMap literals := by
  rw [literals_eq]
  rfl

/-- The lead of an expression is no part of its literals. -/
theorem literals_bare (e : Expression) :
    (expression e.bare).literals = (expression e).literals := by
  rw [literals_expression, literals_expression]
  cases e with
  | literal l => simp [Expression.bare, Expression.withLead, Expression.children, Literal.withLead]
  | identifier i => simp [Expression.bare, Expression.withLead, Expression.children]
  | _ => rfl

end Node

end LosslessJava
