import LosslessJava.Proofs.Tree.Occurrence

/-!
# Names in a tree

The qualified names and identifiers that a tree holds, in its nodes and in the types of its nodes.

* `Node.names`: the qualified names that a node stores itself.
* `Node.WellNamed`: these names are legal, and so is the name of an identifier.
* `Node.named_expression`, `Node.named_statement`: what is made of such nodes is such a node.
-/

namespace LosslessJava

/-! ## Legal names -/

/-- Every segment is an identifier. -/
def QualifiedName.Legal (n : QualifiedName) : Prop := ∀ w ∈ n.segments, isIdentifier w = true

theorem not_reserved_of_isIdentifier {w : String} (h : isIdentifier w = true) :
    w ∉ reservedWords := by
  unfold isIdentifier at h
  split at h
  · cases h
  · simp only [Bool.and_eq_true, Bool.not_eq_true', List.contains_eq_mem,
      decide_eq_false_iff_not] at h
    exact h.2

namespace QualifiedName

variable {n : QualifiedName} {w : String}

theorem legal_single (h : isIdentifier w = true) : (single w).Legal := by
  simpa [Legal, single] using h

theorem Legal.push (hn : n.Legal) (h : isIdentifier w = true) : (n.push w).Legal := by
  intro v hv
  rcases List.mem_append.mp hv with hv | hv
  · exact hn v hv
  · rw [List.mem_singleton.mp hv]
    exact h

theorem Legal.take {m : QualifiedName} {length : Nat} (hn : n.Legal) (h : n.take? length = some m) :
    m.Legal := by
  unfold take? at h
  split at h
  · cases h
    exact fun w hw => hn w (List.mem_of_mem_take hw)
  · cases h

end QualifiedName

/-! ## Names in types -/

namespace JavaType

mutual

/-- The names of the classes in the type. -/
def names : JavaType → List QualifiedName
  | primitive _ => []
  | ofClass c => [c.name]
  | array t => t.names
  | parameterized c arguments => c.name :: namesOfList arguments

def namesOfList : List JavaType → List QualifiedName
  | [] => []
  | t :: ts => t.names ++ namesOfList ts

end

/-- The names in a type that may be missing. -/
def namesOf : Option JavaType → List QualifiedName
  | none => []
  | some t => t.names

@[simp] theorem namesOf_none : namesOf none = [] := rfl

@[simp] theorem namesOf_some (t : JavaType) : namesOf (some t) = t.names := rfl

@[simp] theorem names_arrayOf (t : JavaType) (length : Nat) :
    (t.arrayOf length).names = t.names := by
  induction length with
  | zero => rfl
  | succ length ih => rw [arrayOf, names, ih]

@[simp] theorem namesOf_map_arrayOf (t : Option JavaType) (length : Nat) :
    namesOf (t.map (·.arrayOf length)) = namesOf t := by
  cases t with
  | none => rfl
  | some t => exact names_arrayOf t length

end JavaType

/-! ## Names in nodes -/

namespace Expression

/-- The type that an expression stores itself. -/
def ownType : Expression → Option JavaType
  | fieldAccess _ _ _ _ type => type
  | call _ _ _ type => type
  | invocation _ _ _ _ _ type => type
  | self _ type => type
  | _ => none

end Expression

namespace Modifier

/-- The name of an annotation, and the names in its type. -/
def names : Modifier → List QualifiedName
  | keyword _ _ => []
  | annotated _ _ name _ type => name :: JavaType.namesOf type

end Modifier

namespace Node

/-- The qualified names that a node stores itself, in its text and in its types. -/
def names : Node → List QualifiedName
  | typeTree t => t.name?.toList ++ JavaType.namesOf t.type
  | identifier i => JavaType.namesOf i.type
  | expression e => JavaType.namesOf e.ownType
  | modifier m => m.names
  | namedVariable v => JavaType.namesOf v.type
  | classDeclaration c => (c.type.map ClassType.name).toList
  | package d => [d.name]
  | importDeclaration i => [i.name]
  | _ => []

@[simp] theorem names_typeTree (t : TypeTree) :
    (typeTree t).names = t.name?.toList ++ JavaType.namesOf t.type := rfl

@[simp] theorem names_identifier (i : Identifier) :
    (identifier i).names = JavaType.namesOf i.type := rfl

@[simp] theorem names_expression (e : Expression) :
    (expression e).names = JavaType.namesOf e.ownType := rfl

@[simp] theorem names_namedVariable (v : NamedVariable) :
    (namedVariable v).names = JavaType.namesOf v.type := rfl

@[simp] theorem names_classDeclaration (c : ClassDeclaration) :
    (classDeclaration c).names = (c.type.map ClassType.name).toList := rfl

@[simp] theorem names_package (d : PackageDeclaration) : (package d).names = [d.name] := rfl

@[simp] theorem names_importDeclaration (i : Import) : (importDeclaration i).names = [i.name] := rfl

/-- The names that the node stores are legal. -/
structure WellNamed (n : Node) : Prop where
  legal : ∀ q ∈ n.names, q.Legal
  isIdentifier : ∀ i, n = .identifier i → isIdentifier i.name = true

/-- All names at and below the node are legal. -/
abbrev Named (n : Node) : Prop := n.All WellNamed

/-! ## Nodes made of nodes -/

theorem named_of {n : Node} (hn : ∀ i, n ≠ .identifier i) (hnames : ∀ q ∈ n.names, q.Legal)
    (h : ∀ k ∈ n.children, k.Named) : n.Named :=
  all_iff.mpr ⟨⟨hnames, fun i hi => absurd hi (hn i)⟩, h⟩

/-- A node that stores no name itself. -/
theorem named_plain {n : Node} (hn : ∀ i, n ≠ .identifier i) (hnames : n.names = [])
    (h : ∀ k ∈ n.children, k.Named) : n.Named :=
  named_of hn (by simp [hnames]) h

theorem named_identifier {i : Identifier} (h : isIdentifier i.name = true) (ht : i.type = none) :
    (identifier i).Named := by
  refine all_iff.mpr ⟨⟨?_, fun j hj => ?_⟩, by simp [children]⟩
  · simp [ht]
  · cases hj
    exact h

/-- The trivia in front of a name are no part of it. -/
theorem named_withLead {i : Identifier} (h : (identifier i).Named) (t : Trivia) :
    (identifier (i.withLead t)).Named := by
  refine all_iff.mpr ⟨⟨h.self.legal, fun j hj => ?_⟩, by simp [children]⟩
  cases hj
  exact h.self.isIdentifier i rfl

@[simp] theorem named_dimension (d : Dimension) : (dimension d).Named :=
  named_plain (by simp) rfl (by simp [children])

@[simp] theorem named_literal (l : Literal) : (literal l).Named :=
  named_plain (by simp) rfl (by simp [children])

theorem named_expression {e : Expression} (ht : e.ownType = none)
    (h : ∀ k ∈ e.children, k.Named) : (expression e).Named :=
  named_of (by simp) (by simp [ht]) h

theorem named_statement {s : Statement} (h : ∀ k ∈ s.children, k.Named) : (statement s).Named :=
  named_plain (by simp) rfl h

theorem named_member {m : Member} (h : ∀ k ∈ m.children, k.Named) : (member m).Named :=
  named_plain (by simp) rfl h

/-- The trivia in front of an expression are no part of its names. -/
theorem named_bare {e : Expression} (h : (expression e).Named) : (expression e.bare).Named := by
  have hchildren := (all_iff.mp h).2
  cases e with
  | literal l =>
    exact named_expression rfl (by simp [Expression.bare, Expression.withLead, Expression.children])
  | identifier i =>
    have hi := named_withLead (hchildren _ (List.mem_singleton_self _)) .empty
    refine named_expression rfl ?_
    simpa [Expression.bare, Expression.withLead, Expression.children] using hi
  | _ => exact named_of (by simp) h.self.legal hchildren

end Node

end LosslessJava
