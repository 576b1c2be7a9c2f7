import LosslessJava.Proofs.Resolve.Attribution
import LosslessJava.Proofs.Resolve.Surroundings
import LosslessJava.Proofs.Tree.Path

/-!
# Places in attributed trees

A path leads to the same place in a tree without types and in the attributed one. What attribution
does there depends on the scope, which takes up the classes whose bodies the path enters.

* `Scope.along`: the scope at the end of a path.
* `Node.at?_attributed`: what stands at a path in an attributed tree.
* `Node.enclosing`: the classes around a place, as the attributed tree records them.
* `Scope.along_eq`: the scope at a place has these classes, and is otherwise the one at the start.
-/

namespace LosslessJava

open Surroundings

/-- The scope in which attribution gets to the node at the path. -/
def Scope.along (s : Scope) (n : Node) : List Nat → Scope
  | [] => s
  | i :: path =>
    match n.children[i]? with
    | some k => (scopeBelow s n k).along k path
    | none => s

namespace Node

/-- The classes entered on the way from a node to a child. -/
def entered : Node → Node → List ClassType
  | classDeclaration c, classBody _ => c.type.toList
  | _, _ => []

/-- The classes around the node at the path, innermost first, by the types that are recorded where
they are declared. -/
def enclosing (n : Node) : List Nat → List ClassType
  | [] => []
  | i :: path =>
    match n.children[i]? with
    | some k => k.enclosing path ++ n.entered k
    | none => []

variable {n m : Node} {path : List Nat} {p : Surroundings}

/-- At each place of an attributed tree stands the node from before, attributed in the scope of that
place. -/
theorem at?_attributed (p : Surroundings) (n : Node) (path : List Nat) :
    (n.attributed p).at? path = none ∧ n.at? path = none ∨
      ∃ m₀ given, n.at? path = some m₀ ∧
        (n.attributed p).at? path = some (m₀.attributed ⟨p.scope.along n path, given⟩) := by
  induction path generalizing p n with
  | nil => exact .inr ⟨n, p.given, rfl, rfl⟩
  | cons i path ih =>
    rw [at?, at?, children_attributed, List.getElem?_map, Scope.along]
    cases n.children[i]? with
    | none => exact .inl ⟨rfl, rfl⟩
    | some k => exact ih (p.below n k) k

/-- Without its types an attributed node is the node from before. -/
theorem untyped_attributed (p : Surroundings) (n : Node) :
    (n.attributed p).untyped = n.untyped := by
  cases n <;>
    simp [attributed, untyped, Identifier.untyped, TypeTree.untyped_attributed,
      TypeList.untyped_attributed, Expression.untyped_attributed, Modifier.untyped_attributed,
      NamedVariable.untyped_attributed, VariableDeclarations.untyped_attributed,
      ClassBody.untyped_attributed, ClassDeclaration.untyped_attributed, Member.untyped_attributed,
      MethodDeclaration.untyped_attributed, Block.untyped_attributed, Return.untyped_attributed,
      Condition.untyped_attributed, Statement.untyped_attributed,
      CompilationUnit.untyped_attributed]

/-- A step down enters a class when it gets to the body of one. -/
theorem scopeBelow_eq (hn : ∀ u, n ≠ unit u) (p q : Surroundings) (k : Node) :
    scopeBelow p.scope n k = { p.scope with
      enclosing := (n.attributed p).entered (k.attributed q) ++ p.scope.enclosing } := by
  cases n with
  | unit u => exact absurd rfl (hn u)
  | classDeclaration c =>
    cases k with
    | classBody b => simp [scopeBelow, attributed, entered, Scope.enter]
    | _ => rfl
  | _ => rfl

theorem scopeBelow_imports (hn : ∀ u, n ≠ unit u) (s : Scope) (imports : List Import) (k : Node) :
    scopeBelow { s with imports } n k = { scopeBelow s n k with imports } := by
  cases n with
  | unit u => exact absurd rfl (hn u)
  | classDeclaration c => cases k <;> rfl
  | _ => rfl

end Node

namespace Scope

variable {n : Node}

/-- The scope at a place has the classes around it, and is otherwise the one at the start. -/
theorem along_eq (hn : ∀ u, n ≠ .unit u) (p : Surroundings) (path : List Nat) :
    p.scope.along n path = { p.scope with
      enclosing := (n.attributed p).enclosing path ++ p.scope.enclosing } := by
  induction path generalizing p n with
  | nil => rfl
  | cons i path ih =>
    rw [along, Node.enclosing, Node.children_attributed, List.getElem?_map]
    cases hk : n.children[i]? with
    | none => rfl
    | some k =>
      have hstep : (scopeBelow p.scope n k).along k path = { scopeBelow p.scope n k with
          enclosing := (k.attributed (p.below n k)).enclosing path ++
            (scopeBelow p.scope n k).enclosing } :=
        ih (Node.ne_unit_of_mem_children (List.mem_of_getElem? hk)) (p.below n k)
      have hbelow := Node.scopeBelow_eq hn p (p.below n k) k
      simp only [Option.map_some]
      generalize k.attributed (p.below n k) = k' at hstep hbelow ⊢
      rw [hstep, hbelow, List.append_assoc]

/-- Other imports are not noticed on the way. -/
theorem along_imports (hn : ∀ u, n ≠ .unit u) (s : Scope) (imports : List Import)
    (path : List Nat) :
    Scope.along { s with imports } n path = { s.along n path with imports } := by
  induction path generalizing s n with
  | nil => rfl
  | cons i path ih =>
    rw [along, along]
    cases hk : n.children[i]? with
    | none => rfl
    | some k =>
      have hstep := ih (Node.ne_unit_of_mem_children (List.mem_of_getElem? hk)) (scopeBelow s n k)
      rw [← Node.scopeBelow_imports hn] at hstep
      exact hstep

end Scope

/-! ## Places in units -/

namespace CompilationUnit

/-- The node at a path in one of the classes of the unit. -/
def at? (u : CompilationUnit) (i : Nat) (path : List Nat) : Option Node :=
  u.classes[i]?.bind fun d => (Node.classDeclaration d).at? path

/-- The classes around the node at a path in one of the classes of an attributed unit. -/
def enclosing (u : CompilationUnit) (i : Nat) (path : List Nat) : List ClassType :=
  match u.classes[i]? with
  | some d => (Node.classDeclaration d).enclosing path
  | none => []

/-- The scope at a place in an attributed unit. -/
def scopeAt (u : CompilationUnit) (index : TypeIndex) (implicitLanguage : Bool) (i : Nat)
    (path : List Nat) : Scope :=
  { Scope.ofUnit index implicitLanguage u with
    enclosing := (u.attributed index implicitLanguage).enclosing i path }

variable {u : CompilationUnit} {index : TypeIndex} {implicitLanguage : Bool} {i : Nat}
  {path : List Nat} {m : Node}

theorem getElem?_classes_attributed (u : CompilationUnit) (index : TypeIndex)
    (implicitLanguage : Bool) (i : Nat) :
    (u.attributed index implicitLanguage).classes[i]? =
      u.classes[i]?.map (·.attributed (.ofUnit index implicitLanguage u)) :=
  List.getElem?_map

theorem at?_attributed (u : CompilationUnit) (index : TypeIndex) (implicitLanguage : Bool) (i : Nat)
    (path : List Nat) : (u.attributed index implicitLanguage).at? i path =
      u.classes[i]?.bind fun d => ((Node.classDeclaration d).attributed
        ⟨.ofUnit index implicitLanguage u, none⟩).at? path := by
  rw [at?, getElem?_classes_attributed]
  cases u.classes[i]? <;> rfl

/-- The scope at a place is the one at the end of its path. -/
theorem scopeAt_eq {d : ClassDeclaration} (hd : u.classes[i]? = some d) :
    u.scopeAt index implicitLanguage i path =
      (Scope.ofUnit index implicitLanguage u).along (.classDeclaration d) path := by
  have hclasses : (u.attributed index implicitLanguage).classes[i]? =
      some (d.attributed (.ofUnit index implicitLanguage u)) := by
    rw [getElem?_classes_attributed, hd, Option.map_some]
  have halong := Scope.along_eq (n := .classDeclaration d) (by simp)
    ⟨.ofUnit index implicitLanguage u, none⟩ path
  rw [halong, scopeAt, enclosing, hclasses]
  exact congrArg (fun cs => { Scope.ofUnit index implicitLanguage u with enclosing := cs })
    (List.append_nil _).symm

/-- At each place of an attributed unit stands a node from before, attributed in the scope of the
place. With other imports it is attributed in the scope with these imports. -/
theorem exists_of_at?_attributed (h : (u.attributed index implicitLanguage).at? i path = some m) :
    ∃ m₀ : Node,
      (∃ given, m = m₀.attributed ⟨u.scopeAt index implicitLanguage i path, given⟩) ∧
      ∀ imports, ∃ given, ({ u with imports }.attributed index implicitLanguage).at? i path =
        some (m₀.attributed ⟨{ u.scopeAt index implicitLanguage i path with imports }, given⟩) := by
  rw [at?_attributed] at h
  obtain ⟨d, hd, hm⟩ := Option.bind_eq_some_iff.mp h
  rw [scopeAt_eq hd]
  rcases Node.at?_attributed ⟨.ofUnit index implicitLanguage u, none⟩ (.classDeclaration d) path
    with ⟨hnone, -⟩ | ⟨m₀, given, hm₀, heq⟩
  · rw [hm] at hnone
    cases hnone
  refine ⟨m₀, ⟨given, Option.some.inj (hm.symm.trans heq)⟩, fun imports => ?_⟩
  rcases Node.at?_attributed ⟨.ofUnit index implicitLanguage { u with imports }, none⟩
    (.classDeclaration d) path with ⟨-, hnone⟩ | ⟨m₁, given, hm₁, heq⟩
  · rw [hm₀] at hnone
    cases hnone
  obtain rfl : m₀ = m₁ := Option.some.inj (hm₀.symm.trans hm₁)
  refine ⟨given, ?_⟩
  rw [at?_attributed, show ({ u with imports } : CompilationUnit).classes[i]? = some d from hd,
    Option.bind_some, heq, ← Scope.along_imports (by simp)]
  rfl

end CompilationUnit

end LosslessJava
