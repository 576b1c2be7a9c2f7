import LosslessJava.Proofs.Tree.Occurrence
import LosslessJava.Resolve.Attribution

/-!
# What attribution does at each node

Attribution walks down a tree and carries the scope with it. A name and a variable do not know their
types themselves; the node above them hands these down.

* `Surroundings`: what attribution carries. `Surroundings.below` is the step from a node to a child.
* `Node.children_attributed`: attribution does to each child what its surroundings say.
* `Node.within_attributed_iff`: so the nodes of an attributed tree are those of the tree before it,
  attributed in the surroundings in which the walk gets to them.
* `Node.Visits.preserves`: what each step preserves holds wherever the walk gets to.
-/

namespace LosslessJava

/-! ## Lists -/

theorem TypeTree.attributedList_eq_map (s : Scope) (ts : List (Padded TypeTree)) :
    TypeTree.attributedList s ts = ts.map fun p => ⟨p.element.attributed s, p.after⟩ := by
  induction ts with
  | nil => rfl
  | cons t ts ih => rw [TypeTree.attributedList, ih, List.map_cons]

theorem Expression.attributedList_eq_map (s : Scope) (es : List (Padded Expression)) :
    Expression.attributedList s es = es.map fun p => ⟨p.element.attributed s, p.after⟩ := by
  induction es with
  | nil => rfl
  | cons e es ih => rw [Expression.attributedList, ih, List.map_cons]

theorem Modifier.attributedList_eq_map (s : Scope) (ms : List Modifier) :
    Modifier.attributedList s ms = ms.map (Modifier.attributed s) := by
  induction ms with
  | nil => rfl
  | cons m ms ih => rw [Modifier.attributedList, ih, List.map_cons]

theorem NamedVariable.attributedList_eq_map (s : Scope) (declared : Option JavaType)
    (vs : List (Padded NamedVariable)) :
    NamedVariable.attributedList s declared vs =
      vs.map fun p => ⟨p.element.attributed s declared, p.after⟩ := by
  induction vs with
  | nil => rfl
  | cons v vs ih => rw [NamedVariable.attributedList, ih, List.map_cons]

theorem VariableDeclarations.attributedList_eq_map (s : Scope)
    (ds : List (Padded VariableDeclarations)) :
    VariableDeclarations.attributedList s ds =
      ds.map fun p => ⟨p.element.attributed s, p.after⟩ := by
  induction ds with
  | nil => rfl
  | cons d ds ih => rw [VariableDeclarations.attributedList, ih, List.map_cons]

theorem Member.attributedList_eq_map (s : Scope) (ms : List Member) :
    Member.attributedList s ms = ms.map (Member.attributed s) := by
  induction ms with
  | nil => rfl
  | cons m ms ih => rw [Member.attributedList, ih, List.map_cons]

theorem Statement.attributedList_eq_map (s : Scope) (ts : List Statement) :
    Statement.attributedList s ts = ts.map (Statement.attributed s) := by
  induction ts with
  | nil => rfl
  | cons t ts ih => rw [Statement.attributedList, ih, List.map_cons]

/-! ## Parts of declarations -/

namespace ClassDeclaration

variable (s : Scope) (d : ClassDeclaration)

@[simp] theorem type_attributed : (d.attributed s).type = some (s.declare d.name.name) := by
  cases d
  rfl

@[simp] theorem name_attributed :
    (d.attributed s).name = { d.name with type := some (.ofClass (s.declare d.name.name)) } := by
  cases d
  rfl

@[simp] theorem body_attributed :
    (d.attributed s).body = d.body.attributed (s.enter (s.declare d.name.name)) := by
  cases d
  rfl

end ClassDeclaration

@[simp] theorem ClassBody.members_attributed (s : Scope) (b : ClassBody) :
    (b.attributed s).members = b.members.map (Member.attributed s) := by
  cases b
  exact Member.attributedList_eq_map s _

/-- The member classes of an attributed body are those of the body before. -/
theorem ClassBody.exists_nested_of_attributed {s : Scope} {b : ClassBody} {e : ClassDeclaration}
    (h : .nested e ∈ (b.attributed s).members) :
    ∃ e₀, .nested e₀ ∈ b.members ∧ e = e₀.attributed s := by
  rw [members_attributed] at h
  obtain ⟨m, hm, heq⟩ := List.mem_map.mp h
  cases m with
  | nested e₀ =>
    cases heq
    exact ⟨e₀, hm, rfl⟩
  | field _ => cases heq
  | method _ => cases heq
  | empty _ => cases heq

/-! ## Surroundings -/

/-- What attribution knows when it gets to a node. -/
structure Surroundings where
  scope : Scope
  /-- The type handed down to a name, or to a variable as the type of its declaration. -/
  given : Option JavaType

namespace Surroundings

/-- The scope for a child of a node. -/
def scopeBelow (s : Scope) : Node → Node → Scope
  | .unit u, _ => .ofUnit s.index s.implicitLanguage u
  | .classDeclaration c, .classBody _ => s.enter (s.declare c.name.name)
  | _, _ => s

/-- The type handed down to a child. Names that are not looked up keep what they have. -/
def givenBelow (s : Scope) : Node → Node → Option JavaType
  | .expression (.identifier _), .identifier i => s.classReference (some (.single i.name))
  | .classDeclaration c, .identifier _ => some (.ofClass (s.declare c.name.name))
  | .declarations d, .namedVariable _ => (d.type.attributed s).type
  | _, .identifier i => i.type
  | _, _ => none

/-- The surroundings of a child. -/
def below (p : Surroundings) (n k : Node) : Surroundings :=
  ⟨scopeBelow p.scope n k, givenBelow p.scope n k⟩

end Surroundings

namespace Node

/-- The node as attribution leaves it. -/
def attributed (p : Surroundings) : Node → Node
  | dimension d => dimension d
  | typeTree t => typeTree (t.attributed p.scope)
  | wildcardBound b => wildcardBound { b with bound := b.bound.attributed p.scope }
  | typeList l => typeList (l.attributed p.scope)
  | literal l => literal l
  | identifier i => identifier { i with type := p.given }
  | expression e => expression (e.attributed p.scope)
  | modifier m => modifier (m.attributed p.scope)
  | initializer i => initializer { i with value := i.value.attributed p.scope }
  | namedVariable v => namedVariable (v.attributed p.scope p.given)
  | declarations d => declarations (d.attributed p.scope)
  | classBody b => classBody (b.attributed p.scope)
  | classDeclaration c => classDeclaration (c.attributed p.scope)
  | member m => member (m.attributed p.scope)
  | method m => method (m.attributed p.scope)
  | block b => block (b.attributed p.scope)
  | ret r => ret (r.attributed p.scope)
  | condition c => condition (c.attributed p.scope)
  | statement t => statement (t.attributed p.scope)
  | package d => package d
  | importDeclaration i => importDeclaration i
  | unit u => unit (u.attributed p.scope.index p.scope.implicitLanguage)

end Node

/-! ## The step to a child -/

open Surroundings in
theorem Expression.children_attributed (p : Surroundings) (e : Expression) :
    (e.attributed p.scope).children =
      e.children.map fun k => k.attributed (p.below (.expression e) k) := by
  cases e with
  | call lead name arguments type =>
    simp [attributed, children, Delimited.toList, attributedList_eq_map, Node.attributed,
      Function.comp_def, below, scopeBelow, givenBelow]
  | invocation lead target dotLead name arguments type =>
    simp [attributed, children, Delimited.toList, attributedList_eq_map, Node.attributed,
      Function.comp_def, below, scopeBelow, givenBelow]
  | newClass lead type arguments body =>
    cases body <;>
      simp [attributed, children, Delimited.toList, attributedList_eq_map, Node.attributed,
        Function.comp_def, below, scopeBelow]
  | _ => rfl

open Surroundings in
theorem Modifier.children_attributed (p : Surroundings) (m : Modifier) :
    (m.attributed p.scope).children =
      m.children.map fun k => k.attributed (p.below (.modifier m) k) := by
  cases m with
  | keyword lead kind => rfl
  | annotated lead nameLead name arguments type =>
    cases arguments with
    | none => rfl
    | some a =>
      simp [attributed, children, Delimited.optionalList, Delimited.toList,
        Expression.attributedList_eq_map, Node.attributed, Function.comp_def, below, scopeBelow]

namespace Node

/-- Units are not nested. -/
theorem ne_unit_of_mem_children {n k : Node} (hk : k ∈ n.children) (u : CompilationUnit) :
    k ≠ .unit u := by
  rintro rfl
  cases n with
  | expression e => cases e <;> simp [children, Expression.children] at hk
  | modifier m => cases m <;> simp [children, Modifier.children] at hk
  | member m => cases m <;> simp [children, Member.children] at hk
  | statement s => cases s <;> simp [children, Statement.children] at hk
  | _ => simp [children] at hk

open Surroundings in
/-- Attribution does to each child what it does in the surroundings of that child. -/
theorem children_attributed (p : Surroundings) (n : Node) :
    (n.attributed p).children = n.children.map fun k => k.attributed (p.below n k) := by
  cases n with
  | typeTree t =>
    obtain ⟨lead, kind, arguments, dimensions, type⟩ := t
    rcases kind with p | name | (_ | ⟨_, _, _⟩) <;> cases arguments <;>
      simp [attributed, TypeTree.attributed, TypeTreeKind.attributed,
        TypeTree.attributedArguments, children, TypeTree.bound?, Delimited.optionalList,
        Delimited.toList, TypeTree.attributedList_eq_map, Function.comp_def, below, scopeBelow]
  | typeList l =>
    simp [attributed, TypeList.attributed, children, TypeTree.attributedList_eq_map,
      Function.comp_def, below, scopeBelow]
  | expression e => exact e.children_attributed p
  | modifier m => exact m.children_attributed p
  | namedVariable v =>
    obtain ⟨lead, name, dimensions, initializer, type⟩ := v
    rcases initializer with _ | ⟨_, _⟩ <;>
      simp [attributed, NamedVariable.attributed, children, Function.comp_def, below, scopeBelow,
        givenBelow]
  | declarations d =>
    cases d
    simp [attributed, VariableDeclarations.attributed, children, Modifier.attributedList_eq_map,
      NamedVariable.attributedList_eq_map, Function.comp_def, below, scopeBelow, givenBelow]
  | classBody b =>
    cases b
    simp [attributed, ClassBody.attributed, children, Member.attributedList_eq_map,
      Function.comp_def, below, scopeBelow]
  | classDeclaration c =>
    obtain ⟨lead, modifiers, kindLead, kind, name, superclasses, interfaces, body, type⟩ := c
    cases superclasses <;> cases interfaces <;>
      simp [attributed, ClassDeclaration.attributed, children, Modifier.attributedList_eq_map,
        Function.comp_def, below, scopeBelow, givenBelow]
  | member m => cases m <;> rfl
  | method m =>
    obtain ⟨lead, modifiers, returnType, name, parameters, throws, ending⟩ := m
    cases returnType <;> cases throws <;> cases ending <;>
      simp [attributed, MethodDeclaration.attributed, MethodEnding.attributed, children,
        Modifier.attributedList_eq_map, VariableDeclarations.attributedList_eq_map,
        Delimited.toList, MethodEnding.block?, Function.comp_def, below, scopeBelow, givenBelow]
  | block b =>
    cases b
    simp [attributed, Block.attributed, children, Statement.attributedList_eq_map,
      Function.comp_def, below, scopeBelow]
  | ret r =>
    obtain ⟨lead, value, terminator⟩ := r
    cases value <;> rfl
  | condition c => cases c; rfl
  | statement s => cases s <;> rfl
  | unit u =>
    obtain ⟨path, package, imports, classes, tail⟩ := u
    cases package <;>
      simp [attributed, CompilationUnit.attributed, children, Function.comp_def, below, scopeBelow]
  | _ => rfl

/-! ## The walk -/

/-- Attribution of the first node, in the first surroundings, gets to the second node in the second
surroundings. -/
inductive Visits : Surroundings → Node → Surroundings → Node → Prop
  | refl (p : Surroundings) (n : Node) : Visits p n p n
  | child {p q : Surroundings} {n k m : Node} (hk : k ∈ n.children)
    (h : Visits (p.below n k) k q m) : Visits p n q m

theorem Visits.within_attributed {p q : Surroundings} {n m : Node} (h : Visits p n q m) :
    Within (m.attributed q) (n.attributed p) := by
  induction h with
  | refl => exact .refl _
  | child hk _ ih =>
    refine .child ?_ ih
    rw [children_attributed]
    exact List.mem_map_of_mem hk

/-- An attributed tree has what attribution gets to, and nothing else. -/
theorem within_attributed_iff {p : Surroundings} {n m : Node} :
    Within m (n.attributed p) ↔ ∃ q m₀, Visits p n q m₀ ∧ m = m₀.attributed q := by
  constructor
  · intro h
    generalize ha : n.attributed p = a at h
    induction h generalizing n p with
    | refl => exact ⟨p, n, .refl p n, ha.symm⟩
    | child hk _ ih =>
      subst ha
      rw [children_attributed] at hk
      obtain ⟨k₀, hk₀, rfl⟩ := List.mem_map.mp hk
      obtain ⟨q, m₀, hvisits, rfl⟩ := ih rfl
      exact ⟨q, m₀, .child hk₀ hvisits, rfl⟩
  · rintro ⟨q, m₀, hvisits, rfl⟩
    exact hvisits.within_attributed

/-- What each step down preserves holds wherever attribution gets to. -/
theorem Visits.preserves {I : Surroundings → Node → Prop}
    (hstep : ∀ p n, I p n → ∀ k ∈ n.children, I (p.below n k) k) {p q : Surroundings}
    {n m : Node} (h : Visits p n q m) (hn : I p n) : I q m := by
  induction h with
  | refl => exact hn
  | child hk _ ih => exact ih (hstep _ _ hn _ hk)

end Node

end LosslessJava
