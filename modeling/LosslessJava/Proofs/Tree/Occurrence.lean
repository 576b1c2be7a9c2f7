import LosslessJava.Print.Tree
import LosslessJava.Tree.Lead

/-!
# Nodes that occur in a tree

Nodes of all kinds as one type, so that a statement about "every node at any depth" is one
statement.

* `Node.children`, `Node.trivia`: the nodes right below a node, and the trivia that it stores
  itself. Every trivia of a tree is stored by exactly one of its nodes; a list of nodes has no
  trivia of its own, so the trivia in front of its commas belongs to the node that holds the list.
* `Node.Within`: a node occurs in another, at any depth.
* `Node.All`: a property holds of a node and of everything in it. `Node.all_iff` unfolds it by one
  level.
-/

namespace LosslessJava

/-- A node of any kind. -/
inductive Node where
  | dimension (d : Dimension)
  | typeTree (t : TypeTree)
  | wildcardBound (b : WildcardBound)
  | typeList (l : TypeList)
  | literal (l : Literal)
  | identifier (i : Identifier)
  | expression (e : Expression)
  | modifier (m : Modifier)
  | initializer (i : Initializer)
  | namedVariable (v : NamedVariable)
  | declarations (d : VariableDeclarations)
  | classBody (b : ClassBody)
  | classDeclaration (c : ClassDeclaration)
  | member (m : Member)
  | method (m : MethodDeclaration)
  | block (b : Block)
  | ret (r : Return)
  | condition (c : Condition)
  | statement (s : Statement)
  | package (d : PackageDeclaration)
  | importDeclaration (i : Import)
  | unit (u : CompilationUnit)

namespace Padded

variable {α β : Type}

/-- The trivia in front of the commas of a list. -/
def commas (ps : List (Padded α)) : List Trivia := ps.map Padded.after

@[simp] theorem commas_nil : commas ([] : List (Padded α)) = [] := rfl

@[simp] theorem commas_cons (p : Padded α) (ps : List (Padded α)) :
    commas (p :: ps) = p.after :: commas ps := rfl

end Padded

namespace Delimited

variable {α : Type}

/-- The trivia of the delimiters and commas of a list. -/
def trivia (d : Delimited α) : List Trivia := d.before :: d.close :: Padded.commas d.elements

/-- The same of a list that may be missing. -/
def optionalTrivia : Option (Delimited α) → List Trivia
  | none => []
  | some d => d.trivia

/-- The elements of a list that may be missing. -/
def optionalList : Option (Delimited α) → List α
  | none => []
  | some d => d.toList

end Delimited

namespace TypeTree

/-- The bound of a wildcard. -/
def bound? (t : TypeTree) : Option WildcardBound :=
  match t.kind with
  | .wildcard bound => bound
  | _ => none

end TypeTree

namespace MethodEnding

def trivia : MethodEnding → List Trivia
  | body _ => []
  | terminator t => [t]

def block? : MethodEnding → Option Block
  | body b => some b
  | terminator _ => none

end MethodEnding

namespace Expression

/-- The nodes right below an expression. -/
def children : Expression → List Node
  | literal l => [.literal l]
  | identifier i => [.identifier i]
  | fieldAccess _ target _ name _ => [.expression target, .identifier name]
  | call _ name arguments _ => .identifier name :: arguments.toList.map .expression
  | invocation _ target _ name arguments _ =>
    .expression target :: .identifier name :: arguments.toList.map .expression
  | newClass _ type arguments body =>
    .typeTree type :: arguments.toList.map .expression ++ (body.map Node.classBody).toList
  | binary _ left _ _ right => [.expression left, .expression right]
  | prefixed _ _ operand => [.expression operand]
  | postfixed _ operand _ _ => [.expression operand]
  | assignment _ target _ _ value => [.expression target, .expression value]
  | conditional _ condition _ thenPart _ elsePart =>
    [.expression condition, .expression thenPart, .expression elsePart]
  | parentheses _ inner _ => [.expression inner]
  | self .. => []

/-- The trivia that an expression stores itself. -/
def trivia : Expression → List Trivia
  | literal _ => []
  | identifier _ => []
  | fieldAccess lead _ dotLead _ _ => [lead, dotLead]
  | call lead _ arguments _ => lead :: arguments.trivia
  | invocation lead _ dotLead _ arguments _ => lead :: dotLead :: arguments.trivia
  | newClass lead _ arguments _ => lead :: arguments.trivia
  | binary lead _ operatorLead _ _ => [lead, operatorLead]
  | prefixed lead _ _ => [lead]
  | postfixed lead _ operatorLead _ => [lead, operatorLead]
  | assignment lead _ operatorLead _ _ => [lead, operatorLead]
  | conditional lead _ questionLead _ colonLead _ => [lead, questionLead, colonLead]
  | parentheses lead _ close => [lead, close]
  | self lead _ => [lead]

end Expression

namespace Statement

def children : Statement → List Node
  | block b => [.block b]
  | ret r => [.ret r]
  | throwing _ exception _ => [.expression exception]
  | branch _ condition thenPart => [.condition condition, .statement thenPart]
  | fork _ condition thenPart _ elsePart =>
    [.condition condition, .statement thenPart, .statement elsePart]
  | loop _ condition body => [.condition condition, .statement body]
  | empty _ => []
  | declaration d => [.declarations d]
  | expression _ e _ => [.expression e]

def trivia : Statement → List Trivia
  | block _ => []
  | ret _ => []
  | throwing lead _ terminator => [lead, terminator]
  | branch lead _ _ => [lead]
  | fork lead _ _ elseLead _ => [lead, elseLead]
  | loop lead _ _ => [lead]
  | empty lead => [lead]
  | declaration _ => []
  | expression lead _ terminator => [lead, terminator]

end Statement

namespace Modifier

def children : Modifier → List Node
  | keyword .. => []
  | annotated _ _ _ arguments _ => (Delimited.optionalList arguments).map .expression

def trivia : Modifier → List Trivia
  | keyword lead _ => [lead]
  | annotated lead nameLead _ arguments _ => lead :: nameLead :: Delimited.optionalTrivia arguments

end Modifier

namespace Member

def children : Member → List Node
  | field d => [.declarations d]
  | method m => [.method m]
  | nested c => [.classDeclaration c]
  | empty _ => []

def trivia : Member → List Trivia
  | empty lead => [lead]
  | _ => []

end Member

namespace Node

/-- The nodes right below a node. -/
def children : Node → List Node
  | dimension _ => []
  | typeTree t =>
    (t.bound?.map wildcardBound).toList ++ (Delimited.optionalList t.arguments).map typeTree ++
      t.dimensions.map dimension
  | wildcardBound b => [typeTree b.bound]
  | typeList l => l.types.map fun p => typeTree p.element
  | literal _ => []
  | identifier _ => []
  | expression e => e.children
  | modifier m => m.children
  | initializer i => [expression i.value]
  | namedVariable v =>
    identifier v.name :: v.dimensions.map dimension ++ (v.initializer.map initializer).toList
  | declarations d =>
    d.modifiers.map modifier ++ typeTree d.type :: d.declared.map fun p => namedVariable p.element
  | classBody b => b.members.map member
  | classDeclaration c =>
    c.modifiers.map modifier ++ identifier c.name :: (c.superclasses.map typeList).toList ++
      (c.interfaces.map typeList).toList ++ [classBody c.body]
  | member m => m.children
  | method m =>
    m.modifiers.map modifier ++ (m.returnType.map typeTree).toList ++ identifier m.name ::
      m.parameters.toList.map declarations ++ (m.throws.map typeList).toList ++
      (m.ending.block?.map block).toList
  | block b => b.statements.map statement
  | ret r => (r.value.map expression).toList
  | condition c => [expression c.expression]
  | statement s => s.children
  | package _ => []
  | importDeclaration _ => []
  | unit u =>
    (u.package.map package).toList ++ u.imports.map importDeclaration ++
      u.classes.map classDeclaration

/-- The trivia that a node stores itself. -/
def trivia : Node → List Trivia
  | dimension d => [d.lead, d.inner]
  | typeTree t => t.lead :: Delimited.optionalTrivia t.arguments
  | wildcardBound b => [b.lead]
  | typeList l => l.lead :: Padded.commas l.types
  | literal l => [l.lead]
  | identifier i => [i.lead]
  | expression e => e.trivia
  | modifier m => m.trivia
  | initializer i => [i.lead]
  | namedVariable v => [v.lead]
  | declarations d => d.lead :: d.terminator.toList ++ Padded.commas d.declared
  | classBody b => [b.lead, b.close]
  | classDeclaration c => [c.lead, c.kindLead]
  | member m => m.trivia
  | method m => m.lead :: m.parameters.trivia ++ m.ending.trivia
  | block b => [b.lead, b.close]
  | ret r => [r.lead, r.terminator]
  | condition c => [c.lead, c.close]
  | statement s => s.trivia
  | package d => [d.lead, d.nameLead, d.terminator]
  | importDeclaration i => i.lead :: i.nameLead :: i.terminator :: i.staticLead.toList
  | unit u => [u.tail]

/-- The steps that print a node. The keyword of a list of types is printed by its owner. -/
def steps : Node → List Step
  | dimension d => d.steps
  | typeTree t => t.steps
  | wildcardBound b => spaced b.lead b.kind.keyword ++ b.bound.steps
  | typeList l => l.steps
  | literal l => l.steps
  | identifier i => i.steps
  | expression e => e.steps
  | modifier m => m.steps
  | initializer i => spaced i.lead "=" ++ i.value.steps
  | namedVariable v => v.steps
  | declarations d => d.steps
  | classBody b => b.steps
  | classDeclaration c => c.steps
  | member m => m.steps
  | method m => m.steps
  | block b => b.steps
  | ret r => r.steps
  | condition c => c.steps
  | statement s => s.steps
  | package d => d.steps
  | importDeclaration i => i.steps
  | unit u => u.steps

/-! ## Occurrence -/

/-- The first node occurs in the second one, or is that node. -/
inductive Within : Node → Node → Prop
  | refl (n : Node) : Within n n
  | child {m k n : Node} (hk : k ∈ n.children) (h : Within m k) : Within m n

theorem Within.trans {l m n : Node} (h : Within l m) (hm : Within m n) : Within l n := by
  induction hm with
  | refl => exact h
  | child hk _ ih => exact .child hk ih

/-- The property holds of the node and of all nodes in it. -/
def All (Q : Node → Prop) (n : Node) : Prop := ∀ m, Within m n → Q m

variable {Q : Node → Prop}

theorem all_iff {n : Node} : n.All Q ↔ Q n ∧ ∀ k ∈ n.children, k.All Q := by
  constructor
  · exact fun h => ⟨h n (.refl n), fun k hk m hm => h m (.child hk hm)⟩
  · rintro ⟨hn, hc⟩ m hm
    cases hm with
    | refl => exact hn
    | child hk hm => exact hc _ hk m hm

theorem All.self {n : Node} (h : n.All Q) : Q n := (all_iff.mp h).1

theorem All.child {n k : Node} (h : n.All Q) (hk : k ∈ n.children) : k.All Q :=
  (all_iff.mp h).2 k hk

theorem All.within {m n : Node} (h : n.All Q) (hm : Within m n) : m.All Q :=
  fun l hl => h l (hl.trans hm)

end Node

end LosslessJava
