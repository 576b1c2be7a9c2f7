import LosslessJava.Tree.Lead
import LosslessJava.Tree.Unit

/-!
# Access to parts of trees
-/

namespace LosslessJava

namespace Expression

/-- The type of the expression, where it is known. -/
def type? : Expression → Option JavaType
  | literal l => some (.primitive l.value.type)
  | identifier i => i.type
  | fieldAccess _ _ _ _ type => type
  | call _ _ _ type => type
  | invocation _ _ _ _ _ type => type
  | newClass _ t _ _ => t.type
  | parentheses _ inner _ => inner.type?
  | self _ type => type
  | binary .. | prefixed .. | postfixed .. | assignment .. | conditional .. => none

def literal? : Expression → Option Literal
  | literal l => some l
  | _ => none

end Expression

namespace Modifier

/-- The keyword of a modifier that is no annotation. -/
def kind? : Modifier → Option ModifierKind
  | keyword _ kind => some kind
  | annotated .. => none

/-- A synthesized modifier. -/
def ofKind (kind : ModifierKind) : Modifier := keyword .empty kind

end Modifier

namespace Member

def field? : Member → Option VariableDeclarations
  | field d => some d
  | _ => none

def method? : Member → Option MethodDeclaration
  | method m => some m
  | _ => none

def nested? : Member → Option ClassDeclaration
  | nested c => some c
  | _ => none

end Member

namespace MethodDeclaration

def isConstructor (m : MethodDeclaration) : Bool := m.returnType.isNone

def body? (m : MethodDeclaration) : Option Block :=
  match m.ending with
  | .body block => some block
  | .terminator _ => none

/-- The statements of the body, none without a body. -/
def statements (m : MethodDeclaration) : List Statement :=
  (m.body?.map Block.statements).getD []

/-- The method with a body, or ended by a semicolon. -/
def withBody (m : MethodDeclaration) : Option Block → MethodDeclaration
  | some block => { m with ending := .body block }
  | none =>
    match m.ending with
    | .body _ => { m with ending := .terminator .empty }
    | .terminator _ => m

end MethodDeclaration

namespace ClassDeclaration

def hasModifier (c : ClassDeclaration) (kind : ModifierKind) : Bool :=
  c.modifiers.any fun m => m.kind? == some kind

def members (c : ClassDeclaration) : List Member := c.body.members

def methods (c : ClassDeclaration) : List MethodDeclaration := c.members.filterMap Member.method?

def fields (c : ClassDeclaration) : List VariableDeclarations := c.members.filterMap Member.field?

def nestedClasses (c : ClassDeclaration) : List ClassDeclaration :=
  c.members.filterMap Member.nested?

def methodNamed (c : ClassDeclaration) (name : String) : Option MethodDeclaration :=
  c.methods.find? fun m => m.name.name == name

def withMembers (c : ClassDeclaration) (members : List Member) : ClassDeclaration :=
  { c with body := { c.body with members } }

end ClassDeclaration

namespace CompilationUnit

/-- The class of that name outside other classes. -/
def classNamed (u : CompilationUnit) (name : String) : Option ClassDeclaration :=
  u.classes.find? fun c => c.name.name == name

/-- The first statement of the first method that has one. -/
def firstMethodStatement (u : CompilationUnit) : Option Statement :=
  (u.classes.flatMap ClassDeclaration.methods).findSome? fun m => m.statements.head?

end CompilationUnit

namespace Block

/-- A block in default formatting. -/
def build (statements : List Statement) : Block := ⟨.space, statements, .empty⟩

/-- Replaces the statement at an index; an index past the end changes nothing. -/
def withStatement (b : Block) (index : Nat) (statement : Statement) : Block :=
  { b with statements := b.statements.set index statement }

end Block

namespace Return

/-- A return statement in default formatting. -/
def build (value : Option Expression) : Return :=
  ⟨.empty, value.map (Expression.withLead .space), .empty⟩

/-- Replaces the returned value. A value without a lead gets a space in front of it. -/
def withValue (r : Return) (value : Option Expression) : Return :=
  { r with value := value.map fun e => if e.lead.isEmpty then e.withLead .space else e }

end Return

end LosslessJava
