import LosslessJava.Resolve.Scope

/-!
# Attribution

Attaches types to the nodes of a tree. Only the types change, and they do not depend on the types
that the nodes had before, except those of calls, which are kept.

* `CompilationUnit.attributed`: the unit with types. References that do not resolve have none.
-/

namespace LosslessJava

/-! ## Types as written -/

/-- The types of all nodes, when every one has a type. -/
def TypeTree.allTypes : List (Padded TypeTree) → Option (List JavaType)
  | [] => some []
  | p :: ps => p.element.type.bind fun t => (TypeTree.allTypes ps).map (t :: ·)

/-- The type of a class with these arguments. Arguments count when there are some and all have
types. -/
def ClassType.withArguments (c : ClassType) (arguments : Option (Delimited TypeTree)) : JavaType :=
  match arguments with
  | some ⟨_, p :: ps, _⟩ =>
    match TypeTree.allTypes (p :: ps) with
    | some types => .parameterized c types
    | none => .ofClass c
  | _ => .ofClass c

mutual

def TypeTree.attributed (s : Scope) : TypeTree → TypeTree
  | ⟨lead, kind, arguments, dimensions, _⟩ =>
    let arguments := TypeTree.attributedArguments s arguments
    let type : Option JavaType :=
      match kind with
      | .primitive p => some (JavaType.primitive p)
      | .named name => (s.resolve name).map fun c => c.withArguments arguments
      | .wildcard _ => none
    ⟨lead, TypeTreeKind.attributed s kind, arguments, dimensions,
      type.map fun t => t.arrayOf dimensions.length⟩

def TypeTree.attributedArguments (s : Scope) :
    Option (Delimited TypeTree) → Option (Delimited TypeTree)
  | none => none
  | some ⟨before, elements, close⟩ => some ⟨before, TypeTree.attributedList s elements, close⟩

def TypeTree.attributedList (s : Scope) : List (Padded TypeTree) → List (Padded TypeTree)
  | [] => []
  | ⟨t, after⟩ :: ts => ⟨TypeTree.attributed s t, after⟩ :: TypeTree.attributedList s ts

def TypeTreeKind.attributed (s : Scope) : TypeTreeKind → TypeTreeKind
  | .primitive p => .primitive p
  | .named name => .named name
  | .wildcard none => .wildcard none
  | .wildcard (some ⟨lead, kind, bound⟩) =>
    .wildcard (some ⟨lead, kind, TypeTree.attributed s bound⟩)

end

namespace TypeList

def attributed (s : Scope) (l : TypeList) : TypeList :=
  { l with types := TypeTree.attributedList s l.types }

end TypeList

/-! ## Names that denote classes -/

namespace Expression

/-- The name written by an identifier or by a chain of field accesses on one. -/
def dottedName? : Expression → Option QualifiedName
  | identifier i => some (.single i.name)
  | fieldAccess _ target _ name _ => target.dottedName?.map (·.push name.name)
  | _ => none

end Expression

namespace Scope

/-- The last segment of the name starts with an upper-case letter, as classes do by convention. -/
def isClassLike (name : QualifiedName) : Bool := name.simpleName.toList.head?.any isUppercase

/-- The type of an expression that names a class. -/
def classReference (s : Scope) (name : Option QualifiedName) : Option JavaType :=
  (name.filter isClassLike).bind fun n => (s.resolve n).map .ofClass

end Scope

/-! ## Expressions, statements and declarations -/

mutual

def Expression.attributed (s : Scope) : Expression → Expression
  | .literal l => .literal l
  | .identifier i => .identifier { i with type := s.classReference (some (.single i.name)) }
  | .fieldAccess lead target dotLead name type =>
    .fieldAccess lead (target.attributed s) dotLead name
      (s.classReference (Expression.fieldAccess lead target dotLead name type).dottedName?)
  | .call lead name ⟨before, elements, close⟩ type =>
    .call lead name ⟨before, Expression.attributedList s elements, close⟩ type
  | .invocation lead target dotLead name ⟨before, elements, close⟩ type =>
    .invocation lead (target.attributed s) dotLead name
      ⟨before, Expression.attributedList s elements, close⟩ type
  | .newClass lead type ⟨before, elements, close⟩ body =>
    .newClass lead (type.attributed s) ⟨before, Expression.attributedList s elements, close⟩
      (match body with | none => none | some b => some (b.attributed s))
  | .binary lead left operatorLead operator right =>
    .binary lead (left.attributed s) operatorLead operator (right.attributed s)
  | .prefixed lead operator operand => .prefixed lead operator (operand.attributed s)
  | .postfixed lead operand operatorLead operator =>
    .postfixed lead (operand.attributed s) operatorLead operator
  | .assignment lead target operatorLead operator value =>
    .assignment lead (target.attributed s) operatorLead operator (value.attributed s)
  | .conditional lead condition questionLead thenPart colonLead elsePart =>
    .conditional lead (condition.attributed s) questionLead (thenPart.attributed s) colonLead
      (elsePart.attributed s)
  | .parentheses lead inner close => .parentheses lead (inner.attributed s) close
  | .self lead _ => .self lead (s.enclosing.head?.map .ofClass)

def Expression.attributedList (s : Scope) : List (Padded Expression) → List (Padded Expression)
  | [] => []
  | ⟨e, after⟩ :: es => ⟨e.attributed s, after⟩ :: Expression.attributedList s es

def Modifier.attributed (s : Scope) : Modifier → Modifier
  | .keyword lead kind => .keyword lead kind
  | .annotated lead nameLead name none _ =>
    .annotated lead nameLead name none ((s.resolve name).map .ofClass)
  | .annotated lead nameLead name (some ⟨before, elements, close⟩) _ =>
    .annotated lead nameLead name (some ⟨before, Expression.attributedList s elements, close⟩)
      ((s.resolve name).map .ofClass)

def Modifier.attributedList (s : Scope) : List Modifier → List Modifier
  | [] => []
  | m :: ms => m.attributed s :: Modifier.attributedList s ms

/-- Attributes a variable declared with the given type. -/
def NamedVariable.attributed (s : Scope) (declared : Option JavaType) :
    NamedVariable → NamedVariable
  | ⟨lead, name, dimensions, initializer, _⟩ =>
    ⟨lead, name, dimensions,
      (match initializer with
        | none => none
        | some ⟨lead, value⟩ => some ⟨lead, value.attributed s⟩),
      declared.map (·.arrayOf dimensions.length)⟩

def NamedVariable.attributedList (s : Scope) (declared : Option JavaType) :
    List (Padded NamedVariable) → List (Padded NamedVariable)
  | [] => []
  | ⟨v, after⟩ :: vs =>
    ⟨v.attributed s declared, after⟩ :: NamedVariable.attributedList s declared vs

def VariableDeclarations.attributed (s : Scope) : VariableDeclarations → VariableDeclarations
  | ⟨lead, modifiers, type, declared, terminator⟩ =>
    ⟨lead, Modifier.attributedList s modifiers, type.attributed s,
      NamedVariable.attributedList s (type.attributed s).type declared, terminator⟩

def VariableDeclarations.attributedList (s : Scope) :
    List (Padded VariableDeclarations) → List (Padded VariableDeclarations)
  | [] => []
  | ⟨d, after⟩ :: ds => ⟨d.attributed s, after⟩ :: VariableDeclarations.attributedList s ds

def ClassBody.attributed (s : Scope) : ClassBody → ClassBody
  | ⟨lead, members, close⟩ => ⟨lead, Member.attributedList s members, close⟩

/-- Attributes a class. Its modifiers and clauses stand outside the class, its members inside. -/
def ClassDeclaration.attributed (s : Scope) : ClassDeclaration → ClassDeclaration
  | ⟨lead, modifiers, kindLead, kind, name, superclasses, interfaces, body, _⟩ =>
    let type := s.declare name.name
    ⟨lead, Modifier.attributedList s modifiers, kindLead, kind,
      { name with type := some (.ofClass type) }, superclasses.map (·.attributed s),
      interfaces.map (·.attributed s), body.attributed (s.enter type), some type⟩

def Member.attributed (s : Scope) : Member → Member
  | .field d => .field (d.attributed s)
  | .method m => .method (m.attributed s)
  | .nested c => .nested (c.attributed s)
  | .empty lead => .empty lead

def Member.attributedList (s : Scope) : List Member → List Member
  | [] => []
  | m :: ms => m.attributed s :: Member.attributedList s ms

def MethodDeclaration.attributed (s : Scope) : MethodDeclaration → MethodDeclaration
  | ⟨lead, modifiers, returnType, name, ⟨before, elements, close⟩, throws, ending⟩ =>
    ⟨lead, Modifier.attributedList s modifiers, returnType.map (·.attributed s), name,
      ⟨before, VariableDeclarations.attributedList s elements, close⟩,
      throws.map (·.attributed s), ending.attributed s⟩

def MethodEnding.attributed (s : Scope) : MethodEnding → MethodEnding
  | .body block => .body (block.attributed s)
  | .terminator lead => .terminator lead

def Block.attributed (s : Scope) : Block → Block
  | ⟨lead, statements, close⟩ => ⟨lead, Statement.attributedList s statements, close⟩

def Return.attributed (s : Scope) : Return → Return
  | ⟨lead, value, terminator⟩ =>
    ⟨lead, (match value with | none => none | some e => some (e.attributed s)), terminator⟩

def Condition.attributed (s : Scope) : Condition → Condition
  | ⟨lead, expression, close⟩ => ⟨lead, expression.attributed s, close⟩

def Statement.attributed (s : Scope) : Statement → Statement
  | .block b => .block (b.attributed s)
  | .ret r => .ret (r.attributed s)
  | .throwing lead exception terminator => .throwing lead (exception.attributed s) terminator
  | .branch lead condition thenPart =>
    .branch lead (condition.attributed s) (thenPart.attributed s)
  | .fork lead condition thenPart elseLead elsePart =>
    .fork lead (condition.attributed s) (thenPart.attributed s) elseLead (elsePart.attributed s)
  | .loop lead condition body => .loop lead (condition.attributed s) (body.attributed s)
  | .empty lead => .empty lead
  | .declaration d => .declaration (d.attributed s)
  | .expression lead e terminator => .expression lead (e.attributed s) terminator

def Statement.attributedList (s : Scope) : List Statement → List Statement
  | [] => []
  | t :: ts => t.attributed s :: Statement.attributedList s ts

end

namespace CompilationUnit

/-- The unit with types attached. -/
def attributed (u : CompilationUnit) (index : TypeIndex) (implicitLanguage : Bool) :
    CompilationUnit :=
  let scope := Scope.ofUnit index implicitLanguage u
  { u with classes := u.classes.map (·.attributed scope) }

/-- The class of a name written in the unit outside its classes. -/
def resolve (u : CompilationUnit) (index : TypeIndex) (implicitLanguage : Bool)
    (name : QualifiedName) : Option ClassType :=
  (Scope.ofUnit index implicitLanguage u).resolve name

end CompilationUnit

end LosslessJava
