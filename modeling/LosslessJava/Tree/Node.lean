import LosslessJava.Literal.Value
import LosslessJava.Tree.TypeTree

/-!
# Nodes

Expressions, statements and declarations. Every node keeps the trivia in front of its first token
as its lead and the trivia in front of each further token. A child that starts with the first token
of its parent has an empty lead.
-/

namespace LosslessJava

/-- The name of a class, method or variable, or a name used as an expression. -/
structure Identifier where
  lead : Trivia
  name : String
  type : Option JavaType
deriving BEq

mutual

inductive Expression where
  | literal (literal : Literal)
  | identifier (identifier : Identifier)
  /-- `target.name` -/
  | fieldAccess (lead : Trivia) (target : Expression) (dotLead : Trivia) (name : Identifier)
      (type : Option JavaType)
  /-- `name(arguments)` -/
  | call (lead : Trivia) (name : Identifier) (arguments : Delimited Expression)
      (type : Option JavaType)
  /-- `target.name(arguments)` -/
  | invocation (lead : Trivia) (target : Expression) (dotLead : Trivia) (name : Identifier)
      (arguments : Delimited Expression) (type : Option JavaType)
  /-- `new Type(arguments) [body]` -/
  | newClass (lead : Trivia) (type : TypeTree) (arguments : Delimited Expression)
      (body : Option ClassBody)
  | binary (lead : Trivia) (left : Expression) (operatorLead : Trivia)
      (operator : BinaryOperator) (right : Expression)
  | prefixed (lead : Trivia) (operator : PrefixOperator) (operand : Expression)
  | postfixed (lead : Trivia) (operand : Expression) (operatorLead : Trivia)
      (operator : PostfixOperator)
  | assignment (lead : Trivia) (target : Expression) (operatorLead : Trivia)
      (operator : AssignmentOperator) (value : Expression)
  | conditional (lead : Trivia) (condition : Expression) (questionLead : Trivia)
      (thenPart : Expression) (colonLead : Trivia) (elsePart : Expression)
  | parentheses (lead : Trivia) (inner : Expression) (close : Trivia)
  /-- `this` -/
  | self (lead : Trivia) (type : Option JavaType)

inductive Modifier where
  | keyword (lead : Trivia) (kind : ModifierKind)
  /-- `@Name` or `@Name(arguments)` -/
  | annotated (lead : Trivia) (nameLead : Trivia) (name : QualifiedName)
      (arguments : Option (Delimited Expression)) (type : Option JavaType)

/-- `= value` -/
structure Initializer where
  lead : Trivia
  value : Expression

structure NamedVariable where
  lead : Trivia
  name : Identifier
  dimensions : List Dimension
  initializer : Option Initializer
  type : Option JavaType

/-- Fields, local variables or a parameter. -/
structure VariableDeclarations where
  lead : Trivia
  modifiers : List Modifier
  type : TypeTree
  declared : List (Padded NamedVariable)
  /-- The trivia in front of the semicolon; a parameter has none. -/
  terminator : Option Trivia

/-- The members of a class between braces. -/
structure ClassBody where
  lead : Trivia
  members : List Member
  close : Trivia

structure ClassDeclaration where
  lead : Trivia
  modifiers : List Modifier
  kindLead : Trivia
  kind : ClassKind
  name : Identifier
  superclasses : Option TypeList
  interfaces : Option TypeList
  body : ClassBody
  type : Option ClassType

inductive Member where
  | field (declarations : VariableDeclarations)
  | method (declaration : MethodDeclaration)
  | nested (declaration : ClassDeclaration)
  /-- A lone semicolon. -/
  | empty (lead : Trivia)

structure MethodDeclaration where
  lead : Trivia
  modifiers : List Modifier
  /-- A constructor has none. -/
  returnType : Option TypeTree
  name : Identifier
  parameters : Delimited VariableDeclarations
  throws : Option TypeList
  ending : MethodEnding

/-- The body of a method, or the semicolon of one without a body. -/
inductive MethodEnding where
  | body (block : Block)
  | terminator (lead : Trivia)

/-- Statements between braces. -/
structure Block where
  lead : Trivia
  statements : List Statement
  close : Trivia

/-- `return [value];` -/
structure Return where
  lead : Trivia
  value : Option Expression
  terminator : Trivia

/-- The condition of a branch or loop, with its parentheses. -/
structure Condition where
  lead : Trivia
  expression : Expression
  close : Trivia

inductive Statement where
  | block (block : Block)
  | ret (statement : Return)
  /-- `throw exception;` -/
  | throwing (lead : Trivia) (exception : Expression) (terminator : Trivia)
  /-- `if (condition) thenPart` -/
  | branch (lead : Trivia) (condition : Condition) (thenPart : Statement)
  /-- `if (condition) thenPart else elsePart` -/
  | fork (lead : Trivia) (condition : Condition) (thenPart : Statement) (elseLead : Trivia)
      (elsePart : Statement)
  /-- `while (condition) body` -/
  | loop (lead : Trivia) (condition : Condition) (body : Statement)
  /-- A lone semicolon. -/
  | empty (lead : Trivia)
  | declaration (declarations : VariableDeclarations)
  /-- `expression;` -/
  | expression (lead : Trivia) (expression : Expression) (terminator : Trivia)

end

end LosslessJava
