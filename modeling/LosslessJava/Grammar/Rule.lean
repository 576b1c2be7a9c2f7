import LosslessJava.Tree.Keyword

/-!
# Rules of the grammar

The names of the grammar's rules, for the pairs that a text is taken apart into, and for reports of
what was expected where a text stopped being legal. The rules are ordered as the grammar lists them.
-/

namespace LosslessJava.Grammar

inductive Rule where
  | endOfInput
  | identifier | qualifiedName
  | packageWord | importWord | staticWord | extendsWord | implementsWord | throwsWord | returnWord
  | throwWord | ifWord | elseWord | whileWord | newWord
  | semicolon | comma | dot | leftParenthesis | rightParenthesis | leftBrace | rightBrace
  | leftBracket | rightBracket | less | greater | at | question | colon | equals
  | compilationUnit | packageDeclaration | importDeclaration | importPath | wildcard
  | expressionText | statementText
  | modifierWord | annotationUse | classDeclaration | classKind | extendsClause
  | implementsClause | classBody | methodDeclaration | formalParameters | formalParameter
  | throwsClause | variableDeclarations | variableDeclarator
  | typeReference | primitiveType | typeArguments | wildcardType | wildcardBound | dimension
  | block | returnStatement | throwStatement | ifStatement | elseClause | whileStatement
  | condition | emptyStatement | expressionStatement
  | expression | assignment | assignmentOperator | conditionalExpression | binaryExpression
  | binaryOperator (operator : BinaryOperator) | unaryExpression | prefixOperator | postfixOperator
  | postfixExpression
  | methodSelector | fieldSelector | thisExpression | newClass | methodCall | parenthesized
  | arguments
  | floatingLiteral | integerLiteral | stringLiteral | characterLiteral | booleanLiteral
  | nullLiteral
deriving DecidableEq

namespace Rule

/-- The position of the rule in the grammar. -/
def rank (r : Rule) : Nat := r.ctorIdx

/-- What a reader is told that the rule stands for. -/
def description : Rule → String
  | compilationUnit => "a compilation unit"
  | packageDeclaration => "a package declaration (package a.b;)"
  | importDeclaration => "an import declaration (import a.b.C;)"
  | importPath => "an import path (like java.util.List or java.util.*)"
  | qualifiedName => "a qualified name (like java.util.List)"
  | identifier => "an identifier"
  | classDeclaration => "a class or interface declaration"
  | classKind => "'class' or 'interface'"
  | classBody => "a class body (\x7b ... \x7d)"
  | methodDeclaration => "a method declaration"
  | variableDeclarations => "a variable declaration (like int x = 0;)"
  | formalParameters => "a parameter list"
  | annotationUse => "an annotation (like @Override)"
  | modifierWord => "a modifier (like public or static)"
  | typeReference => "a type (like int or List<String>)"
  | primitiveType => "a primitive type"
  | typeArguments => "type arguments (like <String>)"
  | block => "a block (\x7b ... \x7d)"
  | returnStatement => "a return statement"
  | expressionStatement => "an expression statement"
  | expression => "an expression"
  | arguments => "an argument list"
  | integerLiteral => "an integer literal"
  | floatingLiteral => "a floating point literal"
  | stringLiteral => "a string literal"
  | characterLiteral => "a character literal"
  | semicolon => "';'"
  | comma => "','"
  | dot => "'.'"
  | leftParenthesis => "'('"
  | rightParenthesis => "')'"
  | leftBrace => "'\x7b'"
  | rightBrace => "'\x7d'"
  | leftBracket => "'['"
  | rightBracket => "']'"
  | greater => "'>'"
  | equals => "'='"
  | endOfInput => "end of input"
  | _ => "a language element"

end Rule

/-- A list without the repetitions of neighbours. -/
def mergeRuns {α : Type} [BEq α] : List α → List α
  | [] => []
  | [a] => [a]
  | a :: b :: rest => if a == b then mergeRuns (b :: rest) else a :: mergeRuns (b :: rest)

/-- The rules that could have continued a text, in words. -/
def expectation (rules : List Rule) : String :=
  let sorted := rules.mergeSort fun a b => a.rank ≤ b.rank
  match mergeRuns ((mergeRuns sorted).map Rule.description) with
  | [] => "valid syntax"
  | [only] => only
  | many => "one of: " ++ ", ".intercalate many

end LosslessJava.Grammar
