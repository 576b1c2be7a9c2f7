import LosslessJava.Grammar.Build.Statement
import LosslessJava.Grammar.Declaration

/-!
# Building of declarations and units
-/

namespace LosslessJava.Grammar

namespace Build

open Building

variable (source : List Char) (b : Builders)

/-! ## Clauses of types -/

/-- The types behind the keyword of an `extends`, `implements` or `throws` clause. -/
def typeClause (lead : Trivia) (pair : Pair) : Built TypeList := pair.walk source do
  let _ ← expectAny "a clause keyword"
  let types ← elements (nextIf .typeReference) (typeReference source b)
  return ⟨lead, types⟩

/-! ## Methods -/

def formalParameters (lead : Trivia) (pair : Pair) : Built (Delimited VariableDeclarations) :=
  pair.walk source do
    let _ ← token .leftParenthesis
    let elements ← elements (nextIf .formalParameter) (formalParameter source b)
    let close ← token .rightParenthesis
    return ⟨lead, elements, close⟩

def methodEnding : Building MethodEnding := do
  match ← perhaps .block (block source b) with
  | some body => return .body body
  | none => .terminator <$> token .semicolon

def methodDeclaration (lead : Trivia) (pair : Pair) : Built MethodDeclaration :=
  pair.walk source do
    let modifiers ← modifiers source b
    let returnType ← perhaps .typeReference (typeReference source b)
    let name ← child .identifier (identifier source)
    let parameters ← child .formalParameters (formalParameters source b)
    let throws ← perhaps .throwsClause (typeClause source b)
    let ending ← methodEnding source b
    return ⟨lead, modifiers, returnType, name, parameters, throws, ending⟩

/-! ## Classes -/

def classDeclaration (lead : Trivia) (pair : Pair) : Built ClassDeclaration :=
  pair.walk source do
    let modifiers ← modifiers source b
    let (kindLead, kind) ← expect .classKind
    let kind := if kind.text source = "interface" then ClassKind.interface else .ordinary
    let name ← child .identifier (identifier source)
    let superclasses ← perhaps .extendsClause (typeClause source b)
    let interfaces ← perhaps .implementsClause (typeClause source b)
    let body ← child .classBody b.classBody
    return ⟨lead, modifiers, kindLead, kind, name, superclasses, interfaces, body, none⟩

def member (lead : Trivia) (pair : Pair) : Built Member :=
  match pair.rule with
  | .classDeclaration => .nested <$> classDeclaration source b lead pair
  | .methodDeclaration => .method <$> methodDeclaration source b lead pair
  | .variableDeclarations => .field <$> variableDeclarations source b lead pair
  | .semicolon => .ok (.empty lead)
  | _ => pair.unexpected "a class member"

def classBody (lead : Trivia) (pair : Pair) : Built ClassBody := pair.walk source do
  let _ ← token .leftBrace
  let members ← all (nextUnless .rightBrace "a class member") (member source b)
  let close ← token .rightBrace
  return ⟨lead, members, close⟩

/-! ## Units -/

def packageDeclaration (lead : Trivia) (pair : Pair) : Built PackageDeclaration :=
  pair.walk source do
    let _ ← token .packageWord
    let (nameLead, name) ← expect .qualifiedName
    let terminator ← token .semicolon
    let name ← qualifiedName source name
    return ⟨lead, nameLead, name, terminator⟩

/-- The segments of an imported path, and whether a wildcard ends it. -/
def pathParts : List Pair → Built (List String × Bool)
  | [] => .ok ([], false)
  | part :: parts =>
    match part.rule with
    | .identifier => (fun (segments, wildcard) => (part.text source :: segments, wildcard)) <$>
        pathParts parts
    | .wildcard => (fun (segments, _) => (segments, true)) <$> pathParts parts
    | _ => part.unexpected "an import path segment"

def importDeclaration (lead : Trivia) (pair : Pair) : Built Import := pair.walk source do
  let _ ← token .importWord
  let staticLead ← nextIf .staticWord
  let (nameLead, path) ← expect .importPath
  let terminator ← token .semicolon
  let (segments, wildcard) ← pathParts source path.inner
  let name ← nameOf path segments
  return ⟨lead, staticLead.map Prod.fst, nameLead, name, wildcard, terminator⟩

/-- A unit, which has no path yet. -/
def compilationUnit (pair : Pair) : Built CompilationUnit := pair.walk source do
  let package ← perhaps .packageDeclaration (packageDeclaration source)
  let imports ← all (nextIf .importDeclaration) (importDeclaration source)
  let classes ← all (nextIf .classDeclaration) (classDeclaration source b)
  let eof ← token .endOfInput
  return ⟨none, package, imports, classes, eof⟩

/-! ## Whole texts -/

/-- The only expression of a text. -/
def expressionText (pair : Pair) : Built Expression :=
  pair.walk source (child .expression (expression source b))

/-- The only statement of a text. -/
def statementText (pair : Pair) : Built Statement := pair.walk source do
  let (lead, pair) ← expectAny "a statement"
  statement source b lead pair

end Build

/-- Builders for pairs that lie less than `depth` references to recursive rules deep. -/
def builders (source : List Char) : Nat → Builders
  | 0 =>
    { type := fun _ pair => pair.unexpected "a type"
      unary := fun pair => pair.unexpected "an operand"
      expression := fun _ pair => pair.unexpected "an expression"
      classBody := fun _ pair => pair.unexpected "a class body"
      statement := fun _ pair => pair.unexpected "a statement" }
  | depth + 1 =>
    { type := fun lead pair => Build.typeReference source (builders source depth) lead pair
      unary := fun pair => Build.unaryExpression source (builders source depth) pair
      expression := fun lead pair => Build.expression source (builders source depth) lead pair
      classBody := fun lead pair => Build.classBody source (builders source depth) lead pair
      statement := fun lead pair => Build.statement source (builders source depth) lead pair }

end LosslessJava.Grammar
