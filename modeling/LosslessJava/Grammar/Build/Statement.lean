import LosslessJava.Grammar.Build.Expression

/-!
# Building of variables and statements
-/

namespace LosslessJava.Grammar.Build

open Building

variable (source : List Char) (b : Builders)

/-! ## Modifiers -/

def annotationUse (lead : Trivia) (pair : Pair) : Built Modifier := pair.walk source do
  let _ ← token .at
  let (nameLead, name) ← expect .qualifiedName
  let arguments ← perhaps .arguments (arguments source b)
  let name ← qualifiedName source name
  return .annotated lead nameLead name arguments none

def modifier (lead : Trivia) (pair : Pair) : Built Modifier :=
  match pair.rule with
  | .modifierWord =>
    match ModifierKind.ofKeyword? (pair.text source) with
    | some kind => .ok (.keyword lead kind)
    | none => pair.unexpected "a modifier keyword"
  | _ => annotationUse source b lead pair

def modifiers : Building (List Modifier) :=
  all (nextWhere fun r => r == .modifierWord || r == .annotationUse) (modifier source b)

/-! ## Variables -/

def initializer (equalsLead : Trivia) : Building Initializer := do
  let value ← child .expression b.expression
  return ⟨equalsLead, value⟩

def variableDeclarator (lead : Trivia) (pair : Pair) : Built NamedVariable :=
  pair.walk source do
    let name ← child .identifier (identifier source)
    let dimensions ← dimensions source
    let initializer ← whenFound (nextIf .equals) fun lead _ => initializer b lead
    return ⟨lead, name, dimensions, initializer, none⟩

def variableDeclarations (lead : Trivia) (pair : Pair) : Built VariableDeclarations :=
  pair.walk source do
    let modifiers ← modifiers source b
    let type ← child .typeReference (typeReference source b)
    let declared ← elements (nextIf .variableDeclarator) (variableDeclarator source b)
    let terminator ← token .semicolon
    return ⟨lead, modifiers, type, declared, some terminator⟩

def formalParameter (lead : Trivia) (pair : Pair) : Built VariableDeclarations :=
  pair.walk source do
    let modifiers ← modifiers source b
    let type ← child .typeReference (typeReference source b)
    let declared ← child .variableDeclarator (variableDeclarator source b)
    return ⟨lead, modifiers, type, [.ofElement declared], none⟩

/-! ## Statements -/

def block (lead : Trivia) (pair : Pair) : Built Block := pair.walk source do
  let _ ← token .leftBrace
  let statements ← all (nextUnless .rightBrace "a statement") b.statement
  let close ← token .rightBrace
  return ⟨lead, statements, close⟩

def returnStatement (lead : Trivia) (pair : Pair) : Built Return := pair.walk source do
  let _ ← token .returnWord
  let value ← perhaps .expression b.expression
  let terminator ← token .semicolon
  return ⟨lead, value, terminator⟩

def throwStatement (lead : Trivia) (pair : Pair) : Built Statement := pair.walk source do
  let _ ← token .throwWord
  let exception ← child .expression b.expression
  let terminator ← token .semicolon
  return .throwing lead exception terminator

def condition (lead : Trivia) (pair : Pair) : Built Condition := pair.walk source do
  let _ ← token .leftParenthesis
  let expression ← child .expression b.expression
  let close ← token .rightParenthesis
  return ⟨lead, expression, close⟩

/-- The next pair as a statement, whatever its rule is. -/
def nextStatement : Building Statement := do
  let (lead, pair) ← expectAny "a statement"
  b.statement lead pair

def elseClause (lead : Trivia) (pair : Pair) : Built (Trivia × Statement) := pair.walk source do
  let _ ← token .elseWord
  let body ← nextStatement b
  return (lead, body)

def ifStatement (lead : Trivia) (pair : Pair) : Built Statement := pair.walk source do
  let _ ← token .ifWord
  let condition ← child .condition (condition source b)
  let thenPart ← nextStatement b
  match ← perhaps .elseClause (elseClause source b) with
  | some (elseLead, elsePart) => return .fork lead condition thenPart elseLead elsePart
  | none => return .branch lead condition thenPart

def whileStatement (lead : Trivia) (pair : Pair) : Built Statement := pair.walk source do
  let _ ← token .whileWord
  let condition ← child .condition (condition source b)
  let body ← nextStatement b
  return .loop lead condition body

def expressionStatement (lead : Trivia) (pair : Pair) : Built Statement := pair.walk source do
  let e ← child .expression (expression source b)
  let terminator ← token .semicolon
  return .expression lead e terminator

def statement (lead : Trivia) (pair : Pair) : Built Statement :=
  match pair.rule with
  | .block => .block <$> block source b lead pair
  | .returnStatement => .ret <$> returnStatement source b lead pair
  | .throwStatement => throwStatement source b lead pair
  | .ifStatement => ifStatement source b lead pair
  | .whileStatement => whileStatement source b lead pair
  | .emptyStatement => .ok (.empty lead)
  | .variableDeclarations => .declaration <$> variableDeclarations source b lead pair
  | .expressionStatement => expressionStatement source b lead pair
  | _ => pair.unexpected "a statement"

end LosslessJava.Grammar.Build
