import LosslessJava.Grammar.Build.Type
import LosslessJava.Grammar.Expression

/-!
# Building of expressions

The pairs of a chain are operands with operators between them. The chain is arranged by a precedence
climb, which finds the trivia around an operator by the offsets of the operands that it joins.

* `Build.literal`: the value of a literal, where errors come from.
* `Build.climb`, `Build.binary`: a chain of operands.
* `Build.expression`: the rule.
-/

namespace LosslessJava.Grammar.Build

open Building

variable (source : List Char) (b : Builders)

/-! ## Primary expressions -/

def literal (lead : Trivia) (pair : Pair) : Built Literal :=
  let text := pair.text source
  let decoded (kind : LiteralKind) : Built Literal :=
    match kind.decode text.toList with
    | some value => .ok ⟨lead, value, text⟩
    | none => .error ⟨pair.start, .invalidLiteral kind text⟩
  match pair.rule with
  | .integerLiteral => decoded .integer
  | .floatingLiteral => decoded .floating
  | .characterLiteral => decoded .character
  | .stringLiteral => decoded .string
  | .booleanLiteral => .ok ⟨lead, .boolean (text == "true"), text⟩
  | .nullLiteral => .ok ⟨lead, .null, text⟩
  | _ => pair.unexpected "a literal"

def arguments (lead : Trivia) (pair : Pair) : Built (Delimited Expression) := pair.walk source do
  let _ ← token .leftParenthesis
  let elements ← elements (nextIf .expression) b.expression
  let close ← token .rightParenthesis
  return ⟨lead, elements, close⟩

def newClass (pair : Pair) : Built Expression := pair.walk source do
  let _ ← token .newWord
  let type ← child .typeReference b.type
  let arguments ← child .arguments (arguments source b)
  let body ← perhaps .classBody b.classBody
  return .newClass .empty type arguments body

def methodCall (pair : Pair) : Built Expression := pair.walk source do
  let name ← child .identifier fun _ => identifier source .empty
  let arguments ← child .arguments (arguments source b)
  return .call .empty name arguments none

def parenthesized (pair : Pair) : Built Expression := pair.walk source do
  let _ ← token .leftParenthesis
  let inner ← child .expression b.expression
  let close ← token .rightParenthesis
  return .parentheses .empty inner close

def primary (pair : Pair) : Built Expression :=
  match pair.rule with
  | .integerLiteral | .floatingLiteral | .characterLiteral | .stringLiteral | .booleanLiteral
  | .nullLiteral => Expression.literal <$> literal source .empty pair
  | .thisExpression => .ok (.self .empty none)
  | .identifier => Expression.identifier <$> identifier source .empty pair
  | .methodCall => methodCall source b pair
  | .newClass => newClass source b pair
  | .parenthesized => parenthesized source b pair
  | _ => pair.unexpected "a primary expression"

/-! ## Operands -/

def selector (dotLead : Trivia) (pair : Pair) : Built Expression.Selector := pair.walk source do
  let _ ← token .dot
  let name ← child .identifier (identifier source)
  match pair.rule with
  | .methodSelector =>
    let arguments ← child .arguments (arguments source b)
    return ⟨dotLead, name, some arguments⟩
  | _ => return ⟨dotLead, name, none⟩

/-- A primary expression and the selectors behind it. -/
def postfixExpression (pair : Pair) : Built Expression := pair.walk source do
  let (_, first) ← expectAny "a primary expression"
  let first ← primary source b first
  let selectors ← all next (selector source b)
  return selectors.foldl Expression.select first

def prefixOperator (pair : Pair) : Built PrefixOperator :=
  match prefixOperators.find? (·.symbol == pair.text source) with
  | some operator => .ok operator
  | none => pair.unexpected "a prefix operator"

def postfixOperator (pair : Pair) : PostfixOperator :=
  if pair.text source = "++" then .increment else .decrement

def prefixed (operator : Pair) : Building Expression := do
  let operator ← prefixOperator source operator
  let operand ← child .unaryExpression fun lead pair => Expression.withLead lead <$> b.unary pair
  return .prefixed .empty operator operand

def postfixed : Building Expression := do
  let operand ← child .postfixExpression fun _ => postfixExpression source b
  let operator ← nextIf .postfixOperator
  return match operator with
    | some (operatorLead, operator) =>
      .postfixed .empty operand operatorLead (postfixOperator source operator)
    | none => operand

/-- An operand with an operator in front of it, or one that an operator can follow. -/
def unary : Building Expression := do
  match ← nextIf .prefixOperator with
  | some (_, operator) => prefixed source b operator
  | none => postfixed source b

def unaryExpression (pair : Pair) : Built Expression := pair.walk source (unary source b)

/-! ## Chains of operands -/

/-- An expression with the offsets of its first and behind its last token. -/
structure Located where
  expression : Expression
  start : Nat
  stop : Nat

/-- The operator of a pair, and `none` where the pair is no operator. -/
def operatorOf (pair : Pair) : Option BinaryOperator :=
  match pair.rule with
  | .binaryOperator operator => some operator
  | _ => none

def operand (pair : Pair) : Built Located :=
  (⟨·, pair.start, pair.tokenEnd⟩) <$> unaryExpression source b pair

/-- Joins two operands. The one on the left has been built before, and its error comes first. -/
def join (left : Built Located) (operator : BinaryOperator) (pair : Pair) (right : Built Located) :
    Built Located := do
  let left ← left
  let right ← right
  let rightLead := gap source pair.stop right.start
  return ⟨.binary .empty left.expression (gap source left.stop pair.start) operator
    (right.expression.withLead rightLead), left.start, right.stop⟩

/-- Takes operators that bind tighter than `power`, and their operands, to the right of `left`. An
operator takes what binds tighter than itself into its right operand. The value is followed by the
pairs that are left, and `bound` is at least their number. -/
def climb : Nat → Nat → Built Located → List Pair → Built Located × List Pair
  | 0, _, left, rest => (left, rest)
  | _ + 1, _, left, [] => (left, [])
  | bound + 1, power, left, pair :: rest =>
    match operatorOf pair, rest with
    | none, _ => (pair.unexpected "a binary operator", [])
    | some operator, rest =>
      if power < operator.precedence then
        match rest with
        | [] => (pair.unexpected "an operand", [])
        | first :: rest =>
          let (right, rest) := climb bound operator.precedence (operand source b first) rest
          climb bound power (join source left operator pair right) rest
      else (left, pair :: rest)

/-- A chain of operands and operators, which starts with an operand. -/
def binary (pair : Pair) : Built Expression :=
  match pair.inner with
  | [] => pair.unexpected "an operand"
  | first :: rest =>
    Located.expression <$> (climb source b rest.length 0 (operand source b first) rest).1

/-! ## Expressions -/

def assignmentOperator (pair : Pair) : Built AssignmentOperator :=
  match AssignmentOperator.all.find? (·.symbol == pair.text source) with
  | some operator => .ok operator
  | none => pair.unexpected "an assignment operator"

def assignment (pair : Pair) : Built Expression := pair.walk source do
  let target ← child .unaryExpression fun _ => unaryExpression source b
  let (operatorLead, operator) ← expect .assignmentOperator
  let operator ← assignmentOperator source operator
  let value ← child .expression b.expression
  return .assignment .empty target operatorLead operator value

/-- The branches of a conditional expression. -/
def branches (questionLead : Trivia) : Building (Expression → Expression) := do
  let thenPart ← child .expression b.expression
  let colonLead ← token .colon
  let elsePart ← child .expression b.expression
  return fun condition => .conditional .empty condition questionLead thenPart colonLead elsePart

def conditional (pair : Pair) : Built Expression := pair.walk source do
  let condition ← child .binaryExpression fun _ => binary source b
  let finish ← whenFound (nextIf .question) fun lead _ => branches b lead
  return finish.getD id condition

/-- What an expression consists of. -/
def assignmentOrConditional (pair : Pair) : Built Expression :=
  match pair.rule with
  | .assignment => assignment source b pair
  | .conditionalExpression => conditional source b pair
  | _ => pair.unexpected "an expression"

def expression (lead : Trivia) (pair : Pair) : Built Expression :=
  Expression.withLead lead <$> pair.walk source do
    let (_, inner) ← expectAny "an expression"
    assignmentOrConditional source b inner

end LosslessJava.Grammar.Build
