import LosslessJava.Grammar.Type

/-!
# Grammar of expressions

A chain of operands and binary operators is read as a flat list and then arranged by precedence.

* `Expression.attach`: puts one more operator and operand at the right of an expression.
* `expression`: the grammar rule. The first operand is read once, for assignments and other
  expressions alike.
-/

namespace LosslessJava

namespace Expression

/-! ## Nodes made of their first child -/

def ofBinary (left : Expression) (operatorLead : Trivia) (operator : BinaryOperator)
    (right : Expression) : Expression :=
  binary left.lead left.bare operatorLead operator right

def ofPostfixed (operand : Expression) (operatorLead : Trivia) (operator : PostfixOperator) :
    Expression :=
  postfixed operand.lead operand.bare operatorLead operator

def ofAssignment (target : Expression) (operatorLead : Trivia) (operator : AssignmentOperator)
    (value : Expression) : Expression :=
  assignment target.lead target.bare operatorLead operator value

def ofConditional (condition : Expression) (questionLead : Trivia) (thenPart : Expression)
    (colonLead : Trivia) (elsePart : Expression) : Expression :=
  conditional condition.lead condition.bare questionLead thenPart colonLead elsePart

def ofCall (name : Identifier) (arguments : Delimited Expression) : Expression :=
  call name.lead (name.withLead .empty) arguments none

/-- A name or a call of a name behind a target. -/
structure Selector where
  dotLead : Trivia
  name : Identifier
  arguments : Option (Delimited Expression)

def select (target : Expression) (s : Selector) : Expression :=
  match s.arguments with
  | some arguments =>
    invocation target.lead target.bare s.dotLead s.name arguments none
  | none => fieldAccess target.lead target.bare s.dotLead s.name none

/-! ## Precedence -/

/-- Puts an operator and its right operand behind an expression. The operator goes below a last
operator that binds less tightly, and above any other. -/
def attach (left : Expression) (operatorLead : Trivia) (operator : BinaryOperator)
    (right : Expression) : Expression :=
  match left with
  | binary lead first lastLead last second =>
    if last.precedence < operator.precedence then
      binary lead first lastLead last (attach second operatorLead operator right)
    else ofBinary (binary lead first lastLead last second) operatorLead operator right
  | left => ofBinary left operatorLead operator right

/-- The expression for a chain of operands and operators. -/
def ofChain (first : Expression) (rest : List ((Trivia × BinaryOperator) × Expression)) :
    Expression :=
  rest.foldl (fun left ((operatorLead, operator), right) =>
    left.attach operatorLead operator right) first

end Expression

namespace Grammar

open LosslessJava.Grammar.Parser

/-! ## Primary expressions -/

def arguments (r : Rules) : Parser (Delimited Expression) :=
  named .arguments (delimited r.bound leftParenthesis r.expression rightParenthesis)

def thisExpression : Parser Expression :=
  (Expression.self · none) <$> keyword .thisExpression "this"

def newClass (r : Rules) : Parser Expression :=
  named .newClass <|
    Expression.newClass <$> keyword .newWord "new" <*> r.type <*> arguments r <*>
      optional r.classBody

def methodCall (r : Rules) : Parser Expression :=
  named .methodCall (Expression.ofCall <$> identifier <*> arguments r)

def parenthesized (r : Rules) : Parser Expression :=
  named .parenthesized <|
    Expression.parentheses <$> leftParenthesis <*> r.expression <*> rightParenthesis

def primary (r : Rules) : Parser Expression :=
  Expression.literal <$> literal <|> thisExpression <|> newClass r <|> methodCall r <|>
    Expression.identifier <$> identifier <|> parenthesized r

/-! ## Operators -/

def selector (r : Rules) : Parser Expression.Selector :=
  named .methodSelector
    (.mk <$> dot <*> identifier <*> (some <$> arguments r)) <|>
  named .fieldSelector
    ((Expression.Selector.mk · · none) <$> dot <*> identifier)

def postfixExpression (r : Rules) : Parser Expression :=
  named .postfixExpression <|
    List.foldl Expression.select <$> primary r <*> many r.bound (selector r)

def unaryExpression (r : Rules) : Parser Expression :=
  named .unaryExpression <|
    (fun (lead, operator) operand => Expression.prefixed lead operator operand) <$>
      prefixOperator <*> r.unary <|>
    (fun operand operator =>
      match operator with
      | some (operatorLead, operator) => operand.ofPostfixed operatorLead operator
      | none => operand) <$> postfixExpression r <*> optional postfixOperator

/-- The operators and operands behind the first operand. -/
def chain (r : Rules) : Parser (List ((Trivia × BinaryOperator) × Expression)) :=
  around .binaryExpression (many r.bound (Prod.mk <$> binaryOperator <*> unaryExpression r))

/-- The branches of a conditional expression. -/
def branches (r : Rules) : Parser (Expression → Expression) :=
  (fun questionLead thenPart colonLead elsePart condition =>
    condition.ofConditional questionLead thenPart colonLead elsePart) <$>
    question <*> r.expression <*> colon <*> r.expression

/-- The operator and value of an assignment. -/
def assigned (r : Rules) : Parser (Expression → Expression) :=
  around .assignment <|
    (fun (operatorLead, operator) value target =>
      target.ofAssignment operatorLead operator value) <$> assignmentOperator <*> r.expression

/-- What makes an expression other than an assignment of its first operand. -/
def computed (r : Rules) : Parser (Expression → Expression) :=
  around .conditionalExpression <|
    (fun rest finish first => finish.getD id (Expression.ofChain first rest)) <$>
      chain r <*> optional (branches r)

/-- An assignment, or else a chain of operands with optional branches. Both start with an operand,
which is read once, in front of the rule that it belongs to. -/
def expression (r : Rules) : Parser Expression :=
  summary .expression <|
    (fun first finish => finish first) <$> unaryExpression r <*> (assigned r <|> computed r)

end Grammar

end LosslessJava
