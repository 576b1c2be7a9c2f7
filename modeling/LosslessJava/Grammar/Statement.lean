import LosslessJava.Grammar.Variable

/-!
# Grammar of statements

An `else` belongs to the nearest `if` before it, because the optional clause of the inner statement
is read first.
-/

namespace LosslessJava.Grammar

open LosslessJava.Grammar.Parser

def block (r : Rules) : Parser Block :=
  named .block (Block.mk <$> leftBrace <*> many r.bound r.blockStatement <*> rightBrace)

def returnStatement (r : Rules) : Parser Return :=
  named .returnStatement <|
    Return.mk <$> keyword .returnWord "return" <*> optional r.expression <*> semicolon

def throwStatement (r : Rules) : Parser Statement :=
  named .throwStatement <|
    Statement.throwing <$> keyword .throwWord "throw" <*> r.expression <*> semicolon

def condition (r : Rules) : Parser Condition :=
  named .condition (Condition.mk <$> leftParenthesis <*> r.expression <*> rightParenthesis)

def elseClause (r : Rules) : Parser (Trivia × Statement) :=
  named .elseClause (Prod.mk <$> keyword .elseWord "else" <*> r.statement)

def ifStatement (r : Rules) : Parser Statement :=
  named .ifStatement <|
    (fun lead condition thenPart elsePart =>
      match elsePart with
      | some (elseLead, elsePart) => .fork lead condition thenPart elseLead elsePart
      | none => .branch lead condition thenPart) <$>
      keyword .ifWord "if" <*> condition r <*> r.statement <*> optional (elseClause r)

def whileStatement (r : Rules) : Parser Statement :=
  named .whileStatement <|
    Statement.loop <$> keyword .whileWord "while" <*> condition r <*> r.statement

def emptyStatement : Parser Statement := named .emptyStatement (Statement.empty <$> semicolon)

def expressionStatement (r : Rules) : Parser Statement :=
  named .expressionStatement <|
    (fun (e : Expression) terminator => .expression e.lead e.bare terminator) <$>
      expression r <*> semicolon

def statement (r : Rules) : Parser Statement :=
  Statement.block <$> block r <|> Statement.ret <$> returnStatement r <|> throwStatement r <|>
    ifStatement r <|> whileStatement r <|> emptyStatement <|> expressionStatement r

/-- A statement of a block, which can declare variables. -/
def blockStatement (r : Rules) : Parser Statement :=
  Statement.declaration <$> variableDeclarations r <|> statement r

end LosslessJava.Grammar
