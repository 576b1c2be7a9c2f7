import LosslessJava.Grammar.Parser
import LosslessJava.Tree.Node

/-!
# Recursive rules

The rules that the grammar refers to from inside other rules. Each rule is defined over the rules
for what lies deeper in the text. A reference to them always stands behind a token, so that a text
of `n` tokens needs no more than `n` levels of them.
-/

namespace LosslessJava.Grammar

/-- Parsers for the recursive rules, and the number of repetitions that they allow. -/
structure Rules where
  bound : Nat
  type : Parser TypeTree
  unary : Parser Expression
  expression : Parser Expression
  classBody : Parser ClassBody
  statement : Parser Statement
  blockStatement : Parser Statement

namespace Rules

/-- Rules that read nothing. -/
def none : Rules := ⟨0, .fail, .fail, .fail, .fail, .fail, .fail⟩

end Rules

end LosslessJava.Grammar
