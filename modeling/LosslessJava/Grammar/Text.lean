import LosslessJava.Grammar.Build.Declaration
import LosslessJava.ParseError

/-!
# Reading of texts

* `Grammar.read`: takes a text apart into pairs, and builds a tree of them.
* `parseUnit`, `parseStatement`, `parseExpression`: a whole text as a tree, or the error in it.
-/

namespace LosslessJava

namespace Grammar

open LosslessJava.Grammar.Parser

/-! ## The recursive rules -/

/-- The rules for texts with fewer than `depth` tokens. A rule is built over those for what lies
deeper when it is used. -/
def rules : Nat → Rules
  | 0 => .none
  | depth + 1 =>
    { bound := depth + 1
      type := later fun _ => typeReference (rules depth)
      unary := later fun _ => unaryExpression (rules depth)
      expression := later fun _ => expression (rules depth)
      classBody := later fun _ => classBody (rules depth)
      statement := later fun _ => statement (rules depth)
      blockStatement := later fun _ => blockStatement (rules depth) }

/-! ## Whole texts -/

/-- The rule of a text that holds nothing but the value and trivia behind it. -/
def only {α : Type} (p : Parser α) : Parser α := p <* endOfInput

/-- The rules that could have continued the text where it stops being legal, and the offset. The
rule of the whole text starts in front of the first trivia. -/
def failuresOf {α : Type} (rule : Rule) (p : Parser α) (ls : List Lexeme) : Failures :=
  match p.account ⟨0, ls⟩ .initial with
  | (_, f) => f.note rule 0 0

/-- The error of the builders as an error in the text. A pair that is not expected would count as a
text that the grammar refuses; the grammar makes none. -/
def BuildError.located (path : Option String) (source : List Char) (e : BuildError) : ParseError :=
  ⟨path, .ofOffset source e.offset,
    match e.fault with
    | .invalidLiteral kind found => .invalidLiteral kind found
    | .unexpectedRule _ _ => .unexpectedInput []⟩

/-- Takes a text apart as the grammar rule says, and builds a tree of its pairs. The pair of the
whole text starts in front of the first trivia. -/
def read {α : Type} (path : Option String) (rule : Rule) (p : Rules → Parser α)
    (build : List Char → Builders → Pair → Built α) (source : String) : Except ParseError α :=
  let cs := source.toList
  let ls := Lexeme.ofText cs
  let depth := ls.length + 1
  let p := p (rules depth)
  match p.pairs [] ⟨0, ls⟩ with
  | none =>
    let f := failuresOf rule p ls
    .error ⟨path, .ofOffset cs f.offset, .unexpectedInput f.rules.toList⟩
  | some m =>
    (build cs (builders cs depth) ⟨rule, 0, m.stop, m.pairs⟩).mapError (·.located path cs)

end Grammar

open Grammar

/-- The unit written by the text, without attribution. -/
def parseUnit (path : Option String) (source : String) : Except ParseError CompilationUnit :=
  (fun u => { u with path }) <$>
    read path .compilationUnit compilationUnit Build.compilationUnit source

/-- The statement written by the text. -/
def parseStatement (source : String) : Except ParseError Statement :=
  read none .statementText (fun r => only (blockStatement r)) Build.statementText source

/-- The expression written by the text. -/
def parseExpression (source : String) : Except ParseError Expression :=
  read none .expressionText (fun r => only (expression r)) Build.expressionText source

end LosslessJava
