import LosslessJava.Grammar.Parser
import LosslessJava.Tree.Lead

/-!
# Terminals

Parsers for single words, literals, delimiters and operators. A terminal keeps the trivia in front
of it.
-/

namespace LosslessJava.Grammar

open LosslessJava.Grammar.Parser

/-! ## Words -/

/-- The next token is a word of which `f` makes a value. -/
def acceptWord {α : Type} (f : String → Option α) : List Lexeme → Option ((Trivia × α) × Nat)
  | ⟨lead, .word text⟩ :: _ => (f text).map fun a => ((lead, a), 1)
  | _ => none

/-- A word of which `f` makes a value. -/
def wordOf {α : Type} (rule : Rule) (f : String → Option α) : Parser (Trivia × α) :=
  token rule (acceptWord f)

/-- The word itself. -/
def keyword (rule : Rule) (word : String) : Parser Trivia :=
  Prod.fst <$> wordOf rule fun text => if text = word then some () else none

/-- A word that is not reserved. -/
def asIdentifier (text : String) : Option String :=
  if reservedWords.contains text then none else some text

def identifier : Parser Identifier :=
  (fun (lead, name) => ⟨lead, name, none⟩) <$> wordOf .identifier asIdentifier

/-- A segment of a dotted name, with no trivia around its dot. -/
def segment : Parser String :=
  tightMark '.' *> (Prod.snd <$> tightToken .identifier (acceptWord asIdentifier))

/-- A dotted name without trivia in it. -/
def dottedName (bound : Nat) : Parser (Trivia × QualifiedName) :=
  (fun (first : Identifier) rest => (first.lead, ⟨first.name :: rest, by simp⟩)) <$> identifier <*>
    many bound segment

def qualifiedName (bound : Nat) : Parser (Trivia × QualifiedName) :=
  compound .qualifiedName (dottedName bound)

/-! ## Literals -/

/-- The next token is a literal of the kind. -/
def acceptLiteral (kind : LiteralKind) : List Lexeme → Option (Literal × Nat)
  | ⟨lead, .literal k text⟩ :: _ =>
    if k = kind then some (⟨lead, (kind.decode text.toList).getD .null, text⟩, 1) else none
  | _ => none

/-- A literal of the kind. One that denotes no value is taken here as well. -/
def literalOf (rule : Rule) (kind : LiteralKind) : Parser Literal := token rule (acceptLiteral kind)

def booleanLiteral : Parser Literal :=
  (fun (lead, value) => (Literal.boolean value).withLead lead) <$>
    wordOf .booleanLiteral fun text =>
      if text = "true" then some true else if text = "false" then some false else none

def nullLiteral : Parser Literal := Literal.null.withLead <$> keyword .nullLiteral "null"

def literal : Parser Literal :=
  literalOf .floatingLiteral .floating <|> literalOf .integerLiteral .integer <|>
  literalOf .characterLiteral .character <|> literalOf .stringLiteral .string <|>
  booleanLiteral <|> nullLiteral

/-! ## Delimiters and operators -/

/-- The tokens start with the marks, without trivia in front of any. -/
def startsTight : List Char → List Lexeme → Bool
  | [], _ => true
  | c :: cs, ⟨lead, .mark d⟩ :: ls => lead.isEmpty && c == d && startsTight cs ls
  | _ :: _, _ => false

/-- The next token is one of the marks, without trivia in front of it. -/
def continues (marks : List Char) (ls : List Lexeme) : Bool :=
  marks.any fun c => startsTight [c] ls

/-- The next tokens are the characters of a symbol, and none of the marks `stop` follows. -/
def acceptSymbol (symbol : String) (stop : List Char) : List Lexeme → Option (Trivia × Nat)
  | ⟨lead, .mark d⟩ :: ls =>
    match symbol.toList with
    | [] => none
    | c :: cs =>
      if c == d && startsTight cs ls && !continues stop (ls.drop cs.length) then
        some (lead, cs.length + 1)
      else none
  | _ => none

/-- A symbol that none of the marks `stop` follows. -/
def symbol (rule : Rule) (text : String) (stop : List Char) : Parser Trivia :=
  token rule (acceptSymbol text stop)

def delimiter (rule : Rule) (text : String) : Parser Trivia := symbol rule text []

def semicolon : Parser Trivia := delimiter .semicolon ";"
def comma : Parser Trivia := delimiter .comma ","
def dot : Parser Trivia := delimiter .dot "."
def leftParenthesis : Parser Trivia := delimiter .leftParenthesis "("
def rightParenthesis : Parser Trivia := delimiter .rightParenthesis ")"
def leftBrace : Parser Trivia := delimiter .leftBrace "\x7b"
def rightBrace : Parser Trivia := delimiter .rightBrace "\x7d"
def leftBracket : Parser Trivia := delimiter .leftBracket "["
def rightBracket : Parser Trivia := delimiter .rightBracket "]"
def less : Parser Trivia := delimiter .less "<"
def greater : Parser Trivia := delimiter .greater ">"
def at_ : Parser Trivia := delimiter .at "@"
def question : Parser Trivia := delimiter .question "?"
def colon : Parser Trivia := delimiter .colon ":"
def equals : Parser Trivia := symbol .equals "=" ['=']

/-- The first of the symbols that the tokens start with. -/
def acceptSymbolOf {α : Type} (table : List (α × String × List Char)) (ls : List Lexeme) :
    Option ((Trivia × α) × Nat) :=
  table.findSome? fun (a, text, stop) =>
    (acceptSymbol text stop ls).map fun (lead, count) => ((lead, a), count)

/-- An operator of the table. -/
def symbolOf {α : Type} (rule : Rule) (table : List (α × String × List Char)) :
    Parser (Trivia × α) :=
  token rule (acceptSymbolOf table)

/-- The operators in front of an operand, longer ones first. -/
def prefixOperators : List PrefixOperator :=
  [.increment, .decrement, .not, .complement, .positive, .negative]

def prefixOperator : Parser (Trivia × PrefixOperator) :=
  symbolOf .prefixOperator (prefixOperators.map fun o => (o, o.symbol, []))

def postfixOperator : Parser (Trivia × PostfixOperator) :=
  symbolOf .postfixOperator
    ([PostfixOperator.increment, .decrement].map fun o => (o, o.symbol, []))

/-- The assignment operators. A single `=` is not the start of `==`. -/
def assignmentOperators : List (AssignmentOperator × String × List Char) :=
  AssignmentOperator.all.map fun o => (o, o.symbol, if o = .assign then ['='] else [])

def assignmentOperator : Parser (Trivia × AssignmentOperator) :=
  symbolOf .assignmentOperator assignmentOperators

/-- The binary operators, each with the marks that would make another operator of it. -/
def binaryOperators : List (BinaryOperator × List Char) :=
  [(.or, []), (.and, []), (.bitOr, ['|', '=']), (.bitXor, ['=']), (.bitAnd, ['&', '=']),
   (.equal, []), (.notEqual, []), (.lessThanOrEqual, []), (.greaterThanOrEqual, []),
   (.shiftLeft, ['=']), (.unsignedShiftRight, ['=']), (.shiftRight, ['>', '=']),
   (.lessThan, ['<', '=']), (.greaterThan, ['>', '=']), (.add, ['+', '=']),
   (.subtract, ['-', '=']), (.multiply, ['=']), (.divide, ['=']), (.modulo, ['='])]

def binaryOperator : Parser (Trivia × BinaryOperator) :=
  (binaryOperators.map fun (o, stop) =>
    (·, o) <$> symbol (.binaryOperator o) o.symbol stop).foldr (fun p q => p <|> q) fail

/-! ## Lists -/

/-- Elements and the trivia in front of the commas between them. -/
def padded {α : Type} (first : α) : List (Trivia × α) → List (Padded α)
  | [] => [⟨first, .empty⟩]
  | (after, next) :: rest => ⟨first, after⟩ :: padded next rest

/-- One or more elements with commas between them. -/
def separated {α : Type} (bound : Nat) (p : Parser α) : Parser (List (Padded α)) :=
  padded <$> p <*> many bound (Prod.mk <$> comma <*> p)

/-- A list between delimiters. -/
def delimited {α : Type} (bound : Nat) (opening : Parser Trivia) (p : Parser α)
    (closing : Parser Trivia) : Parser (Delimited α) :=
  (fun before elements close => ⟨before, elements.getD [], close⟩) <$> opening <*>
    optional (separated bound p) <*> closing

end LosslessJava.Grammar
