import LosslessJava.Grammar.Rule
import LosslessJava.Literal.Value
import LosslessJava.Location

/-!
# Errors of parsing

A text is refused where it stops being legal, or at its first literal that denotes no value.
-/

namespace LosslessJava

inductive ParseFault where
  /-- The text cannot be continued; the rules could have continued it. -/
  | unexpectedInput (expected : List Grammar.Rule)
  /-- The literal `found` denotes no value of its kind. -/
  | invalidLiteral (kind : LiteralKind) (found : String)
deriving DecidableEq

structure ParseError where
  /-- The path of the text, if it has one. -/
  path : Option String
  location : Location
  fault : ParseFault
deriving DecidableEq

namespace ParseError

/-- How error reports name the text. -/
def sourceName (e : ParseError) : String := e.path.getD "<source>"

def message (e : ParseError) : String :=
  match e.fault with
  | .unexpectedInput _ => "Syntax error at " ++ e.location.text
  | .invalidLiteral kind found =>
    "Invalid " ++ kind.name ++ " literal \x60" ++ found ++ "\x60 at " ++ e.location.text

def code (e : ParseError) : String :=
  match e.fault with
  | .unexpectedInput _ => "jrewrite::parse::syntax"
  | .invalidLiteral _ _ => "jrewrite::parse::invalid_literal"

def help (e : ParseError) : Option String :=
  match e.fault with
  | .unexpectedInput expected => some ("Expected " ++ Grammar.expectation expected)
  | .invalidLiteral _ _ => none

/-- The text beside the marked place. -/
def label (e : ParseError) : String :=
  match e.fault with
  | .unexpectedInput _ => "unexpected input"
  | .invalidLiteral kind _ => "invalid " ++ kind.name ++ " literal"

/-- The bytes that are marked from the location on. -/
def length (e : ParseError) : Nat :=
  match e.fault with
  | .unexpectedInput _ => 0
  | .invalidLiteral _ found => found.utf8ByteSize

end ParseError

end LosslessJava
