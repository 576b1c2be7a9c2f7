import LosslessJava.Text.Alphabetic
import LosslessJava.Text.Numeric

/-!
# Identifiers

A segment of a qualified name starts with a letter, `_` or `$`, continues with letters, numerals,
`_` or `$`, and is no reserved word.
-/

namespace LosslessJava

/-- The words that are never identifiers. -/
def reservedWords : List String :=
  ["abstract", "assert", "boolean", "break", "byte", "case", "catch", "char", "class", "const",
   "continue", "default", "do", "double", "else", "enum", "extends", "false", "final", "finally",
   "float", "for", "goto", "if", "implements", "import", "instanceof", "int", "interface", "long",
   "native", "new", "null", "package", "private", "protected", "public", "return", "short",
   "static", "strictfp", "super", "switch", "synchronized", "this", "throw", "throws",
   "transient", "true", "try", "void", "volatile", "while"]

/-- A character that can start the segment of a name. -/
def isSegmentStart (c : Char) : Bool := isAlphabetic c || c == '_' || c == '$'

/-- A character that can continue the segment of a name. -/
def isSegmentPart (c : Char) : Bool :=
  isAlphabetic c || isNumeric c || c == '_' || c == '$'

/-- The text is a legal segment of a name. -/
def isIdentifier (text : String) : Bool :=
  match text.toList with
  | [] => false
  | c :: cs => isSegmentStart c && cs.all isSegmentPart && !reservedWords.contains text

end LosslessJava
