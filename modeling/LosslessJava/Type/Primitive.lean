/-!
# Primitive types

The primitive types of the language, with the types of string and null literals.
-/

namespace LosslessJava

/-- A type named by a keyword, or the type of a string or null literal. -/
inductive Primitive where
  | boolean | byte | char | double | float | int | long | short | void | string | null
deriving DecidableEq

namespace Primitive

def keyword : Primitive → String
  | boolean => "boolean"
  | byte => "byte"
  | char => "char"
  | double => "double"
  | float => "float"
  | int => "int"
  | long => "long"
  | short => "short"
  | void => "void"
  | string => "String"
  | null => "null"

/-- The primitive types that have a keyword. -/
def keywords : List Primitive :=
  [boolean, byte, char, double, float, int, long, short, void]

/-- The type of a keyword. The types of string and null literals have none. -/
def ofKeyword? (word : String) : Option Primitive :=
  keywords.find? fun p => p.keyword == word

end Primitive

end LosslessJava
