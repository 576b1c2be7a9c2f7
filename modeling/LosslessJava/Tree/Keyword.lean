/-!
# Keywords and operators of the tree

The finite sets of keywords and operator symbols that nodes are made with.
-/

namespace LosslessJava

/-! ## Modifiers -/

inductive ModifierKind where
  | accessPublic | accessProtected | accessPrivate | static | final | abstract | native
  | synchronized | transient | volatile | strictfp | default
deriving DecidableEq

namespace ModifierKind

def keyword : ModifierKind → String
  | accessPublic => "public"
  | accessProtected => "protected"
  | accessPrivate => "private"
  | static => "static"
  | final => "final"
  | abstract => "abstract"
  | native => "native"
  | synchronized => "synchronized"
  | transient => "transient"
  | volatile => "volatile"
  | strictfp => "strictfp"
  | default => "default"

def all : List ModifierKind :=
  [accessPublic, accessProtected, accessPrivate, static, final, abstract, native, synchronized,
   transient, volatile, strictfp, default]

def ofKeyword? (word : String) : Option ModifierKind := all.find? fun k => k.keyword == word

end ModifierKind

/-! ## Classes and type bounds -/

inductive ClassKind where
  | ordinary | interface
deriving DecidableEq

namespace ClassKind

def keyword : ClassKind → String
  | ordinary => "class"
  | interface => "interface"

def ofKeyword? (word : String) : Option ClassKind :=
  [ordinary, interface].find? fun k => k.keyword == word

end ClassKind

/-- The direction of a wildcard's bound. -/
inductive BoundKind where
  | upper | lower
deriving DecidableEq

namespace BoundKind

def keyword : BoundKind → String
  | upper => "extends"
  | lower => "super"

def ofKeyword? (word : String) : Option BoundKind :=
  [upper, lower].find? fun k => k.keyword == word

end BoundKind

/-! ## Operators -/

inductive BinaryOperator where
  | or | and | bitOr | bitXor | bitAnd | equal | notEqual | lessThan | lessThanOrEqual
  | greaterThan | greaterThanOrEqual | shiftLeft | shiftRight | unsignedShiftRight | add
  | subtract | multiply | divide | modulo
deriving DecidableEq

namespace BinaryOperator

def symbol : BinaryOperator → String
  | or => "||"
  | and => "&&"
  | bitOr => "|"
  | bitXor => "^"
  | bitAnd => "&"
  | equal => "=="
  | notEqual => "!="
  | lessThan => "<"
  | lessThanOrEqual => "<="
  | greaterThan => ">"
  | greaterThanOrEqual => ">="
  | shiftLeft => "<<"
  | shiftRight => ">>"
  | unsignedShiftRight => ">>>"
  | add => "+"
  | subtract => "-"
  | multiply => "*"
  | divide => "/"
  | modulo => "%"

/-- The level of the operator; a higher one binds tighter. -/
def precedence : BinaryOperator → Nat
  | or => 1
  | and => 2
  | bitOr => 3
  | bitXor => 4
  | bitAnd => 5
  | equal | notEqual => 6
  | lessThan | lessThanOrEqual | greaterThan | greaterThanOrEqual => 7
  | shiftLeft | shiftRight | unsignedShiftRight => 8
  | add | subtract => 9
  | multiply | divide | modulo => 10

end BinaryOperator

/-- Operators in front of their operand. -/
inductive PrefixOperator where
  | increment | decrement | positive | negative | complement | not
deriving DecidableEq

namespace PrefixOperator

def symbol : PrefixOperator → String
  | increment => "++"
  | decrement => "--"
  | positive => "+"
  | negative => "-"
  | complement => "~"
  | not => "!"

end PrefixOperator

/-- Operators behind their operand. -/
inductive PostfixOperator where
  | increment | decrement
deriving DecidableEq

namespace PostfixOperator

def symbol : PostfixOperator → String
  | increment => "++"
  | decrement => "--"

end PostfixOperator

inductive AssignmentOperator where
  | assign | add | subtract | multiply | divide | modulo | bitAnd | bitOr | bitXor | shiftLeft
  | shiftRight | unsignedShiftRight
deriving DecidableEq

namespace AssignmentOperator

def symbol : AssignmentOperator → String
  | assign => "="
  | add => "+="
  | subtract => "-="
  | multiply => "*="
  | divide => "/="
  | modulo => "%="
  | bitAnd => "&="
  | bitOr => "|="
  | bitXor => "^="
  | shiftLeft => "<<="
  | shiftRight => ">>="
  | unsignedShiftRight => ">>>="

def all : List AssignmentOperator :=
  [assign, add, subtract, multiply, divide, modulo, bitAnd, bitOr, bitXor, shiftLeft, shiftRight,
   unsignedShiftRight]

def ofSymbol? (symbol : String) : Option AssignmentOperator :=
  all.find? fun o => o.symbol == symbol

end AssignmentOperator

end LosslessJava
