import LosslessJava.Literal.Binary64
import LosslessJava.Literal.Escape
import LosslessJava.Trivia
import LosslessJava.Type.Primitive

/-!
# Literals

The value of a literal and the reading of it from the literal's text.

* `LiteralKind.decode`: the value of a text of that kind, `none` when it has none.
* `Literal.string`: a literal that denotes a given string.
-/

namespace LosslessJava

/-- The kinds of literals whose text can fail to denote a value. -/
inductive LiteralKind where
  | integer | floating | character | string
deriving DecidableEq

/-- The value of a literal. Both floating point types are kept in 64-bit precision. -/
inductive LiteralValue where
  | int (value : Int)
  | long (value : Int)
  | float (value : Binary64)
  | double (value : Binary64)
  | char (value : Char)
  | string (value : String)
  | boolean (value : Bool)
  | null
deriving DecidableEq

namespace LiteralValue

def type : LiteralValue → Primitive
  | int _ => .int
  | long _ => .long
  | float _ => .float
  | double _ => .double
  | char _ => .char
  | string _ => .string
  | boolean _ => .boolean
  | null => .null

end LiteralValue

namespace LiteralKind

/-- The name of the kind in error reports. -/
def name : LiteralKind → String
  | integer => "integer"
  | floating => "floating point"
  | character => "character"
  | string => "string"

/-- The text between the quotes. -/
def body (text : List Char) : List Char := text.tail.dropLast

/-- A suffix of a floating point literal. -/
def isFloatingSuffix (c : Char) : Bool := c == 'f' || c == 'F' || c == 'd' || c == 'D'

/-- The value denoted by a literal of this kind. -/
def decode (kind : LiteralKind) (text : List Char) : Option LiteralValue :=
  match kind with
  | integer =>
    (Integer.value? text).map fun v => if Integer.isLong text then .long v else .int v
  | floating =>
    let number := Binary64.ofText (text.filter fun c => !isFloatingSuffix c)
    some (if text.getLast?.any fun c => c == 'f' || c == 'F' then .float number else .double number)
  | character =>
    match Escape.decode (body text) with
    | some [c] => some (.char c)
    | _ => none
  | string => (Escape.decode (body text)).map fun cs => .string (String.ofList cs)

end LiteralKind

/-- A literal with its value and the text that denotes it. -/
structure Literal where
  lead : Trivia
  value : LiteralValue
  source : String
deriving DecidableEq

namespace Literal

def int (value : Int) : Literal := ⟨.empty, .int value, toString value⟩

def boolean (value : Bool) : Literal :=
  ⟨.empty, .boolean value, if value then "true" else "false"⟩

def null : Literal := ⟨.empty, .null, "null"⟩

/-- A string literal, with escapes where they are needed. -/
def string (value : String) : Literal :=
  ⟨.empty, .string value, String.ofList ('"' :: Escape.encode value.toList ++ ['"'])⟩

end Literal

end LosslessJava
