/-!
# Integer literals

The value of an integer literal as it is written: `10`, `0x1F`, `0b101`, `017`, with underscores
between digits and an optional suffix `l` or `L`.

A decimal literal may reach one past the largest signed value, so that the smallest value can be
written as a negation. Other radixes fill the whole word and are read as two's complement.
-/

namespace LosslessJava.Integer

/-- A suffix that makes the literal long. -/
def isLongSuffix (c : Char) : Bool := c == 'l' || c == 'L'

/-- The radix of a literal without suffix and underscores, and its digits in that radix. -/
def radixed : List Char → Nat × List Char
  | '0' :: c :: ds =>
    if c == 'x' || c == 'X' then (16, ds)
    else if c == 'b' || c == 'B' then (2, ds)
    else (8, c :: ds)
  | ds => (10, ds)

/-- The value of a digit of any radix up to sixteen. -/
def digitValue (c : Char) : Option Nat :=
  if c.isDigit then some (c.toNat - '0'.toNat)
  else if 'a' ≤ c ∧ c ≤ 'f' then some (c.toNat - 'a'.toNat + 10)
  else if 'A' ≤ c ∧ c ≤ 'F' then some (c.toNat - 'A'.toNat + 10)
  else none

/-- The digit in the given radix. -/
def digitIn (radix : Nat) (c : Char) : Option Nat :=
  (digitValue c).filter (· < radix)

/-- The value of a list of digits, `none` when there are none or one is no digit of the radix. -/
def digitsIn (radix : Nat) : List Char → Option Nat
  | [] => none
  | ds => ds.foldlM (fun value c => (digitIn radix c).map (value * radix + ·)) 0

/-- The bits of a word of the literal's type. -/
def wordSize (long : Bool) : Nat := if long then 64 else 32

/-- The value of a magnitude written in `radix` in a word of the literal's type, `none` when it does
not fit. -/
def inWord (long : Bool) (radix magnitude : Nat) : Option Int :=
  let words := Nat.pow 2 (wordSize long)
  if radix = 10 then
    if magnitude ≤ words / 2 then some (if long then (magnitude : Int).bmod words else magnitude)
    else none
  else if magnitude < words then some ((magnitude : Int).bmod words)
  else none

/-- Whether the literal is long. -/
def isLong (text : List Char) : Bool := text.getLast?.any isLongSuffix

/-- The value of an integer literal, `none` when a digit is wrong or the value is too large. -/
def value? (text : List Char) : Option Int :=
  let digits := (text.filter fun c => !isLongSuffix c && c != '_')
  let (radix, digits) := radixed digits
  (digitsIn radix digits).bind (inWord (isLong text) radix)

end LosslessJava.Integer
