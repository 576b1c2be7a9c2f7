/-!
# Binary floating point numbers

A decimal number is rounded to the nearest number of the 64-bit binary format, and to the even one
of two equally near. Numbers that are too large become infinity.
-/

namespace LosslessJava

/-- The bits of a 64-bit binary floating point number. -/
structure Binary64 where
  bits : BitVec 64
deriving DecidableEq

namespace Binary64

/-- The bits of positive infinity. -/
def infinityBits : Nat := 2047 * Nat.pow 2 52

/-- The nearest integer to `num / den`, the even one of two. -/
def roundHalfEven (num den : Nat) : Nat :=
  let q := num / den
  let r := num % den
  if 2 * r > den || (2 * r == den && q % 2 == 1) then q + 1 else q

/-- The quotient `num / den` divided by `2 ^ e`, as numerator and denominator. -/
def scaled (num den : Nat) (e : Int) : Nat × Nat :=
  if 0 ≤ e then (num, den * Nat.pow 2 e.toNat) else (num * Nat.pow 2 (-e).toNat, den)

/-- The largest `k` with `2 ^ k ≤ num / den`, for positive arguments. -/
def floorLog (num den : Nat) : Int :=
  let k : Int := (Nat.log2 num : Int) - Nat.log2 den
  let (n, d) := scaled num den k
  if n < d then k - 1 else k

/-- The bits of the number nearest to `num / den`. A unit of the last place is `2 ^ e`, with the
smallest `e` that leaves 53 bits but never below `-1074`. -/
def ofQuotient (num den : Nat) : Nat :=
  if num = 0 then 0
  else
    let e := max (floorLog num den - 52) (-1074)
    let (n, d) := scaled num den e
    min ((e + 1074).toNat * Nat.pow 2 52 + roundHalfEven n d) infinityBits

/-- The number nearest to `significand * 10 ^ exponent`. Exponents far outside the range of the
format are settled without computing the power. -/
def ofDecimal (significand : Nat) (exponent : Int) : Binary64 :=
  let digits : Int := (Nat.toDigits 10 significand).length
  let bits :=
    if significand = 0 || digits + exponent < -400 then 0
    else if digits + exponent > 400 then infinityBits
    else if 0 ≤ exponent then ofQuotient (significand * Nat.pow 10 exponent.toNat) 1
    else ofQuotient significand (Nat.pow 10 (-exponent).toNat)
  ⟨BitVec.ofNat 64 bits⟩

/-! ## Decimal texts -/

/-- The value of a run of decimal digits. -/
def decimal (ds : List Char) : Nat :=
  ds.foldl (fun value c => value * 10 + (c.toNat - '0'.toNat)) 0

/-- The exponent after `e`, with an optional sign. -/
def signedDecimal : List Char → Int
  | '-' :: ds => -(decimal ds : Int)
  | '+' :: ds => decimal ds
  | ds => decimal ds

/-- The number written by digits, an optional fraction and an optional exponent. -/
def ofText (text : List Char) : Binary64 :=
  let (whole, rest) := text.span Char.isDigit
  let (fraction, rest) :=
    match rest with
    | '.' :: cs => cs.span Char.isDigit
    | cs => ([], cs)
  let exponent :=
    match rest with
    | c :: cs => if c == 'e' || c == 'E' then signedDecimal cs else 0
    | [] => 0
  ofDecimal (decimal (whole ++ fraction)) (exponent - fraction.length)

end Binary64

end LosslessJava
