import LosslessJava.Literal.Integer

/-!
# Escapes

The characters denoted by the body of a character or string literal.

* `Escape.decode`: the decoded body, `none` when an escape is malformed.
* `Escape.encode`: a body that denotes the given characters.
-/

namespace LosslessJava.Escape

/-- Escapes of one letter. -/
def letter? (c : Char) : Option Char :=
  match c with
  | 'b' => some '\x08'
  | 't' => some '\t'
  | 'n' => some '\n'
  | 'f' => some '\x0c'
  | 'r' => some '\r'
  | 's' => some ' '
  | '"' => some '"'
  | '\'' => some '\''
  | '\\' => some '\\'
  | _ => none

/-- The scalar value with this code. -/
def scalar? (code : Nat) : Option Char :=
  if h : code.isValidChar then some (Char.ofNatAux code h) else none

def isOctal (c : Char) : Bool := '0' ≤ c && c ≤ '7'

/-- At most three octal digits, and at most two after a first digit above `3`. -/
def octalDigits (cs : List Char) : List Char :=
  match cs with
  | [] => []
  | c :: _ => (cs.take (if c ≤ '3' then 3 else 2)).takeWhile isOctal

/-- Four hexadecimal digits, the first of which may be a plus sign. -/
def hexCode? : List Char → Option Nat
  | ['+', a, b, c] => Integer.digitsIn 16 [a, b, c]
  | [a, b, c, d] => Integer.digitsIn 16 [a, b, c, d]
  | _ => none

/-- The character of the escape that follows a backslash, and the text after it. -/
def next? : List Char → Option (Char × List Char)
  | [] => none
  | c :: cs =>
    if c == 'u' then
      let cs := cs.dropWhile (· == 'u')
      ((hexCode? (cs.take 4)).bind scalar?).map (·, cs.drop 4)
    else if isOctal c then
      let ds := octalDigits (c :: cs)
      ((Integer.digitsIn 8 ds).bind scalar?).map (·, (c :: cs).drop ds.length)
    else (letter? c).map (·, cs)

theorem length_of_next? {cs rest : List Char} {c : Char} (h : next? cs = some (c, rest)) :
    rest.length < cs.length := by
  cases cs with
  | nil => cases h
  | cons d ds =>
    simp only [next?] at h
    split at h
    · obtain ⟨x, _, heq⟩ := Option.map_eq_some_iff.mp h
      cases heq
      have := (List.dropWhile_suffix (l := ds) (· == 'u')).length_le
      simp only [List.length_drop, List.length_cons]
      omega
    · split at h
      · rename_i hd
        obtain ⟨x, _, heq⟩ := Option.map_eq_some_iff.mp h
        cases heq
        have : 0 < (octalDigits (d :: ds)).length := by
          simp only [octalDigits]
          split <;> simp [hd]
        simp only [List.length_drop, List.length_cons] at this ⊢
        omega
      · obtain ⟨x, _, heq⟩ := Option.map_eq_some_iff.mp h
        cases heq
        simp

/-- The characters that the body denotes, `none` when an escape is malformed. -/
def decode (cs : List Char) : Option (List Char) :=
  match cs with
  | [] => some []
  | c :: cs =>
    if c == '\\' then
      match _h : next? cs with
      | some (d, rest) => (decode rest).map (d :: ·)
      | none => none
    else (decode cs).map (c :: ·)
termination_by cs.length
decreasing_by
  · have := length_of_next? _h
    simp only [List.length_cons]
    omega
  · simp

/-- The body of a string literal for one character. -/
def encodeChar (c : Char) : List Char :=
  match c with
  | '"' => ['\\', '"']
  | '\\' => ['\\', '\\']
  | '\n' => ['\\', 'n']
  | '\r' => ['\\', 'r']
  | '\t' => ['\\', 't']
  | c => [c]

/-- The body of a string literal that denotes the given characters. -/
def encode (cs : List Char) : List Char := cs.flatMap encodeChar

end LosslessJava.Escape
