import LosslessJava.Text.Letter

/-!
# Number tokens

The longest floating point or integer literal at the start of a text. A literal is followed by no
character of a word.
-/

namespace LosslessJava.Lex

/-- A character that can start a word. -/
def isWordStart (c : Char) : Bool := isLetter c || c == '_' || c == '$'

/-- A character that can continue a word. -/
def isWordPart (c : Char) : Bool := isLetter c || c.isDigit || c == '_' || c == '$'

/-- The text does not continue a word. -/
def atWordEnd (cs : List Char) : Bool := !(cs.head?.any isWordPart)

/-- A piece of a text and what follows it. -/
abbrev Cut := List Char × List Char

/-- The longest run of characters that satisfy `p`. -/
def run (p : Char → Bool) (cs : List Char) : Cut := (cs.takeWhile p, cs.dropWhile p)

/-- The first character, when it satisfies `p`. -/
def optionalChar (p : Char → Bool) : List Char → Cut
  | c :: cs => if p c then ([c], cs) else ([], c :: cs)
  | [] => ([], [])

/-- The optional sign, and what follows it. -/
def optionalSign : List Char → Cut := optionalChar fun c => c == '+' || c == '-'

/-- An exponent, with at least one digit. -/
def exponent? : List Char → Option Cut
  | c :: cs =>
    if c == 'e' || c == 'E' then
      let (sign, cs) := optionalSign cs
      let (digits, rest) := run Char.isDigit cs
      if digits.isEmpty then none else some (c :: sign ++ digits, rest)
    else none
  | [] => none

def optionalExponent (cs : List Char) : Cut := (exponent? cs).getD ([], cs)

def optionalFloatingSuffix : List Char → Cut :=
  optionalChar fun c => c == 'f' || c == 'F' || c == 'd' || c == 'D'

/-- Digits with a point, an exponent or a suffix after them. -/
def floatingCut? (cs : List Char) : Option Cut :=
  let (whole, rest) := run Char.isDigit cs
  if whole.isEmpty then none
  else
    match rest with
    | '.' :: rest =>
      let (fraction, rest) := run Char.isDigit rest
      let (exponent, rest) := optionalExponent rest
      let (suffix, rest) := optionalFloatingSuffix rest
      some (whole ++ '.' :: fraction ++ exponent ++ suffix, rest)
    | rest =>
      match exponent? rest with
      | some (exponent, rest) =>
        let (suffix, rest) := optionalFloatingSuffix rest
        some (whole ++ exponent ++ suffix, rest)
      | none =>
        let (suffix, rest) := optionalFloatingSuffix rest
        if suffix.isEmpty then none else some (whole ++ suffix, rest)

def isHexDigit (c : Char) : Bool :=
  c.isDigit || ('a' ≤ c && c ≤ 'f') || ('A' ≤ c && c ≤ 'F')

def isBinaryDigit (c : Char) : Bool := c == '0' || c == '1'

/-- A digit followed by digits and underscores. -/
def digitsCut? (isDigit : Char → Bool) : List Char → Option Cut
  | c :: cs =>
    if isDigit c then
      let (more, rest) := run (fun c => isDigit c || c == '_') cs
      some (c :: more, rest)
    else none
  | [] => none

/-- Digits after `0x` or `0b`. -/
def radixCut? : List Char → Option Cut
  | '0' :: c :: cs =>
    if c == 'x' || c == 'X' then
      (digitsCut? isHexDigit cs).map fun (digits, rest) => ('0' :: c :: digits, rest)
    else if c == 'b' || c == 'B' then
      (digitsCut? isBinaryDigit cs).map fun (digits, rest) => ('0' :: c :: digits, rest)
    else none
  | _ => none

def optionalLongSuffix : List Char → Cut := optionalChar fun c => c == 'l' || c == 'L'

/-- Digits of one of the radixes with an optional suffix. -/
def integerCut? (cs : List Char) : Option Cut :=
  ((radixCut? cs).or (digitsCut? Char.isDigit cs)).map fun (digits, rest) =>
    let (suffix, rest) := optionalLongSuffix rest
    (digits ++ suffix, rest)

/-- A floating point literal and the text after it. -/
def floating? (cs : List Char) : Option Cut :=
  (floatingCut? cs).filter fun (_, rest) => atWordEnd rest

/-- An integer literal and the text after it. -/
def integer? (cs : List Char) : Option Cut :=
  (integerCut? cs).filter fun (_, rest) => atWordEnd rest

/-! ## Cuts lose nothing -/

theorem append_run (p : Char → Bool) (cs : List Char) : (run p cs).1 ++ (run p cs).2 = cs :=
  List.takeWhile_append_dropWhile

theorem append_optionalChar (p : Char → Bool) (cs : List Char) :
    (optionalChar p cs).1 ++ (optionalChar p cs).2 = cs := by
  unfold optionalChar
  split
  · split <;> rfl
  · rfl

theorem append_of_exponent? {cs text rest : List Char} (h : exponent? cs = some (text, rest)) :
    text ++ rest = cs := by
  cases cs with
  | nil => cases h
  | cons c cs =>
    simp only [exponent?] at h
    split at h
    · split at h
      · cases h
      · cases h
        simp only [List.cons_append, List.append_assoc, append_run]
        exact congrArg _ (append_optionalChar _ cs)
    · cases h

theorem append_optionalExponent (cs : List Char) :
    (optionalExponent cs).1 ++ (optionalExponent cs).2 = cs := by
  unfold optionalExponent
  cases h : exponent? cs with
  | none => rfl
  | some cut => exact append_of_exponent? h

theorem append_of_digitsCut? {p : Char → Bool} {cs text rest : List Char}
    (h : digitsCut? p cs = some (text, rest)) : text ++ rest = cs := by
  cases cs with
  | nil => cases h
  | cons c cs =>
    simp only [digitsCut?] at h
    split at h
    · cases h
      simp only [List.cons_append, append_run]
    · cases h

theorem ne_nil_of_digitsCut? {p : Char → Bool} {cs text rest : List Char}
    (h : digitsCut? p cs = some (text, rest)) : text ≠ [] := by
  cases cs with
  | nil => cases h
  | cons c cs =>
    simp only [digitsCut?] at h
    split at h
    · cases h
      simp
    · cases h

theorem append_of_radixCut? {cs text rest : List Char} (h : radixCut? cs = some (text, rest)) :
    text ++ rest = cs := by
  unfold radixCut? at h
  split at h
  · split at h
    · obtain ⟨⟨digits, r⟩, hd, heq⟩ := Option.map_eq_some_iff.mp h
      cases heq
      simp [append_of_digitsCut? hd]
    · split at h
      · obtain ⟨⟨digits, r⟩, hd, heq⟩ := Option.map_eq_some_iff.mp h
        cases heq
        simp [append_of_digitsCut? hd]
      · cases h
  · cases h

theorem ne_nil_of_radixCut? {cs text rest : List Char} (h : radixCut? cs = some (text, rest)) :
    text ≠ [] := by
  unfold radixCut? at h
  split at h
  · split at h
    · obtain ⟨⟨digits, r⟩, hd, heq⟩ := Option.map_eq_some_iff.mp h
      cases heq
      simp
    · split at h
      · obtain ⟨⟨digits, r⟩, hd, heq⟩ := Option.map_eq_some_iff.mp h
        cases heq
        simp
      · cases h
  · cases h

theorem append_of_floatingCut? {cs text rest : List Char}
    (h : floatingCut? cs = some (text, rest)) : text ++ rest = cs ∧ text ≠ [] := by
  have hrun := append_run Char.isDigit cs
  simp only [floatingCut?] at h
  split at h
  · cases h
  · rename_i hw
    split at h
    · rename_i r hr
      cases h
      refine ⟨?_, by simp⟩
      refine Eq.trans ?_ (hr ▸ hrun)
      simp only [List.append_assoc, List.cons_append]
      refine congrArg _ (congrArg _ ?_)
      have h3 := append_run Char.isDigit r
      have h2 := append_optionalExponent (run Char.isDigit r).2
      have h1 := append_optionalChar (fun c => c == 'f' || c == 'F' || c == 'd' || c == 'D')
        (optionalExponent (run Char.isDigit r).2).2
      unfold optionalFloatingSuffix
      rw [h1, h2, h3]
    · split at h
      · rename_i exponent r hr
        cases h
        refine ⟨?_, by simp_all [List.isEmpty_iff]⟩
        rw [List.append_assoc, List.append_assoc]
        unfold optionalFloatingSuffix
        rw [append_optionalChar, append_of_exponent? hr]
        exact hrun
      · split at h
        · cases h
        · cases h
          refine ⟨?_, by simp_all [List.isEmpty_iff]⟩
          rw [List.append_assoc]
          unfold optionalFloatingSuffix
          rw [append_optionalChar]
          exact hrun

theorem append_of_integerCut? {cs text rest : List Char}
    (h : integerCut? cs = some (text, rest)) : text ++ rest = cs ∧ text ≠ [] := by
  obtain ⟨⟨digits, r⟩, hd, heq⟩ := Option.map_eq_some_iff.mp h
  have heq : (digits ++ (optionalLongSuffix r).1, (optionalLongSuffix r).2) = (text, rest) := heq
  obtain ⟨rfl, rfl⟩ := Prod.mk.inj heq
  have hs : (optionalLongSuffix r).1 ++ (optionalLongSuffix r).2 = r := append_optionalChar _ r
  rw [List.append_assoc, hs]
  rcases Option.or_eq_some_iff.mp hd with hd | ⟨_, hd⟩
  · exact ⟨append_of_radixCut? hd, by simp [ne_nil_of_radixCut? hd]⟩
  · exact ⟨append_of_digitsCut? hd, by simp [ne_nil_of_digitsCut? hd]⟩

theorem append_of_floating? {cs text rest : List Char} (h : floating? cs = some (text, rest)) :
    text ++ rest = cs ∧ text ≠ [] :=
  append_of_floatingCut? (Option.filter_eq_some_iff.mp h).1

theorem append_of_integer? {cs text rest : List Char} (h : integer? cs = some (text, rest)) :
    text ++ rest = cs ∧ text ≠ [] :=
  append_of_integerCut? (Option.filter_eq_some_iff.mp h).1

end LosslessJava.Lex
