/-!
# Quoted tokens

The character or string literal at the start of a text, with its quotes. A backslash takes the
character after it along, whatever it is.
-/

namespace LosslessJava.Lex

/-- The text through the closing quote of a string literal. -/
def stringEnd? : List Char → Option (List Char × List Char)
  | '"' :: cs => some (['"'], cs)
  | '\\' :: c :: cs => (stringEnd? cs).map fun (body, rest) => ('\\' :: c :: body, rest)
  | ['\\'] => none
  | '\n' :: _ => none
  | '\r' :: _ => none
  | c :: cs => (stringEnd? cs).map fun (body, rest) => (c :: body, rest)
  | [] => none

/-- The text through the next single quote. -/
def quoteEnd? : List Char → Option (List Char × List Char)
  | '\'' :: cs => some (['\''], cs)
  | c :: cs => (quoteEnd? cs).map fun (body, rest) => (c :: body, rest)
  | [] => none

/-- A string literal and the text after it. -/
def string? : List Char → Option (List Char × List Char)
  | '"' :: cs => (stringEnd? cs).map fun (body, rest) => ('"' :: body, rest)
  | _ => none

/-- A character literal and the text after it. -/
def character? : List Char → Option (List Char × List Char)
  | '\'' :: '\\' :: c :: cs =>
    (quoteEnd? cs).map fun (body, rest) => ('\'' :: '\\' :: c :: body, rest)
  | '\'' :: c :: '\'' :: cs =>
    if c == '\'' || c == '\\' || c == '\n' || c == '\r' then none
    else some (['\'', c, '\''], cs)
  | _ => none

theorem append_of_stringEnd? {cs text rest : List Char} (h : stringEnd? cs = some (text, rest)) :
    text ++ rest = cs := by
  fun_induction stringEnd? cs generalizing text rest with
  | case1 cs =>
    cases h
    rfl
  | case2 c cs ih =>
    obtain ⟨⟨body, r⟩, hb, heq⟩ := Option.map_eq_some_iff.mp h
    cases heq
    simp [ih hb]
  | case3 => cases h
  | case4 => cases h
  | case5 => cases h
  | case6 c cs _ _ _ _ _ ih =>
    obtain ⟨⟨body, r⟩, hb, heq⟩ := Option.map_eq_some_iff.mp h
    cases heq
    simp [ih hb]
  | case7 => cases h

theorem append_of_quoteEnd? {cs text rest : List Char} (h : quoteEnd? cs = some (text, rest)) :
    text ++ rest = cs := by
  fun_induction quoteEnd? cs generalizing text rest with
  | case1 cs =>
    cases h
    rfl
  | case2 c cs _ ih =>
    obtain ⟨⟨body, r⟩, hb, heq⟩ := Option.map_eq_some_iff.mp h
    cases heq
    simp [ih hb]
  | case3 => cases h

theorem append_of_string? {cs text rest : List Char} (h : string? cs = some (text, rest)) :
    text ++ rest = cs ∧ text ≠ [] := by
  unfold string? at h
  split at h
  · obtain ⟨⟨body, r⟩, hb, heq⟩ := Option.map_eq_some_iff.mp h
    cases heq
    simp [append_of_stringEnd? hb]
  · cases h

theorem append_of_character? {cs text rest : List Char} (h : character? cs = some (text, rest)) :
    text ++ rest = cs ∧ text ≠ [] := by
  unfold character? at h
  split at h
  · obtain ⟨⟨body, r⟩, hb, heq⟩ := Option.map_eq_some_iff.mp h
    cases heq
    simp [append_of_quoteEnd? hb]
  · split at h
    · cases h
    · cases h
      simp
  · cases h

end LosslessJava.Lex
