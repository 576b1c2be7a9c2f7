import LosslessJava.Lex.Blank
import LosslessJava.Lex.Number
import LosslessJava.Lex.Quoted
import LosslessJava.Literal.Value

/-!
# Tokens

A text as a list of tokens, each with the trivia in front of it.

* `Lexeme.ofText`: the tokens of a text. Every text has tokens: a character that starts no longer
  token is a token of its own.
* `Token.next_cases`: which tokens a text can start with.
* `Lexeme.textOf_ofText`: the tokens and their trivia make up the text.
-/

namespace LosslessJava

inductive Token where
  /-- An identifier or a keyword. -/
  | word (text : String)
  | literal (kind : LiteralKind) (text : String)
  /-- One character of an operator or delimiter, or one that belongs to no token. -/
  | mark (c : Char)
  /-- The end of the text. -/
  | finish
deriving DecidableEq

/-- A token with the trivia in front of it. -/
structure Lexeme where
  lead : Trivia
  token : Token
deriving DecidableEq

namespace Token

def toList : Token → List Char
  | word text => text.toList
  | literal _ text => text.toList
  | mark c => [c]
  | finish => []

/-- The longest word at the start of the text. -/
def word? (cs : List Char) : Option (List Char × List Char) :=
  if cs.head?.any Lex.isWordStart then some (Lex.run Lex.isWordPart cs) else none

/-- A literal at the start of the text. -/
def literal? (cs : List Char) : Option (LiteralKind × List Char × List Char) :=
  ((Lex.floating? cs).map (LiteralKind.floating, ·)).or <|
  ((Lex.integer? cs).map (LiteralKind.integer, ·)).or <|
  ((Lex.character? cs).map (LiteralKind.character, ·)).or
  ((Lex.string? cs).map (LiteralKind.string, ·))

/-- The token at the start of the text, and the text after it. -/
def next (cs : List Char) : Token × List Char :=
  match cs with
  | [] => (finish, [])
  | c :: rest =>
    match word? cs with
    | some (text, rest) => (word (String.ofList text), rest)
    | none =>
      match literal? cs with
      | some (kind, text, rest) => (literal kind (String.ofList text), rest)
      | none => (mark c, rest)

theorem append_of_word? {cs text rest : List Char} (h : word? cs = some (text, rest)) :
    text ++ rest = cs ∧ text ≠ [] := by
  cases cs with
  | nil => cases h
  | cons c cs =>
    by_cases hc : Lex.isWordStart c = true
    · simp only [word?, List.head?_cons, Option.any_some, hc, ↓reduceIte, Option.some.injEq] at h
      cases h
      refine ⟨List.takeWhile_append_dropWhile, ?_⟩
      have hp : Lex.isWordPart c = true := by
        simp only [Lex.isWordStart, Bool.or_eq_true] at hc
        rcases hc with (h | h) | h <;> simp [Lex.isWordPart, h]
      simp [hp]
    · simp [word?, hc] at h

theorem append_of_literal? {cs text rest : List Char} {kind : LiteralKind}
    (h : literal? cs = some (kind, text, rest)) : text ++ rest = cs ∧ text ≠ [] := by
  simp only [literal?, Option.or_eq_some_iff, Option.map_eq_some_iff, Prod.mk.injEq] at h
  rcases h with ⟨⟨_, _⟩, h, _, rfl, rfl⟩ | ⟨_, ⟨⟨_, _⟩, h, _, rfl, rfl⟩ |
    ⟨_, ⟨⟨_, _⟩, h, _, rfl, rfl⟩ | ⟨_, ⟨_, _⟩, h, _, rfl, rfl⟩⟩⟩
  · exact Lex.append_of_floating? h
  · exact Lex.append_of_integer? h
  · exact Lex.append_of_character? h
  · exact Lex.append_of_string? h

/-- The three kinds of tokens at the start of a text. -/
theorem next_cases {cs rest : List Char} {t : Token} (hne : cs ≠ []) (h : next cs = (t, rest)) :
    (∃ w, word? cs = some (w, rest) ∧ t = word (String.ofList w)) ∨
    (∃ kind w, word? cs = none ∧ literal? cs = some (kind, w, rest) ∧
      t = literal kind (String.ofList w)) ∨
    ∃ c, word? cs = none ∧ cs = c :: rest ∧ t = mark c := by
  unfold next at h
  split at h
  · exact absurd rfl hne
  · rename_i c cs
    split at h
    · rename_i w r hw
      obtain ⟨rfl, rfl⟩ := Prod.mk.inj h
      exact Or.inl ⟨w, hw, rfl⟩
    · rename_i hw
      split at h
      · rename_i kind w r hl
        obtain ⟨rfl, rfl⟩ := Prod.mk.inj h
        exact Or.inr (Or.inl ⟨kind, w, hw, hl, rfl⟩)
      · obtain ⟨rfl, rfl⟩ := Prod.mk.inj h
        exact Or.inr (Or.inr ⟨c, hw, rfl, rfl⟩)

/-- A token and what follows it make up the text, and the token is not empty. -/
theorem append_of_next {cs rest : List Char} {t : Token} (hne : cs ≠ []) (h : next cs = (t, rest)) :
    t.toList ++ rest = cs ∧ t.toList ≠ [] := by
  rcases next_cases hne h with ⟨w, hw, rfl⟩ | ⟨kind, w, -, hl, rfl⟩ | ⟨c, -, rfl, rfl⟩
  · simpa [toList] using append_of_word? hw
  · simpa [toList] using append_of_literal? hl
  · exact ⟨rfl, List.cons_ne_nil c []⟩

theorem toList_append_next (cs : List Char) : (next cs).1.toList ++ (next cs).2 = cs := by
  by_cases hne : cs = []
  · rw [hne]
    rfl
  · exact (append_of_next hne (Prod.eta _).symm).1

theorem length_next_lt {cs : List Char} (h : cs ≠ []) : (next cs).2.length < cs.length := by
  obtain ⟨happend, hne⟩ := append_of_next h (Prod.eta _).symm
  have hlength := congrArg List.length happend
  have hpos := List.length_pos_iff.mpr hne
  rw [List.length_append] at hlength
  omega

end Token

namespace Lexeme

def toList (l : Lexeme) : List Char := l.lead.toList ++ l.token.toList

/-- The text that the lexemes make up. -/
def textOf (ls : List Lexeme) : List Char := ls.flatMap toList

/-- The tokens of a text, the last of which is its end. -/
def ofText (cs : List Char) : List Lexeme :=
  let blank := Lex.skip cs
  if _h : blank.2 = [] then [⟨.ofList blank.1, .finish⟩]
  else ⟨.ofList blank.1, (Token.next blank.2).1⟩ :: ofText (Token.next blank.2).2
termination_by cs.length
decreasing_by
  exact Nat.lt_of_lt_of_le (Token.length_next_lt _h) (Lex.length_skip_le cs)

theorem textOf_ofText (cs : List Char) : textOf (ofText cs) = cs := by
  fun_induction ofText cs with
  | case1 cs blank h =>
    have := Lex.append_skip cs
    simp_all [textOf, toList, Token.toList, blank]
  | case2 cs blank h ih =>
    have h1 := Lex.append_skip cs
    have h2 := Token.toList_append_next blank.2
    simp only [textOf] at ih
    simp only [textOf, List.flatMap_cons, toList, Trivia.toList_ofList, List.append_assoc, ih, h2]
    exact h1

end Lexeme

end LosslessJava
