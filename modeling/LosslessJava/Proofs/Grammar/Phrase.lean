import LosslessJava.Lex.Token

/-!
# Phrases

What the tokens of a grammatical piece of text have in common, whatever the piece is.

* `Nested s`: parentheses and braces pair up. A semicolon stands right inside braces, and with `s`
  also outside of all brackets.
* `Solid`: no token is a stray character of an unfinished literal or comment.
* `Phrase s`: both. Phrases one behind the other make a phrase.
* `Opens`: the first token can start a statement, a declaration or an expression.
-/

namespace LosslessJava.Grammar

/-- The tokens of lexemes. -/
def tokens (ls : List Lexeme) : List Token := ls.map Lexeme.token

@[simp] theorem tokens_nil : tokens [] = [] := rfl

@[simp] theorem tokens_cons (l : Lexeme) (ls : List Lexeme) :
    tokens (l :: ls) = l.token :: tokens ls := rfl

@[simp] theorem tokens_append (xs ys : List Lexeme) :
    tokens (xs ++ ys) = tokens xs ++ tokens ys := List.map_append

/-! ## Nesting -/

/-- The brackets that are open behind a token, innermost first. A brace is `true`, a parenthesis is
`false`; the last element stands for the place outside of all brackets. -/
def nest (stack : List Bool) : Token → Option (List Bool)
  | .word _ => some stack
  | .literal _ _ => some stack
  | .finish => none
  | .mark c =>
    if c = '(' then some (false :: stack)
    else if c = '{' then some (true :: stack)
    else if c = ')' then
      match stack with
      | false :: b :: rest => some (b :: rest)
      | _ => none
    else if c = '}' then
      match stack with
      | true :: b :: rest => some (b :: rest)
      | _ => none
    else if c = ';' ∧ stack.head? ≠ some true then none
    else some stack

/-- Brackets pair up. -/
def Nested (s : Bool) (ts : List Token) : Prop := ts.foldlM nest [s] = some [s]

theorem Nested.nil {s : Bool} : Nested s [] := rfl

theorem Nested.append {s : Bool} {ts us : List Token} (ht : Nested s ts) (hu : Nested s us) :
    Nested s (ts ++ us) := by
  have ht : ts.foldlM nest [s] = some [s] := ht
  rw [Nested, List.foldlM_append, ht]
  exact hu

theorem Nested.right {s : Bool} {ts us : List Token} (h : Nested s (ts ++ us))
    (ht : Nested s ts) : Nested s us := by
  have ht : ts.foldlM nest [s] = some [s] := ht
  rw [Nested, List.foldlM_append, ht] at h
  exact h

/-- What is open outside does not matter for a token. -/
theorem nest_below {stack result : List Bool} {t : Token} (h : nest stack t = some result)
    (base : List Bool) : nest (stack ++ base) t = some (result ++ base) := by
  cases t with
  | word _ => cases h; rfl
  | literal _ _ => cases h; rfl
  | finish => cases h
  | mark c =>
    simp only [nest] at h ⊢
    by_cases h1 : c = '('
    · simp only [h1, ↓reduceIte, Option.some.injEq] at h ⊢
      rw [← h]
      rfl
    by_cases h2 : c = '{'
    · simp only [h2, Char.reduceEq, ↓reduceIte, Option.some.injEq] at h ⊢
      rw [← h]
      rfl
    by_cases h3 : c = ')'
    · simp only [h3, Char.reduceEq, ↓reduceIte] at h ⊢
      match stack, h with
      | false :: b :: rest, h => cases h; rfl
    by_cases h4 : c = '}'
    · simp only [h4, Char.reduceEq, ↓reduceIte] at h ⊢
      match stack, h with
      | true :: b :: rest, h => cases h; rfl
    simp only [h1, h2, h3, h4, ↓reduceIte] at h ⊢
    by_cases h5 : c = ';' ∧ stack.head? ≠ some true
    · rw [if_pos h5] at h
      cases h
    · rw [if_neg h5] at h
      cases h
      rw [if_neg]
      rintro ⟨hc, hs⟩
      refine h5 ⟨hc, fun hh => hs ?_⟩
      rw [List.head?_append, hh]
      rfl

theorem foldlM_nest_below {ts : List Token} {stack result : List Bool}
    (h : ts.foldlM nest stack = some result) (base : List Bool) :
    ts.foldlM nest (stack ++ base) = some (result ++ base) := by
  induction ts generalizing stack with
  | nil =>
    cases h
    rfl
  | cons t ts ih =>
    rw [List.foldlM_cons] at h ⊢
    obtain ⟨middle, hm, hr⟩ := Option.bind_eq_some_iff.mp h
    rw [nest_below hm base]
    exact ih hr

/-- The token closes a bracket of the kind. -/
def Closing (s : Bool) (t : Token) : Prop := t = .mark (if s then '}' else ')')

/-- The token opens a bracket of the kind. -/
def Opening (s : Bool) (t : Token) : Prop := t = .mark (if s then '{' else '(')

theorem nest_opening {s : Bool} {t : Token} (h : Opening s t) (stack : List Bool) :
    nest stack t = some (s :: stack) := by
  rw [h]
  cases s <;> rfl

theorem nest_closing {s b : Bool} {t : Token} (h : Closing s t) (stack : List Bool) :
    nest (s :: b :: stack) t = some (b :: stack) := by
  rw [h]
  cases s <;> rfl

theorem Nested.bracket {s g : Bool} {ts : List Token} {opening closing : Token}
    (ho : Opening g opening) (h : Nested g ts) (hc : Closing g closing) :
    Nested s (opening :: ts ++ [closing]) := by
  have hts : ts.foldlM nest ([g] ++ [s]) = some ([g] ++ [s]) := foldlM_nest_below h [s]
  have hclose : nest ([g] ++ [s]) closing = some [s] := nest_closing hc []
  have hopen : nest [s] opening = some ([g] ++ [s]) := nest_opening ho [s]
  rw [Nested, List.foldlM_append, List.foldlM_cons, hopen]
  simp only [Option.bind_eq_bind, Option.bind_some, hts, List.foldlM_cons, hclose]
  rfl

/-- The same tokens nest where a semicolon may stand. -/
theorem nest_weaken {stack result : List Bool} {t : Token}
    (h : nest (stack ++ [false]) t = some result) :
    ∃ inner, result = inner ++ [false] ∧ nest (stack ++ [true]) t = some (inner ++ [true]) := by
  cases t with
  | word _ => cases h; exact ⟨stack, rfl, rfl⟩
  | literal _ _ => cases h; exact ⟨stack, rfl, rfl⟩
  | finish => cases h
  | mark c =>
    simp only [nest] at h ⊢
    by_cases h1 : c = '('
    · simp only [h1, ↓reduceIte, Option.some.injEq] at h ⊢
      exact ⟨false :: stack, h.symm, rfl⟩
    by_cases h2 : c = '{'
    · simp only [h2, Char.reduceEq, ↓reduceIte, Option.some.injEq] at h ⊢
      exact ⟨true :: stack, h.symm, rfl⟩
    by_cases h3 : c = ')'
    · simp only [h3, Char.reduceEq, ↓reduceIte] at h ⊢
      match stack, h with
      | [false], h => cases h; exact ⟨[], rfl, rfl⟩
      | false :: b :: rest, h => cases h; exact ⟨b :: rest, rfl, rfl⟩
    by_cases h4 : c = '}'
    · simp only [h4, Char.reduceEq, ↓reduceIte] at h ⊢
      match stack, h with
      | [true], h => cases h; exact ⟨[], rfl, rfl⟩
      | true :: b :: rest, h => cases h; exact ⟨b :: rest, rfl, rfl⟩
    simp only [h1, h2, h3, h4, ↓reduceIte] at h ⊢
    by_cases h5 : c = ';' ∧ (stack ++ [false]).head? ≠ some true
    · rw [if_pos h5] at h
      cases h
    · rw [if_neg h5] at h
      cases h
      refine ⟨stack, rfl, if_neg ?_⟩
      rintro ⟨hc, hs⟩
      refine h5 ⟨hc, fun hh => hs ?_⟩
      cases stack with
      | nil => rfl
      | cons b rest => exact hh

theorem foldlM_nest_weaken {ts : List Token} {stack result : List Bool}
    (h : ts.foldlM nest (stack ++ [false]) = some result) :
    ∃ inner, result = inner ++ [false] ∧
      ts.foldlM nest (stack ++ [true]) = some (inner ++ [true]) := by
  induction ts generalizing stack with
  | nil =>
    cases h
    exact ⟨stack, rfl, rfl⟩
  | cons t ts ih =>
    rw [List.foldlM_cons] at h ⊢
    obtain ⟨middle, hm, hr⟩ := Option.bind_eq_some_iff.mp h
    obtain ⟨inner, rfl, hinner⟩ := nest_weaken hm
    rw [hinner]
    exact ih hr

theorem Nested.weaken {s : Bool} {ts : List Token} (h : Nested false ts) : Nested s ts := by
  cases s with
  | false => exact h
  | true =>
    obtain ⟨inner, hi, hts⟩ := @foldlM_nest_weaken _ [] _ h
    cases inner with
    | nil => exact hts
    | cons b inner => simp at hi

/-- A token either stays inside a bracket or closes it. -/
theorem nest_inside {stack result : List Bool} {g s : Bool} {t : Token}
    (h : nest (stack ++ [g, s]) t = some result) :
    (∃ inner, result = inner ++ [g, s] ∧ nest (stack ++ [g]) t = some (inner ++ [g])) ∨
      stack = [] ∧ Closing g t ∧ result = [s] := by
  cases t with
  | word _ => cases h; exact Or.inl ⟨stack, rfl, rfl⟩
  | literal _ _ => cases h; exact Or.inl ⟨stack, rfl, rfl⟩
  | finish => cases h
  | mark c =>
    simp only [nest] at h ⊢
    by_cases h1 : c = '('
    · simp only [h1, ↓reduceIte, Option.some.injEq] at h ⊢
      exact Or.inl ⟨false :: stack, h.symm, rfl⟩
    by_cases h2 : c = '{'
    · simp only [h2, Char.reduceEq, ↓reduceIte, Option.some.injEq] at h ⊢
      exact Or.inl ⟨true :: stack, h.symm, rfl⟩
    by_cases h3 : c = ')'
    · simp only [h3, Char.reduceEq, ↓reduceIte] at h ⊢
      match stack, g, h with
      | [], false, h => cases h; exact Or.inr ⟨rfl, rfl, rfl⟩
      | [false], g, h => cases h; exact Or.inl ⟨[], rfl, rfl⟩
      | false :: b :: rest, g, h => cases h; exact Or.inl ⟨b :: rest, rfl, rfl⟩
    by_cases h4 : c = '}'
    · simp only [h4, Char.reduceEq, ↓reduceIte] at h ⊢
      match stack, g, h with
      | [], true, h => cases h; exact Or.inr ⟨rfl, rfl, rfl⟩
      | [true], g, h => cases h; exact Or.inl ⟨[], rfl, rfl⟩
      | true :: b :: rest, g, h => cases h; exact Or.inl ⟨b :: rest, rfl, rfl⟩
    simp only [h1, h2, h3, h4, ↓reduceIte] at h ⊢
    by_cases h5 : c = ';' ∧ (stack ++ [g, s]).head? ≠ some true
    · rw [if_pos h5] at h
      cases h
    · rw [if_neg h5] at h
      cases h
      refine Or.inl ⟨stack, rfl, if_neg ?_⟩
      rintro ⟨hc, hs⟩
      refine h5 ⟨hc, fun hh => hs ?_⟩
      cases stack with
      | nil => exact hh
      | cons b rest => exact hh

theorem foldlM_nest_split {ts : List Token} {stack : List Bool} {g s : Bool}
    (h : ts.foldlM nest (stack ++ [g, s]) = some [s]) :
    ∃ us t vs, ts = us ++ t :: vs ∧ us.foldlM nest (stack ++ [g]) = some [g] ∧ Closing g t ∧
      Nested s vs := by
  induction ts generalizing stack with
  | nil =>
    have := congrArg List.length (Option.some.inj h)
    simp at this
  | cons t ts ih =>
    rw [List.foldlM_cons] at h
    obtain ⟨middle, hm, hr⟩ := Option.bind_eq_some_iff.mp h
    rcases nest_inside hm with ⟨inner, rfl, hinner⟩ | ⟨rfl, hc, rfl⟩
    · obtain ⟨us, c, vs, rfl, hus, hc, hvs⟩ := ih hr
      refine ⟨t :: us, c, vs, rfl, ?_, hc, hvs⟩
      rw [List.foldlM_cons, hinner]
      exact hus
    · exact ⟨[], t, ts, rfl, rfl, hc, hr⟩

/-- The bracket that a nested list of tokens starts with is closed in it. -/
theorem Nested.split {s g : Bool} {t : Token} {ts : List Token} (h : Nested s (t :: ts))
    (ho : Opening g t) :
    ∃ us c vs, ts = us ++ c :: vs ∧ Nested g us ∧ Closing g c ∧ Nested s vs := by
  rw [Nested, List.foldlM_cons, nest_opening ho] at h
  exact @foldlM_nest_split _ [] _ _ h

/-- No bracket is closed before it is opened. -/
theorem Nested.not_closing {s g : Bool} {t : Token} {ts : List Token} (h : Nested s (t :: ts)) :
    ¬ Closing g t := by
  intro hc
  rw [Nested, List.foldlM_cons, hc] at h
  cases s <;> cases g <;> cases h

/-- Outside of braces there is no semicolon. -/
theorem Nested.not_semicolon {ts : List Token} : ¬ Nested false (.mark ';' :: ts) := by
  intro h
  cases h

/-! ## Solid tokens -/

/-- The token is no piece of an unfinished literal. -/
def isWhole : Token → Bool
  | .word _ => true
  | .literal _ _ => true
  | .mark c => !(c.isDigit || c == '"' || c == '\'')
  | .finish => false

/-- Whether a token is a slash, `none` if it is not whole or makes the start of a comment of the
slash before it. -/
def touch (slash : Bool) (t : Token) : Option Bool :=
  if isWhole t && !(slash && t == .mark '*') then some (t == .mark '/') else none

/-- All tokens are whole, and no two of them could be read as the start of a comment. -/
def Solid (ts : List Token) : Prop := ts.foldlM touch false = some false

theorem Solid.append {ts us : List Token} (ht : Solid ts) (hu : Solid us) : Solid (ts ++ us) := by
  have ht : ts.foldlM touch false = some false := ht
  rw [Solid, List.foldlM_append, ht]
  exact hu

/-! ## Phrases -/

/-- The token can be the first one of a statement, declaration or expression. -/
def opens (t : Token) : Bool := t != .mark '*' && t != .mark '}' && t != .word "else"

/-- The first token has the trivia in front of it, and can be that of a statement, declaration or
expression. -/
def Opens (t : Trivia) (xs : List Lexeme) : Prop :=
  ∃ l ls, xs = l :: ls ∧ l.lead = t ∧ opens l.token = true

theorem Opens.append {t : Trivia} {xs : List Lexeme} (h : Opens t xs) (ys : List Lexeme) :
    Opens t (xs ++ ys) := by
  obtain ⟨l, ls, rfl, hl⟩ := h
  exact ⟨l, ls ++ ys, rfl, hl⟩

theorem Opens.ne_nil {t : Trivia} {xs : List Lexeme} (h : Opens t xs) : xs ≠ [] := by
  obtain ⟨l, ls, rfl, -⟩ := h
  exact List.cons_ne_nil l ls

/-- A grammatical piece of text. With `s` there may be semicolons outside of all brackets. -/
structure Phrase (s : Bool) (xs : List Lexeme) : Prop where
  nested : Nested s (tokens xs)
  solid : Solid (tokens xs)

namespace Phrase

variable {s : Bool} {xs ys : List Lexeme}

theorem nil : Phrase s [] := ⟨rfl, rfl⟩

theorem append (hx : Phrase s xs) (hy : Phrase s ys) : Phrase s (xs ++ ys) := by
  constructor
  · rw [tokens_append]
    exact hx.nested.append hy.nested
  · rw [tokens_append]
    exact hx.solid.append hy.solid

theorem weaken (h : Phrase false xs) : Phrase s xs := ⟨h.nested.weaken, h.solid⟩

/-- No phrase goes beyond the end of a text. -/
theorem ne_finish {l : Lexeme} (h : Phrase s (l :: xs)) : l.token ≠ .finish := by
  intro hf
  have hn := h.nested
  rw [tokens_cons, Nested, List.foldlM_cons, hf] at hn
  cases hn

theorem single {l : Lexeme} (hn : nest [s] l.token = some [s])
    (ht : touch false l.token = some false) : Phrase s [l] := by
  constructor
  · rw [tokens_cons, Nested, List.foldlM_cons, hn]
    rfl
  · rw [tokens_cons, Solid, List.foldlM_cons, ht]
    rfl

theorem bracket {g : Bool} {o c : Lexeme} (ho : Opening g o.token) (h : Phrase g xs)
    (hc : Closing g c.token) : Phrase s (o :: xs ++ [c]) := by
  constructor
  · rw [tokens_append, tokens_cons]
    exact h.nested.bracket ho hc
  · have hsolid : Solid [o.token] := by
      rw [ho]
      cases g <;> rfl
    have hsolid' : Solid [c.token] := by
      rw [hc]
      cases g <;> rfl
    rw [tokens_append]
    exact (hsolid.append h.solid).append hsolid'

/-- The trivia in front of the tokens do not matter. -/
theorem of_tokens (h : Phrase s xs) (heq : tokens ys = tokens xs) : Phrase s ys :=
  ⟨heq ▸ h.nested, heq ▸ h.solid⟩

end Phrase

/-- An operator: a phrase, as soon as an operand follows. -/
def Joint (xs : List Lexeme) : Prop :=
  ∀ t ys, Opens t ys → ∀ s, Phrase s ys → Phrase s (xs ++ ys)

theorem touch_of_opens {t : Token} (h : opens t = true) (slash : Bool) :
    touch slash t = touch false t := by
  have hne : (t == .mark '*') = false := by
    simp only [opens, Bool.and_eq_true, bne_iff_ne, ne_eq] at h
    exact beq_eq_false_iff_ne.mpr h.1.1
  simp [touch, hne]

/-- Whether some tokens are an operator can be computed. -/
theorem joint_of_tokens {xs : List Lexeme} {slash : Bool} (hn : Nested false (tokens xs))
    (hs : (tokens xs).foldlM touch false = some slash) : Joint xs := by
  intro t ys hy s h
  refine ⟨?_, ?_⟩
  · rw [tokens_append]
    exact hn.weaken.append h.nested
  · have hsolid := h.solid
    obtain ⟨l, ls, rfl, -, hl⟩ := hy
    rw [tokens_append, Solid, List.foldlM_append, hs]
    simp only [tokens_cons, Option.bind_eq_bind, Option.bind_some, List.foldlM_cons,
      touch_of_opens hl slash]
    exact hsolid

end LosslessJava.Grammar
