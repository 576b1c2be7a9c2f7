import LosslessJava.Proofs.Grammar.Reading.Type
import LosslessJava.Proofs.Lex.Steady
import Mathlib.Data.List.Forall2

/-!
# Texts that are lexed piece by piece

Lexemes that end with a brace or a semicolon are the lexemes of their text wherever the text
stands, if they were so in one place, and if none of their tokens is left over from a literal or a
comment that was not complete. Other white space and comments between them do not matter either,
as long as they start with the same character.

* `Relexed`: lexemes that come back in front of any text.
* `Regapped`: lexemes with the same tokens and such other gaps.
* `ofText_regapped`: solid lexemes that were read off a text come back in front of another text.
* `relexed_regapped`: they do so in front of any text, up to a brace or a semicolon.
-/

namespace LosslessJava

open Grammar

/-! ## Tokens in another place -/

namespace Lex

variable {f : List Char → Option Cut} {cs text rest more t : List Char}

theorem SteadyOption.some (hf : SteadyOption f) (hrest : Halts cs rest) (hmore : Halts cs more)
    (h : f (cs ++ rest) = some (t, text ++ rest)) : f (cs ++ more) = some (t, text ++ more) := by
  rw [hf cs rest hrest] at h
  obtain ⟨⟨t', text'⟩, hcut, heq⟩ := Option.map_eq_some_iff.mp h
  obtain ⟨rfl, htext⟩ := Prod.mk.inj heq
  obtain rfl : text' = text := List.append_cancel_right htext
  rw [hf cs more hmore, hcut]
  rfl

theorem SteadyOption.none (hf : SteadyOption f) (hrest : Halts cs rest) (hmore : Halts cs more)
    (h : f (cs ++ rest) = none) : f (cs ++ more) = none := by
  rw [hf cs rest hrest] at h
  rw [hf cs more hmore, Option.map_eq_none_iff.mp h]
  rfl

/-- The texts start alike, up to a place that no number goes beyond in either of them. -/
def Level (a b : List Char) : Prop :=
  ∃ cs rest more, a = cs ++ rest ∧ b = cs ++ more ∧ Halts cs rest ∧ Halts cs more

namespace Level

variable {a b : List Char}

theorem append (h : Level a b) (cs : List Char) : Level (cs ++ a) (cs ++ b) := by
  obtain ⟨ds, rest, more, rfl, rfl, hrest, hmore⟩ := h
  exact ⟨cs ++ ds, rest, more, (List.append_assoc ..).symm, (List.append_assoc ..).symm,
    hrest.append cs, hmore.append cs⟩

theorem of_first (ha : ∀ c ∈ a.head?, isNumberPart c = false)
    (hb : ∀ c ∈ b.head?, isNumberPart c = false) : Level a b :=
  ⟨[], a, b, rfl, rfl, .inr ha, .inr hb⟩

theorem of_stopped {cs : List Char} (h : Stopped cs) (a b : List Char) :
    Level (cs ++ a) (cs ++ b) :=
  ⟨cs, a, b, rfl, rfl, .inl h, .inl h⟩

end Level

end Lex

namespace Token

open LosslessJava.Lex

theorem isNumberPart_of_isWordStart {c : Char} (hc : isWordStart c = true) :
    isNumberPart c = true := by
  apply isNumberPart_of_isWordPart
  simp only [isWordStart, Bool.or_eq_true] at hc
  rcases hc with (hc | hc) | hc <;> simp [isWordPart, hc]

theorem steady_word : SteadyOption word? := by
  intro cs more h
  have hrun : run isWordPart (cs ++ more) = (run isWordPart cs).append more :=
    steady_run (fun c => isNumberPart_of_isWordPart) cs more h
  cases cs with
  | nil =>
    cases more with
    | nil => rfl
    | cons c more => simp [word?, h.first_eq_false fun c => isNumberPart_of_isWordStart]
  | cons c cs =>
    rw [List.cons_append] at hrun ⊢
    by_cases hc : isWordStart c = true
    · simp [word?, hc, hrun]
    · simp [word?, hc]

/-- The character starts no literal. -/
theorem literal_eq_none {c : Char} (hc : isWhole (.mark c) = true) (cs : List Char) :
    literal? (c :: cs) = none := by
  have hne : c.isDigit = false ∧ c ≠ '"' ∧ c ≠ '\'' := by
    simpa [isWhole, and_assoc] using hc
  obtain ⟨hdigit, hquote, happ⟩ := hne
  have hzero : c ≠ '0' := by
    rintro rfl
    cases hdigit
  have hfloating : floating? (c :: cs) = none := by
    simp [floating?, floatingCut?, run, hdigit]
  have hinteger : integer? (c :: cs) = none := by
    simp [integer?, integerCut?, radixCut_eq_none hzero, digitsCut?, hdigit]
  have hcharacter : character? (c :: cs) = none := by
    unfold character?
    split
    · rename_i heq
      exact absurd (List.cons.inj heq).1 happ
    · rename_i heq
      exact absurd (List.cons.inj heq).1 happ
    · rfl
  have hstring : string? (c :: cs) = none := by
    unfold string?
    split
    · rename_i heq
      exact absurd (List.cons.inj heq).1 hquote
    · rfl
  simp [literal?, hfloating, hinteger, hcharacter, hstring]

theorem literal_steady {kind : LiteralKind} {t text rest more : List Char}
    (hrest : Halts (t ++ text) rest) (hmore : Halts (t ++ text) more)
    (h : literal? (t ++ text ++ rest) = some (kind, t, text ++ rest)) :
    literal? (t ++ text ++ more) = some (kind, t, text ++ more) := by
  simp only [literal?, Option.or_eq_some_iff, Option.map_eq_some_iff, Prod.mk.injEq,
    Option.map_eq_none_iff] at h ⊢
  rcases h with ⟨_, h, rfl, rfl⟩ | ⟨hfloating, h⟩
  · exact Or.inl ⟨_, steady_floating.some hrest hmore h, rfl, rfl⟩
  refine Or.inr ⟨steady_floating.none hrest hmore hfloating, ?_⟩
  rcases h with ⟨_, h, rfl, rfl⟩ | ⟨hinteger, h⟩
  · exact Or.inl ⟨_, steady_integer.some hrest hmore h, rfl, rfl⟩
  refine Or.inr ⟨steady_integer.none hrest hmore hinteger, ?_⟩
  rw [List.append_assoc] at h ⊢
  rcases h with ⟨_, h, rfl, rfl⟩ | ⟨-, _, h, rfl, rfl⟩
  · exact Or.inl ⟨_, character_prefix h _, rfl, rfl⟩
  · -- A text that starts with a double quote is no character literal.
    have hstring := string_prefix h (text ++ more)
    refine Or.inr ⟨?_, _, hstring, rfl, rfl⟩
    unfold string? at hstring
    split at hstring
    · rename_i heq
      rw [heq]
      rfl
    · cases hstring

theorem next_of_word {cs w rest : List Char} (h : word? cs = some (w, rest)) :
    next cs = (word (String.ofList w), rest) := by
  cases cs with
  | nil => cases h
  | cons c cs => simp only [next, h]

theorem next_of_literal {cs w rest : List Char} {kind : LiteralKind} (hw : word? cs = none)
    (h : literal? cs = some (kind, w, rest)) :
    next cs = (literal kind (String.ofList w), rest) := by
  cases cs with
  | nil => cases h
  | cons c cs => simp only [next, hw, h]

theorem next_of_mark {c : Char} {cs : List Char} (hw : word? (c :: cs) = none)
    (hc : isWhole (.mark c) = true) : next (c :: cs) = (mark c, cs) := by
  simp only [next, hw, literal_eq_none hc]

/-- A whole token is the same in front of a text that starts alike. -/
theorem next_level {t : Token} {a b : List Char} (ht : isWhole t = true) (hab : Level a b)
    (h : next (t.toList ++ a) = (t, a)) : next (t.toList ++ b) = (t, b) := by
  obtain ⟨text, rest, more, rfl, rfl, hrest, hmore⟩ := hab
  have hne : t.toList ++ (text ++ rest) ≠ [] := by
    intro hnil
    rw [hnil] at h
    obtain ⟨rfl, -⟩ := Prod.mk.inj h
    cases ht
  rcases next_cases hne h with ⟨w, hw, rfl⟩ | ⟨kind, w, hw, hl, rfl⟩ | ⟨c, hw, -, rfl⟩
  · rw [← List.append_assoc] at hw ⊢
    exact next_of_word (steady_word.some (hrest.append _) (hmore.append _) hw)
  · simp only [toList, String.toList_ofList, ← List.append_assoc] at hw hl ⊢
    exact next_of_literal (steady_word.none (hrest.append _) (hmore.append _) hw)
      (literal_steady (hrest.append _) (hmore.append _) hl)
  · rw [← List.append_assoc] at hw ⊢
    exact next_of_mark (steady_word.none (hrest.append _) (hmore.append _) hw) ht

end Token

/-! ## Gaps in another place -/

namespace Lex

theorem skip_eq_nil {c : Char} {cs : List Char} (hc : isSpace c = false)
    (hcomment : comment? (c :: cs) = none) : skip (c :: cs) = ([], c :: cs) := by
  rw [skip]
  simp only [hc, Bool.false_eq_true, ↓reduceIte]
  split
  · rename_i h'
    rw [hcomment] at h'
    cases h'
  · rfl

theorem comment_eq_none {c : Char} (hc : c ≠ '/') (cs : List Char) : comment? (c :: cs) = none := by
  unfold comment?
  split
  · rename_i heq
    exact absurd (List.cons.inj heq).1 hc
  · rename_i heq
    exact absurd (List.cons.inj heq).1 hc
  · rfl

/-- No comment starts with the character, unless it is a slash and the next one makes it so. -/
theorem skip_of_first {c : Char} {cs : List Char} (hc : isSpace c = false)
    (hd : c = '/' → ∀ d ∈ cs.head?, d ≠ '/' ∧ d ≠ '*') : skip (c :: cs) = ([], c :: cs) := by
  apply skip_eq_nil hc
  by_cases hslash : c = '/'
  · unfold comment?
    split
    · rename_i heq
      cases heq
      exact absurd rfl (hd rfl '/' rfl).1
    · rename_i heq
      cases heq
      exact absurd rfl (hd rfl '*' rfl).2
    · rfl
  · exact comment_eq_none hslash _

theorem first_of_skip {c : Char} {cs : List Char} (h : skip (c :: cs) = ([], c :: cs)) :
    isSpace c = false ∧ (c = '/' → ∀ d ∈ cs.head?, d ≠ '/') := by
  constructor
  · cases hc : isSpace c with
    | false => rfl
    | true =>
      rw [skip_space hc] at h
      cases (Prod.mk.inj h).1
  · rintro rfl d hd rfl
    obtain ⟨cs, rfl⟩ := List.head?_eq_some_iff.mp hd
    have hcomment : comment? ('/' :: '/' :: cs) = some ('/' :: '/' :: cs.takeWhile (!isLineEnd ·),
      cs.dropWhile (!isLineEnd ·)) := rfl
    rw [skip_comment hcomment] at h
    cases (Prod.mk.inj h).1

theorem isNumberPart_of_isSpace {c : Char} (hc : isSpace c = true) : isNumberPart c = false := by
  simp only [isSpace, Bool.or_eq_true, beq_iff_eq] at hc
  rcases hc with (((rfl | rfl) | rfl) | rfl) | rfl <;> decide

/-- A gap starts with white space or a slash. -/
theorem IsGap.first {final : Bool} {cs : List Char} (h : IsGap final cs) :
    ∀ c ∈ cs.head?, isNumberPart c = false := by
  have hslash : isNumberPart '/' = false := by decide
  cases h with
  | nil => simp
  | space hc _ => simpa using isNumberPart_of_isSpace hc
  | blockComment _ _ => simpa using hslash
  | lineComment _ _ _ => simpa using hslash
  | lastComment _ _ => simpa using hslash

theorem IsGap.first_append {final : Bool} {gap cs : List Char} (h : IsGap final gap)
    (hcs : gap = [] → ∀ c ∈ cs.head?, isNumberPart c = false) :
    ∀ c ∈ (gap ++ cs).head?, isNumberPart c = false := by
  cases gap with
  | nil => exact hcs rfl
  | cons d gap => exact h.first

end Lex

/-! ## Lexemes in another place -/

namespace Lexeme

theorem ofText_of_next {cs lead body rest : List Char} {t : Token}
    (hskip : Lex.skip cs = (lead, body)) (hne : body ≠ []) (hnext : Token.next body = (t, rest)) :
    ofText cs = ⟨.ofList lead, t⟩ :: ofText rest := by
  rw [ofText]
  simp only [hskip, hnext, dif_neg hne]

theorem ofText_eq_cons {cs : List Char} {l : Lexeme} {ls : List Lexeme} (h : ofText cs = l :: ls)
    (hl : l.token ≠ .finish) : ∃ rest, Lex.skip cs = (l.lead.toList, l.token.toList ++ rest) ∧
      Token.next (l.token.toList ++ rest) = (l.token, rest) ∧ ofText rest = ls := by
  rw [ofText] at h
  by_cases hnil : (Lex.skip cs).2 = []
  · simp only [dif_pos hnil, List.cons.injEq] at h
    rw [← h.1] at hl
    exact absurd rfl hl
  · simp only [dif_neg hnil, List.cons.injEq] at h
    obtain ⟨rfl, rfl⟩ := h
    have hbody := Token.toList_append_next (Lex.skip cs).2
    refine ⟨(Token.next (Lex.skip cs).2).2, ?_, ?_, rfl⟩
    · rw [hbody]
      simp
    · rw [hbody]

theorem ofText_nil : ofText [] = [⟨.ofList [], .finish⟩] := by
  rw [ofText]
  simp [Lex.skip]

/-- The lexemes come back in front of any text. -/
def Relexed (xs : List Lexeme) : Prop := ∀ more, ofText (textOf xs ++ more) = xs ++ ofText more

theorem Relexed.append {xs ys : List Lexeme} (hx : Relexed xs) (hy : Relexed ys) :
    Relexed (xs ++ ys) := by
  intro more
  rw [textOf_append, List.append_assoc, hx, hy, List.append_assoc]

/-- A mark that starts nothing longer, whatever follows it. -/
theorem ofText_mark {t : Trivia} {c : Char} (ht : Lex.IsGap false t.toList)
    (hwhole : isWhole (.mark c) = true) (hstart : Lex.isWordStart c = false)
    (hspace : Lex.isSpace c = false) (hslash : c ≠ '/') (more : List Char) :
    ofText (t.toList ++ c :: more) = ⟨t, .mark c⟩ :: ofText more := by
  have hskip : Lex.skip (t.toList ++ c :: more) = (t.toList, c :: more) := by
    rw [Lex.skip_append_of_isGap ht, Lex.skip_eq_nil hspace (Lex.comment_eq_none hslash more)]
    simp
  have hword : Token.word? (c :: more) = none := by simp [Token.word?, hstart]
  rw [ofText_of_next hskip (by simp) (Token.next_of_mark hword hwhole), Trivia.ofList_toList]

/-- A brace or a semicolon. -/
theorem relexed_mark {t : Trivia} {c : Char} (ht : Lex.IsGap false t.toList)
    (hc : c = '{' ∨ c = '}' ∨ c = ';') : Relexed [⟨t, .mark c⟩] := by
  intro more
  have htext : textOf [⟨t, .mark c⟩] ++ more = t.toList ++ c :: more := by
    simp [toList, Token.toList]
  rw [htext]
  rcases hc with rfl | rfl | rfl <;>
    exact ofText_mark ht rfl (by decide) rfl (by decide) more

/-- A text that makes no comment of a slash in front of it. -/
def KeepsSlash (cs : List Char) : Prop := ∀ c ∈ cs.head?, c ≠ '/' ∧ c ≠ '*'

theorem ne_finish_of_isWhole {t : Token} (h : isWhole t = true) : t ≠ .finish := by
  rintro rfl
  cases h

theorem token_ne_nil {t : Token} {a : List Char} (ht : isWhole t = true)
    (hnext : Token.next (t.toList ++ a) = (t, a)) : t.toList ≠ [] := by
  intro hnil
  rw [hnil, List.nil_append] at hnext
  cases a with
  | nil =>
    obtain ⟨rfl, -⟩ := Prod.mk.inj hnext
    cases ht
  | cons c a =>
    have hlt := Token.length_next_lt (List.cons_ne_nil c a)
    rw [hnext] at hlt
    exact Nat.lt_irrefl _ hlt

/-- In front of a token there is nothing to skip, whatever follows it. -/
theorem skip_token {t : Token} {a b : List Char} (hne : t.toList ≠ [])
    (hskip : Lex.skip (t.toList ++ a) = ([], t.toList ++ a))
    (hnext : Token.next (t.toList ++ a) = (t, a)) (hslash : t = .mark '/' → KeepsSlash b) :
    Lex.skip (t.toList ++ b) = ([], t.toList ++ b) := by
  obtain ⟨c, cs, ht⟩ := List.exists_cons_of_ne_nil hne
  rw [ht, List.cons_append] at hskip hnext ⊢
  refine Lex.skip_of_first (Lex.first_of_skip hskip).1 ?_
  rintro rfl
  have hstart : Lex.isWordStart '/' = false := by decide
  have hmark : Token.next ('/' :: (cs ++ a)) = (.mark '/', cs ++ a) :=
    Token.next_of_mark (by simp [Token.word?, hstart]) rfl
  rw [hmark] at hnext
  obtain ⟨rfl, -⟩ := Prod.mk.inj hnext
  obtain rfl : cs = [] := (List.cons.inj ht).2.symm
  exact hslash rfl

theorem ofText_of_bare {lead : Trivia} {t : Token} {a : List Char}
    (hgap : Lex.IsGap false lead.toList) (hne : t.toList ≠ [])
    (hskip : Lex.skip (t.toList ++ a) = ([], t.toList ++ a))
    (hnext : Token.next (t.toList ++ a) = (t, a)) :
    ofText (toList ⟨lead, t⟩ ++ a) = ⟨lead, t⟩ :: ofText a := by
  have hskip' : Lex.skip (toList ⟨lead, t⟩ ++ a) = (lead.toList, t.toList ++ a) := by
    rw [toList, List.append_assoc, Lex.skip_append_of_isGap hgap, hskip, List.append_nil]
  rw [ofText_of_next hskip' (by simp [hne]) hnext]
  simp

/-- A whole token that was once read in front of a text is read in front of another one. -/
theorem ofText_token {lead : Trivia} {t : Token} {a b : List Char} (ht : isWhole t = true)
    (hgap : Lex.IsGap false lead.toList) (hskip : Lex.skip (t.toList ++ a) = ([], t.toList ++ a))
    (hnext : Token.next (t.toList ++ a) = (t, a)) (hab : Lex.Level a b)
    (hslash : t = .mark '/' → KeepsSlash b) :
    ofText (toList ⟨lead, t⟩ ++ b) = ⟨lead, t⟩ :: ofText b := by
  have hne := token_ne_nil ht hnext
  exact ofText_of_bare hgap hne (skip_token hne hskip hnext hslash) (Token.next_level ht hab hnext)

/-- A lexeme starts with an asterisk only if that is its token. -/
theorem token_of_asterisk {l : Lexeme} {rest cs : List Char} {final : Bool}
    (hgap : Lex.IsGap final l.lead.toList)
    (hnext : Token.next (l.token.toList ++ rest) = (l.token, rest))
    (h : l.toList ++ rest = '*' :: cs) : l.token = .mark '*' := by
  rw [toList, List.append_assoc] at h
  generalize l.lead.toList = lead at hgap h
  cases hgap with
  | nil =>
    rw [List.nil_append] at h
    have hmark : Token.next ('*' :: cs) = (.mark '*', cs) := by
      have hstart : Lex.isWordStart '*' = false := by decide
      exact Token.next_of_mark (by simp [Token.word?, hstart]) rfl
    rw [h, hmark] at hnext
    exact (Prod.mk.inj hnext).1.symm
  | space hc _ =>
    cases (List.cons.inj h).1
    cases hc
  | blockComment _ _ => cases h
  | lineComment _ _ _ => cases h
  | lastComment _ _ => cases h

theorem touch_eq_some {slash next : Bool} {t : Token} (h : touch slash t = some next) :
    isWhole t = true ∧ (slash = true → t ≠ .mark '*') ∧ next = (t == .mark '/') := by
  unfold touch at h
  split at h
  · rename_i hcond
    cases h
    simp only [Bool.and_eq_true, Bool.not_eq_true', Bool.and_eq_false_imp,
      beq_eq_false_iff_ne] at hcond
    exact ⟨hcond.1, hcond.2, rfl⟩
  · cases h

theorem whole_of_touch {xs : List Lexeme} {slash last : Bool}
    (h : (tokens xs).foldlM touch slash = some last) : ∀ x ∈ xs, isWhole x.token = true := by
  induction xs generalizing slash with
  | nil => simp
  | cons x xs ih =>
    rw [tokens_cons, List.foldlM_cons] at h
    obtain ⟨next, htouch, h⟩ := Option.bind_eq_some_iff.mp h
    exact List.forall_mem_cons.mpr ⟨(touch_eq_some htouch).1, ih h⟩

theorem not_ended_nil : ¬ Ended [] := by
  rintro ⟨ys, t, c, heq, -⟩
  simp at heq

/-! ## Other gaps -/

/-- The same token behind another gap that starts with the same character. -/
structure Regapped (x y : Lexeme) : Prop where
  token : y.token = x.token
  gap : Lex.IsGap false y.lead.toList
  first : y.lead.toList.head? = x.lead.toList.head?

theorem Regapped.refl {x : Lexeme} (h : Lex.IsGap false x.lead.toList) : Regapped x x :=
  ⟨rfl, h, rfl⟩

/-- Another text can stand behind the lexemes: they end by themselves, or it starts like the one
that stood there. -/
def Detached (xs : List Lexeme) (rest more : List Char) : Prop :=
  Ended xs ∨ Lex.Level rest more

/-- The lexemes behind the first one are detached too, unless it is the brace or semicolon at the
end. -/
theorem Detached.tail {x : Lexeme} {xs : List Lexeme} {rest more : List Char}
    (h : Detached (x :: xs) rest more) :
    (xs = [] ∧ ∃ t c, x = ⟨t, .mark c⟩ ∧ (c = '}' ∨ c = ';')) ∨ Detached xs rest more := by
  cases xs with
  | nil =>
    refine h.imp (fun hend => ⟨rfl, ?_⟩) .inr
    obtain ⟨ys, t, c, heq, hc⟩ := hend
    cases ys with
    | nil => exact ⟨t, c, (List.cons.inj heq).1, hc.symm⟩
    | cons y ys => simp at heq
  | cons y xs =>
    refine .inr (h.imp (fun hend => ?_) id)
    obtain ⟨ys, t, c, heq, hc⟩ := hend
    cases ys with
    | nil => cases heq
    | cons z ys => exact ⟨ys, t, c, (List.cons.inj heq).2, hc⟩

section Regapped

variable {xs ys ls : List Lexeme} {x y : Lexeme} {rest more : List Char}

/-- Other gaps differ behind their first character only. -/
theorem Regapped.level (h : Regapped x y) (hgap : Lex.IsGap false x.lead.toList)
    (hsame : y = x → Lex.Level (x.toList ++ rest) (x.toList ++ more)) :
    Lex.Level (x.toList ++ rest) (y.toList ++ more) := by
  have hfirst := h.first
  cases hx : x.lead.toList with
  | nil =>
    rw [hx, List.head?_nil, List.head?_eq_none_iff, ← hx] at hfirst
    have hlead : y.lead = x.lead := by rw [← Trivia.ofList_toList y.lead, hfirst,
      Trivia.ofList_toList]
    obtain rfl : y = x := by
      cases x
      cases y
      cases hlead
      cases h.token
      rfl
    exact hsame rfl
  | cons c cs =>
    rw [hx, List.head?_cons] at hfirst
    obtain ⟨ds, hy⟩ := List.head?_eq_some_iff.mp hfirst
    rw [hx] at hgap
    rw [toList, toList, hx, hy]
    simpa using Lex.Level.of_stopped ⟨[], c, rfl, hgap.first c rfl⟩ _ _

theorem Detached.level (h : Detached xs rest more) (hxs : List.Forall₂ Regapped xs ys)
    (hgaps : ∀ x ∈ xs, Lex.IsGap false x.lead.toList) :
    Lex.Level (textOf xs ++ rest) (textOf ys ++ more) := by
  induction hxs with
  | nil => exact h.elim (absurd · not_ended_nil) id
  | @cons x y xs ys hxy hxs ih =>
    rw [textOf_cons, textOf_cons, List.append_assoc, List.append_assoc]
    refine hxy.level (hgaps x List.mem_cons_self) fun _ => ?_
    rcases h.tail with ⟨rfl, t, c, rfl, hc⟩ | hrest
    · refine Lex.Level.of_stopped ⟨t.toList, c, rfl, ?_⟩ _ _
      rcases hc with rfl | rfl <;> decide
    · exact (ih hrest fun z hz => hgaps z (List.mem_cons_of_mem x hz)).append _

theorem gaps_of_touch {slash last : Bool} (hs : (tokens xs).foldlM touch slash = some last)
    (h : ofText (textOf xs ++ rest) = xs ++ ls) : ∀ x ∈ xs, Lex.IsGap false x.lead.toList := by
  intro x hx
  have hmem : x ∈ ofText (textOf xs ++ rest) := by
    rw [h]
    exact List.mem_append_left ls hx
  exact (legal_ofText _ x hmem).gap (ne_finish_of_isWhole (whole_of_touch hs x hx))

/-- The first character of a lexeme with a token that is there. -/
theorem Regapped.head_append (h : Regapped x y) (hne : x.token.toList ≠ []) :
    (y.toList ++ more).head? = (x.toList ++ rest).head? := by
  obtain ⟨c, cs, ht⟩ := List.exists_cons_of_ne_nil hne
  simp only [toList, h.token, ht, List.append_assoc, List.head?_append, h.first, List.head?_cons,
    Option.some_or]

/-- The first lexeme of a text and what follows it. -/
theorem ofText_append_cons {a : List Char} (hwhole : isWhole x.token = true)
    (h : ofText (x.toList ++ a) = x :: ls) :
    Lex.IsGap false x.lead.toList ∧ Lex.skip (x.token.toList ++ a) = ([], x.token.toList ++ a) ∧
      Token.next (x.token.toList ++ a) = (x.token, a) ∧ ofText a = ls := by
  have hfinish := ne_finish_of_isWhole hwhole
  have hmem : x ∈ ofText (x.toList ++ a) := by
    rw [h]
    exact List.mem_cons_self
  obtain ⟨rest, hskip, hnext, hrest⟩ := ofText_eq_cons h hfinish
  obtain rfl : rest = a := by
    have happend := Lex.append_skip (x.toList ++ a)
    rw [hskip] at happend
    simpa [toList] using happend
  have hbare := Lex.skip_skip (x.toList ++ rest)
  rw [hskip] at hbare
  exact ⟨(legal_ofText _ x hmem).gap hfinish, hbare, hnext, hrest⟩

/-- Other trivia in front of the first token of a text. -/
theorem ofText_lead {a : List Char} {t : Trivia} (ht : Lex.IsGap false t.toList)
    (hwhole : isWhole x.token = true) (h : ofText (x.toList ++ a) = x :: ls) :
    ofText (toList ⟨t, x.token⟩ ++ a) = ⟨t, x.token⟩ :: ls := by
  obtain ⟨-, hskip, hnext, rfl⟩ := ofText_append_cons hwhole h
  exact ofText_of_bare ht (token_ne_nil hwhole hnext) hskip hnext

/-- Solid lexemes that were once read off the front of a text come back with other gaps and in front
of another text. Behind a slash they make no comment of it. -/
theorem ofText_regapped {slash : Bool} (hs : (tokens xs).foldlM touch slash = some false)
    (hxs : List.Forall₂ Regapped xs ys) (hrest : Detached xs rest more)
    (hslash : slash = true → ∀ c ∈ (textOf xs ++ rest).head?, c ≠ '/')
    (h : ofText (textOf xs ++ rest) = xs ++ ls) :
    ofText (textOf ys ++ more) = ys ++ ofText more ∧
      (slash = true → KeepsSlash (textOf ys ++ more)) := by
  induction hxs generalizing slash with
  | nil =>
    refine ⟨rfl, fun hslash => ?_⟩
    rw [hslash] at hs
    cases hs
  | @cons x y xs ys hxy hxs ih =>
    rw [tokens_cons, List.foldlM_cons] at hs
    obtain ⟨slash', htouch, hs⟩ := Option.bind_eq_some_iff.mp hs
    obtain ⟨hwhole, hasterisk, rfl⟩ := touch_eq_some htouch
    rw [textOf_cons, List.append_assoc] at h hslash
    rw [textOf_cons, List.append_assoc]
    obtain ⟨hgap, hskip, hnext, hbody⟩ := ofText_append_cons hwhole h
    have hne := token_ne_nil hwhole hnext
    refine ⟨?_, fun hs' c hc => ⟨?_, ?_⟩⟩
    · rcases hrest.tail with ⟨rfl, t, c, rfl, hc⟩ | hrest
      · cases hxs
        obtain ⟨lead, token⟩ := y
        obtain rfl : token = .mark c := hxy.token
        simpa using relexed_mark hxy.gap (.inr hc) more
      · have hslash' : (x.token == .mark '/') = true →
            ∀ c ∈ (textOf xs ++ rest).head?, c ≠ '/' := by
          intro hx
          rw [beq_iff_eq] at hx
          rw [hx] at hskip
          exact (Lex.first_of_skip hskip).2 rfl
        obtain ⟨hlexed, hkeeps⟩ := ih hs hrest hslash' hbody
        have hlevel := hrest.level hxs (gaps_of_touch hs hbody)
        have hread := ofText_token hwhole hxy.gap hskip hnext hlevel fun ht => hkeeps (by simp [ht])
        rw [hlexed, ← hxy.token] at hread
        exact hread
    · rw [hxy.head_append hne] at hc
      exact hslash hs' c hc
    · rintro rfl
      rw [hxy.head_append hne] at hc
      obtain ⟨cs, hcs⟩ := List.head?_eq_some_iff.mp hc
      exact hasterisk hs' (token_of_asterisk hgap hnext hcs)

/-- Solid lexemes up to a brace or a semicolon come back with other gaps and in front of any text,
if they were once read off the front of a text. -/
theorem relexed_regapped (hs : Solid (tokens xs)) (hend : Ended xs)
    (hxs : List.Forall₂ Regapped xs ys) (h : ofText (textOf xs ++ rest) = xs ++ ls) :
    Relexed ys := fun _ =>
  (ofText_regapped hs hxs (.inl hend) (fun h => by cases h) h).1

theorem relexed_of_touch (hs : Solid (tokens xs)) (hend : Ended xs)
    (h : ofText (textOf xs ++ rest) = xs ++ ls) : Relexed xs :=
  relexed_regapped hs hend
    (List.forall₂_same.mpr fun x hx => .refl (gaps_of_touch hs h x hx)) h

end Regapped

end Lexeme

end LosslessJava
