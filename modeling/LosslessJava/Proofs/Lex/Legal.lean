import LosslessJava.Lex.Token
import LosslessJava.Proofs.Lex.Gap
import LosslessJava.Proofs.Text.Blank

/-!
# Legal lexemes

What is known of every lexeme of a text, apart from the text itself.

* `IsWord`: the shape of words. `Crisp`: a token text that neither starts nor ends with white space,
  starts no comment and does not end with a semicolon.
* `Lexeme.legal_ofText`: the lexemes of a text have a gap in front of them, words have the shape of
  words, and literals are crisp and start with a digit or a quote.
-/

namespace LosslessJava

/-- The text has the shape of an identifier or keyword. -/
def IsWord (cs : List Char) : Prop :=
  ∃ c ds, cs = c :: ds ∧ Lex.isWordStart c = true ∧ ∀ d ∈ ds, Lex.isWordPart d = true

/-- The text has an end for every print: it starts with no white space or comment, and it ends with
neither white space nor a semicolon. -/
structure Crisp (cs : List Char) : Prop where
  first : ∃ c ds, cs = c :: ds ∧ isBlank c = false ∧ c ≠ '/'
  last : ∃ ds c, cs = ds ++ [c] ∧ isBlank c = false ∧ c ≠ ';'

theorem exists_append_singleton {α : Type} (c : α) (ds : List α) :
    ∃ es d, c :: ds = es ++ [d] ∧ d ∈ c :: ds := by
  refine ⟨(c :: ds).dropLast, (c :: ds).getLast (by simp), ?_, ?_⟩
  · exact (List.dropLast_concat_getLast (by simp)).symm
  · exact List.getLast_mem (by simp)

theorem crisp_of_forall {c : Char} {ds : List Char}
    (h : ∀ d ∈ c :: ds, isBlank d = false ∧ d ≠ ';') (hc : c ≠ '/') : Crisp (c :: ds) := by
  obtain ⟨es, d, heq, hd⟩ := exists_append_singleton c ds
  exact ⟨⟨c, ds, rfl, (h c List.mem_cons_self).1, hc⟩, ⟨es, d, heq, h d hd⟩⟩

theorem crisp_of_all {c : Char} {ds : List Char}
    (h : ((c :: ds).all fun d => !isBlank d && d != ';') = true) (hc : c ≠ '/') :
    Crisp (c :: ds) := by
  refine crisp_of_forall (fun d hd => ?_) hc
  have hd := List.all_eq_true.mp h d hd
  simpa using hd

/-- Two crisp texts with anything between them. -/
theorem Crisp.join {cs ds : List Char} (hc : Crisp cs) (hd : Crisp ds) (middle : List Char) :
    Crisp (cs ++ middle ++ ds) := by
  obtain ⟨c, front, rfl, hfirst⟩ := hc.first
  obtain ⟨back, d, rfl, hlast⟩ := hd.last
  refine ⟨⟨c, front ++ middle ++ (back ++ [d]), rfl, hfirst⟩, ?_⟩
  exact ⟨c :: front ++ middle ++ back, d, by simp, hlast⟩

theorem crisp_singleton {c : Char} (hb : isBlank c = false) (hslash : c ≠ '/')
    (hsemi : c ≠ ';') : Crisp [c] :=
  ⟨⟨c, [], rfl, hb, hslash⟩, ⟨[], c, rfl, hb, hsemi⟩⟩

theorem ne_of_isWordPart {c d : Char} (hc : Lex.isWordPart c = true)
    (hd : Lex.isWordPart d = false) : c ≠ d := by
  rintro rfl
  rw [hc] at hd
  cases hd

theorem isWordPart_slash : Lex.isWordPart '/' = false := by decide

theorem isWordPart_semicolon : Lex.isWordPart ';' = false := by decide

theorem IsWord.forall_isWordPart {cs : List Char} (h : IsWord cs) :
    ∀ d ∈ cs, Lex.isWordPart d = true := by
  obtain ⟨c, ds, rfl, hc, hds⟩ := h
  intro d hd
  rcases List.mem_cons.mp hd with rfl | hd
  · exact isWordPart_of_isWordStart hc
  · exact hds d hd

theorem IsWord.crisp {cs : List Char} (h : IsWord cs) : Crisp cs := by
  have hall := h.forall_isWordPart
  obtain ⟨c, ds, rfl, hc, hds⟩ := h
  refine crisp_of_forall (fun d hd => ?_) ?_
  · exact ⟨isBlank_eq_false_of_isWordPart (hall d hd),
      ne_of_isWordPart (hall d hd) isWordPart_semicolon⟩
  · exact ne_of_isWordPart (hall c List.mem_cons_self) isWordPart_slash

/-! ## Numbers -/

namespace Lex

/-- A character of a number. -/
def isNumberPart (c : Char) : Bool := isWordPart c || c == '.' || c == '+' || c == '-'

theorem isNumberPart_of_isWordPart {c : Char} (h : isWordPart c = true) :
    isNumberPart c = true := by
  simp [isNumberPart, h]

theorem isNumberPart_of_isDigit {c : Char} (h : c.isDigit = true) : isNumberPart c = true := by
  simp [isNumberPart, isWordPart, h]

theorem isLetter_of_isAlpha {c : Char} (h : c.isAlpha = true) : isLetter c = true :=
  isLetter_of_isAlphabetic (isAlphabetic_of_isAlpha h)

theorem isNumberPart_of_isAlpha {c : Char} (h : c.isAlpha = true) : isNumberPart c = true := by
  simp [isNumberPart, isWordPart, isLetter_of_isAlpha h]

theorem isAlpha_of_either {a b c : Char} (h : (c == a || c == b) = true) (ha : a.isAlpha = true)
    (hb : b.isAlpha = true) : c.isAlpha = true := by
  rw [Bool.or_eq_true, beq_iff_eq, beq_iff_eq] at h
  rcases h with rfl | rfl
  · exact ha
  · exact hb

theorem isNumberPart_of_isSign (c : Char) (h : (c == '+' || c == '-') = true) :
    isNumberPart c = true := by
  rw [Bool.or_eq_true, beq_iff_eq, beq_iff_eq] at h
  rcases h with rfl | rfl <;> rfl

theorem run_subset {p q : Char → Bool} (hpq : ∀ c, p c = true → q c = true) (cs : List Char) :
    ∀ c ∈ (run p cs).1, q c = true := fun c hc =>
  hpq c (List.all_eq_true.mp List.all_takeWhile c hc)

theorem optionalChar_subset {p q : Char → Bool} (hpq : ∀ c, p c = true → q c = true)
    (cs : List Char) : ∀ c ∈ (optionalChar p cs).1, q c = true := by
  unfold optionalChar
  split
  · split
    · rename_i c _ hc
      simpa using hpq c hc
    · simp
  · simp

theorem exponent_subset {cs text rest : List Char} (h : exponent? cs = some (text, rest)) :
    ∀ c ∈ text, isNumberPart c = true := by
  cases cs with
  | nil => cases h
  | cons e cs =>
    simp only [exponent?] at h
    split at h
    · rename_i he
      split at h
      · cases h
      · cases h
        intro c hc
        rcases List.mem_append.mp hc with hc | hc
        · rcases List.mem_cons.mp hc with rfl | hc
          · exact isNumberPart_of_isAlpha (isAlpha_of_either he rfl rfl)
          · exact optionalChar_subset isNumberPart_of_isSign cs c hc
        · exact run_subset (p := Char.isDigit) (fun c => isNumberPart_of_isDigit) _ c hc
    · cases h

theorem optionalExponent_subset (cs : List Char) :
    ∀ c ∈ (optionalExponent cs).1, isNumberPart c = true := by
  unfold optionalExponent
  cases h : exponent? cs with
  | none => simp
  | some cut => exact @exponent_subset _ cut.1 cut.2 h

theorem isNumberPart_of_isFloatingSuffix (c : Char)
    (hc : (c == 'f' || c == 'F' || c == 'd' || c == 'D') = true) : isNumberPart c = true := by
  simp only [Bool.or_eq_true, beq_iff_eq] at hc
  rcases hc with ((rfl | rfl) | rfl) | rfl <;> exact isNumberPart_of_isAlpha rfl

theorem floatingSuffix_subset (cs : List Char) :
    ∀ c ∈ (optionalFloatingSuffix cs).1, isNumberPart c = true :=
  optionalChar_subset isNumberPart_of_isFloatingSuffix cs

/-- A number text starts with a digit. -/
def IsNumber (cs : List Char) : Prop :=
  (∃ c ds, cs = c :: ds ∧ c.isDigit = true) ∧ ∀ d ∈ cs, isNumberPart d = true

theorem run_digit_head {cs : List Char} (h : (run Char.isDigit cs).1.isEmpty = false)
    (ds : List Char) : ∃ c es, (run Char.isDigit cs).1 ++ ds = c :: es ∧ c.isDigit = true := by
  have hall := run_subset (p := Char.isDigit) (fun _ h => h) cs
  cases hr : (run Char.isDigit cs).1 with
  | nil =>
    rw [hr] at h
    cases h
  | cons c es => exact ⟨c, es ++ ds, rfl, hall c (by simp [hr])⟩

theorem isNumber_of_floatingCut {cs text rest : List Char}
    (h : floatingCut? cs = some (text, rest)) : IsNumber text := by
  have hdigits := run_subset (p := Char.isDigit) (fun c => isNumberPart_of_isDigit)
  simp only [floatingCut?] at h
  split at h
  · cases h
  · rename_i hw
    have hw : (run Char.isDigit cs).1.isEmpty = false := by simpa using hw
    split at h
    · rename_i r hr
      cases h
      refine ⟨?_, ?_⟩
      · simpa using run_digit_head hw _
      · intro c hc
        simp only [List.append_assoc, List.cons_append, List.mem_append, List.mem_cons] at hc
        rcases hc with hc | rfl | hc | hc | hc
        · exact hdigits cs c hc
        · rfl
        · exact hdigits r c hc
        · exact optionalExponent_subset _ c hc
        · exact floatingSuffix_subset _ c hc
    · split at h
      · rename_i exponent r hr
        cases h
        refine ⟨?_, ?_⟩
        · simpa using run_digit_head hw _
        · intro c hc
          simp only [List.append_assoc, List.mem_append] at hc
          rcases hc with hc | hc | hc
          · exact hdigits cs c hc
          · exact exponent_subset hr c hc
          · exact floatingSuffix_subset _ c hc
      · split at h
        · cases h
        · cases h
          refine ⟨run_digit_head hw _, ?_⟩
          intro c hc
          rcases List.mem_append.mp hc with hc | hc
          · exact hdigits cs c hc
          · exact floatingSuffix_subset _ c hc

theorem digitsCut_subset {p : Char → Bool} {cs text rest : List Char}
    (hp : ∀ c, p c = true → isWordPart c = true) (h : digitsCut? p cs = some (text, rest)) :
    (∃ c ds, text = c :: ds ∧ p c = true) ∧ ∀ c ∈ text, isNumberPart c = true := by
  cases cs with
  | nil => cases h
  | cons d cs =>
    simp only [digitsCut?] at h
    split at h
    · rename_i hd
      cases h
      refine ⟨⟨d, _, rfl, hd⟩, ?_⟩
      intro c hc
      rcases List.mem_cons.mp hc with rfl | hc
      · exact isNumberPart_of_isWordPart (hp _ hd)
      · refine run_subset (fun c hc => ?_) cs c hc
        rw [Bool.or_eq_true, beq_iff_eq] at hc
        rcases hc with hc | rfl
        · exact isNumberPart_of_isWordPart (hp _ hc)
        · rfl
    · cases h

theorem isWordPart_of_isDigit {c : Char} (h : c.isDigit = true) : isWordPart c = true := by
  simp [isWordPart, h]

theorem isWordPart_of_isAlpha {c : Char} (h : c.isAlpha = true) : isWordPart c = true := by
  simp [isWordPart, isLetter_of_isAlpha h]

/-- Letters of ASCII make up a word. -/
theorem isWord_of_isAlpha {cs : List Char} (hne : cs ≠ []) (h : cs.all Char.isAlpha = true) :
    IsWord cs := by
  obtain ⟨c, cs, rfl⟩ := List.exists_cons_of_ne_nil hne
  obtain ⟨hc, hcs⟩ := List.forall_mem_cons.mp (List.all_eq_true.mp h)
  refine ⟨c, cs, rfl, ?_, fun d hd => isWordPart_of_isAlpha (hcs d hd)⟩
  simp [isWordStart, isLetter_of_isAlpha hc]

theorem isWordPart_of_isHexDigit {c : Char} (h : isHexDigit c = true) : isWordPart c = true := by
  simp only [isHexDigit, Bool.or_eq_true, Bool.and_eq_true, decide_eq_true_eq] at h
  rcases h with (h | h) | h
  · exact isWordPart_of_isDigit h
  · refine isWordPart_of_isAlpha (isAlpha_iff.mpr (Or.inr ?_))
    exact ⟨h.1, Nat.le_trans h.2 (by decide)⟩
  · refine isWordPart_of_isAlpha (isAlpha_iff.mpr (Or.inl ?_))
    exact ⟨h.1, Nat.le_trans h.2 (by decide)⟩

theorem isWordPart_of_isBinaryDigit {c : Char} (h : isBinaryDigit c = true) :
    isWordPart c = true := by
  simp only [isBinaryDigit, Bool.or_eq_true, beq_iff_eq] at h
  rcases h with rfl | rfl <;> exact isWordPart_of_isDigit rfl

theorem isNumber_of_radixCut {cs text rest : List Char} (h : radixCut? cs = some (text, rest)) :
    IsNumber text := by
  unfold radixCut? at h
  split at h
  · rename_i c ds
    have hradix : ∀ {p : Char → Bool}, (∀ c, p c = true → isWordPart c = true) →
        isWordPart c = true →
        (digitsCut? p ds).map (fun cut => ('0' :: c :: cut.1, cut.2)) = some (text, rest) →
        IsNumber text := by
      intro p hp hc hm
      obtain ⟨⟨digits, r⟩, hd, heq⟩ := Option.map_eq_some_iff.mp hm
      cases heq
      refine ⟨⟨'0', _, rfl, rfl⟩, ?_⟩
      intro d hd'
      simp only [List.mem_cons] at hd'
      rcases hd' with rfl | rfl | hd'
      · exact isNumberPart_of_isDigit rfl
      · exact isNumberPart_of_isWordPart hc
      · exact (digitsCut_subset hp hd).2 d hd'
    split at h
    · rename_i hc
      exact hradix (fun c => isWordPart_of_isHexDigit)
        (isWordPart_of_isAlpha (isAlpha_of_either hc rfl rfl)) h
    · split at h
      · rename_i hc
        exact hradix (fun c => isWordPart_of_isBinaryDigit)
          (isWordPart_of_isAlpha (isAlpha_of_either hc rfl rfl)) h
      · cases h
  · cases h

theorem isNumber_of_integerCut {cs text rest : List Char}
    (h : integerCut? cs = some (text, rest)) : IsNumber text := by
  obtain ⟨⟨digits, r⟩, hd, heq⟩ := Option.map_eq_some_iff.mp h
  cases heq
  have hdigits : IsNumber digits := by
    rcases Option.or_eq_some_iff.mp hd with hd | ⟨-, hd⟩
    · exact isNumber_of_radixCut hd
    · exact digitsCut_subset (fun c => isWordPart_of_isDigit) hd
  obtain ⟨⟨c, ds, rfl, hc⟩, hall⟩ := hdigits
  refine ⟨⟨c, _, rfl, hc⟩, ?_⟩
  intro d hd
  rcases List.mem_append.mp hd with hd | hd
  · exact hall d hd
  · refine optionalChar_subset (fun c hc => ?_) r d hd
    exact isNumberPart_of_isAlpha (isAlpha_of_either hc rfl rfl)

theorem IsNumber.crisp {cs : List Char} (h : IsNumber cs) : Crisp cs := by
  obtain ⟨⟨c, ds, rfl, hc⟩, hall⟩ := h
  refine crisp_of_forall (fun d hd => ?_) (ne_of_isWordPart (isWordPart_of_isDigit hc)
    isWordPart_slash)
  have hd := hall d hd
  simp only [isNumberPart, Bool.or_eq_true, beq_iff_eq] at hd
  rcases hd with ((hd | rfl) | rfl) | rfl
  · exact ⟨isBlank_eq_false_of_isWordPart hd, ne_of_isWordPart hd isWordPart_semicolon⟩
  · exact ⟨rfl, by decide⟩
  · exact ⟨rfl, by decide⟩
  · exact ⟨rfl, by decide⟩

/-! ## Quoted texts -/

theorem last_of_stringEnd {cs text rest : List Char} (h : stringEnd? cs = some (text, rest)) :
    ∃ body, text = body ++ ['"'] := by
  fun_induction stringEnd? cs generalizing text rest with
  | case1 cs =>
    cases h
    exact ⟨[], rfl⟩
  | case2 c cs ih =>
    obtain ⟨⟨b, r⟩, hb, heq⟩ := Option.map_eq_some_iff.mp h
    cases heq
    obtain ⟨body, rfl⟩ := ih hb
    exact ⟨'\\' :: c :: body, rfl⟩
  | case3 => cases h
  | case4 => cases h
  | case5 => cases h
  | case6 c cs _ _ _ _ _ ih =>
    obtain ⟨⟨b, r⟩, hb, heq⟩ := Option.map_eq_some_iff.mp h
    cases heq
    obtain ⟨body, rfl⟩ := ih hb
    exact ⟨c :: body, rfl⟩
  | case7 => cases h

theorem last_of_quoteEnd {cs text rest : List Char} (h : quoteEnd? cs = some (text, rest)) :
    ∃ body, text = body ++ ['\''] := by
  fun_induction quoteEnd? cs generalizing text rest with
  | case1 cs =>
    cases h
    exact ⟨[], rfl⟩
  | case2 c cs _ ih =>
    obtain ⟨⟨b, r⟩, hb, heq⟩ := Option.map_eq_some_iff.mp h
    cases heq
    obtain ⟨body, rfl⟩ := ih hb
    exact ⟨c :: body, rfl⟩
  | case3 => cases h

theorem crisp_of_string {cs text rest : List Char} (h : string? cs = some (text, rest)) :
    Crisp text := by
  unfold string? at h
  split at h
  · obtain ⟨⟨b, r⟩, hb, heq⟩ := Option.map_eq_some_iff.mp h
    cases heq
    obtain ⟨body, rfl⟩ := last_of_stringEnd hb
    exact ⟨⟨'"', _, rfl, rfl, by decide⟩, ⟨'"' :: body, '"', rfl, rfl, by decide⟩⟩
  · cases h

theorem quote_of_string {cs text rest : List Char} (h : string? cs = some (text, rest)) :
    ∃ body, text = '"' :: body := by
  unfold string? at h
  split at h
  · obtain ⟨⟨b, r⟩, hb, heq⟩ := Option.map_eq_some_iff.mp h
    cases heq
    exact ⟨b, rfl⟩
  · cases h

theorem quote_of_character {cs text rest : List Char} (h : character? cs = some (text, rest)) :
    ∃ body, text = '\'' :: body := by
  unfold character? at h
  split at h
  · obtain ⟨⟨b, r⟩, hb, heq⟩ := Option.map_eq_some_iff.mp h
    cases heq
    exact ⟨_, rfl⟩
  · split at h
    · cases h
    · cases h
      exact ⟨_, rfl⟩
  · cases h

theorem crisp_of_character {cs text rest : List Char} (h : character? cs = some (text, rest)) :
    Crisp text := by
  unfold character? at h
  split at h
  · rename_i c ds
    obtain ⟨⟨b, r⟩, hb, heq⟩ := Option.map_eq_some_iff.mp h
    cases heq
    obtain ⟨body, rfl⟩ := last_of_quoteEnd hb
    exact ⟨⟨'\'', _, rfl, rfl, by decide⟩, ⟨'\'' :: '\\' :: c :: body, '\'', rfl, rfl, by decide⟩⟩
  · rename_i c ds _
    split at h
    · cases h
    · cases h
      exact ⟨⟨'\'', _, rfl, rfl, by decide⟩, ⟨['\'', c], '\'', rfl, rfl, by decide⟩⟩
  · cases h

end Lex

/-! ## Lexemes -/

namespace Token

theorem isWord_of_word {cs text rest : List Char} (h : word? cs = some (text, rest)) :
    IsWord text := by
  cases cs with
  | nil => cases h
  | cons c cs =>
    by_cases hc : Lex.isWordStart c = true
    · simp only [word?, List.head?_cons, Option.any_some, hc, ↓reduceIte, Option.some.injEq] at h
      cases h
      have hp := isWordPart_of_isWordStart hc
      refine ⟨c, cs.takeWhile Lex.isWordPart, by simp [hp], hc, ?_⟩
      exact fun d hd => List.all_eq_true.mp List.all_takeWhile d hd
    · simp [word?, hc] at h

/-- The text is crisp and starts with a digit or a quote. -/
structure IsLiteralText (cs : List Char) : Prop where
  crisp : Crisp cs
  first : ∃ c ds, cs = c :: ds ∧ (c.isDigit = true ∨ c = '"' ∨ c = '\'')

theorem isLiteralText_of_literal {cs text rest : List Char} {kind : LiteralKind}
    (h : literal? cs = some (kind, text, rest)) : IsLiteralText text := by
  have hnumber : ∀ {text}, Lex.IsNumber text → IsLiteralText text := by
    intro text h
    obtain ⟨c, ds, heq, hc⟩ := h.1
    exact ⟨h.crisp, c, ds, heq, Or.inl hc⟩
  simp only [literal?, Option.or_eq_some_iff, Option.map_eq_some_iff, Prod.mk.injEq] at h
  rcases h with ⟨⟨_, _⟩, h, _, rfl, rfl⟩ | ⟨_, ⟨⟨_, _⟩, h, _, rfl, rfl⟩ |
    ⟨_, ⟨⟨_, _⟩, h, _, rfl, rfl⟩ | ⟨_, ⟨_, _⟩, h, _, rfl, rfl⟩⟩⟩
  · exact hnumber (Lex.isNumber_of_floatingCut (Option.filter_eq_some_iff.mp h).1)
  · exact hnumber (Lex.isNumber_of_integerCut (Option.filter_eq_some_iff.mp h).1)
  · obtain ⟨ds, heq⟩ := Lex.quote_of_character h
    exact ⟨Lex.crisp_of_character h, '\'', ds, heq, Or.inr (Or.inr rfl)⟩
  · obtain ⟨ds, heq⟩ := Lex.quote_of_string h
    exact ⟨Lex.crisp_of_string h, '"', ds, heq, Or.inr (Or.inl rfl)⟩

/-- What is known of the text of a token. -/
def Legal : Token → Prop
  | word text => IsWord text.toList
  | literal _ text => IsLiteralText text.toList
  | _ => True

/-- The token at the start of a text is legal, and the text does not end there. -/
theorem legal_next {cs rest : List Char} {t : Token} (hne : cs ≠ []) (h : next cs = (t, rest)) :
    t.Legal ∧ t ≠ finish := by
  rcases next_cases hne h with ⟨w, hw, rfl⟩ | ⟨kind, w, -, hl, rfl⟩ | ⟨c, -, -, rfl⟩
  · simpa [Legal] using isWord_of_word hw
  · simpa [Legal] using isLiteralText_of_literal hl
  · exact ⟨trivial, nofun⟩

end Token

namespace Lexeme

/-- What is known of a lexeme. Only the end of the text can have an open line comment in front. -/
structure Legal (l : Lexeme) : Prop where
  token : l.token.Legal
  lead : Lex.IsGap (l.token == .finish) l.lead.toList

theorem Legal.gap {l : Lexeme} (h : l.Legal) (hl : l.token ≠ .finish) :
    Lex.IsGap false l.lead.toList := by
  have := h.lead
  rwa [beq_eq_false_iff_ne.mpr hl] at this

/-- The lexemes of a text are legal. -/
theorem legal_ofText (cs : List Char) : ∀ l ∈ ofText cs, l.Legal := by
  fun_induction ofText cs with
  | case1 cs blank h =>
    intro l hl
    rw [List.mem_singleton.mp hl]
    have hgap := Lex.isGap_skip cs
    rw [h] at hgap
    exact ⟨trivial, by simpa using hgap⟩
  | case2 cs blank h ih =>
    intro l hl
    rcases List.mem_cons.mp hl with rfl | hl
    · obtain ⟨hlegal, hfinish⟩ := Token.legal_next h (Prod.eta _).symm
      have hgap := Lex.isGap_skip cs
      have hne : blank.2.isEmpty = false := by simpa using h
      rw [hne] at hgap
      exact ⟨hlegal, by simpa [beq_eq_false_iff_ne.mpr hfinish] using hgap⟩
    · exact ih l hl

end Lexeme

end LosslessJava
