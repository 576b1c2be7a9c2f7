import LosslessJava.Proofs.Lex.Legal

/-!
# Tokens that do not see what follows

A number is cut off the front of a text by looking at characters that a number can have. So behind
another character, such as a semicolon or a brace, the text can go on in any way. Words end at the
first character that is no part of a word, and quoted texts at their quote.

* `Stopped`: a text that no number goes beyond.
* `Halts`: a text that no number goes beyond into what follows it.
* `Steady`, `SteadyOption`: cuts that stay the same when more text follows one that halts.
-/

namespace LosslessJava.Lex

/-! ## Stopped texts -/

/-- The text ends with a character that no number has. -/
def Stopped (cs : List Char) : Prop := ∃ ds c, cs = ds ++ [c] ∧ isNumberPart c = false

namespace Stopped

variable {cs ds : List Char}

theorem ne_nil (h : Stopped cs) : cs ≠ [] := by
  obtain ⟨ds, c, rfl, -⟩ := h
  simp

theorem append (h : Stopped ds) (cs : List Char) : Stopped (cs ++ ds) := by
  obtain ⟨es, c, rfl, hc⟩ := h
  exact ⟨cs ++ es, c, by simp, hc⟩

/-- Behind a number text, the rest of a stopped text is stopped. -/
theorem rest (h : Stopped (cs ++ ds)) (hcs : ∀ c ∈ cs, isNumberPart c = true) : Stopped ds := by
  obtain ⟨es, c, heq, hc⟩ := h
  rcases List.eq_nil_or_concat ds with rfl | ⟨ds, d, rfl⟩
  · rw [List.append_nil] at heq
    have := hcs c (by simp [heq])
    rw [hc] at this
    cases this
  · rw [List.concat_eq_append, ← List.append_assoc] at heq
    obtain ⟨-, hlast⟩ := List.append_inj' heq rfl
    obtain rfl : d = c := by simpa using hlast
    exact ⟨ds, d, by simp, hc⟩

end Stopped

/-- A number in the text does not go on into what follows the text. -/
def Halts (cs more : List Char) : Prop := Stopped cs ∨ ∀ c ∈ more.head?, isNumberPart c = false

namespace Halts

variable {cs ds more : List Char}

theorem append (h : Halts ds more) (cs : List Char) : Halts (cs ++ ds) more :=
  h.imp (·.append cs) id

/-- Behind a number text, the rest of a text that halts does so. -/
theorem rest (h : Halts (cs ++ ds) more) (hcs : ∀ c ∈ cs, isNumberPart c = true) : Halts ds more :=
  h.imp (·.rest hcs) id

theorem tail {c : Char} (h : Halts (c :: cs) more) (hc : isNumberPart c = true) : Halts cs more :=
  @rest [c] cs more h (by simpa using hc)

theorem first {c : Char} (h : Halts [] (c :: more)) : isNumberPart c = false := by
  rcases h with h | h
  · exact absurd rfl h.ne_nil
  · exact h c rfl

theorem first_eq_false {p : Char → Bool} (hp : ∀ c, p c = true → isNumberPart c = true) {c : Char}
    (h : Halts [] (c :: more)) : p c = false := by
  have hc := h.first
  cases hpc : p c with
  | false => rfl
  | true =>
    rw [hp c hpc] at hc
    cases hc

end Halts

/-! ## Steady cuts -/

/-- A cut of a text with more text behind it. -/
def Cut.append (cut : Cut) (more : List Char) : Cut := (cut.1, cut.2 ++ more)

/-- The cut of a text that halts does not see what follows the text. -/
def Steady (f : List Char → Cut) : Prop :=
  ∀ cs more, Halts cs more → f (cs ++ more) = (f cs).append more

/-- The possible cut of a text that halts does not see what follows the text. -/
def SteadyOption (f : List Char → Option Cut) : Prop :=
  ∀ cs more, Halts cs more → f (cs ++ more) = (f cs).map (·.append more)

section Parts

variable {p : Char → Bool} (hp : ∀ c, p c = true → isNumberPart c = true)

include hp

theorem steady_run : Steady (run p) := by
  intro cs more h
  induction cs with
  | nil =>
    cases more with
    | nil => rfl
    | cons c more => simp [run, Cut.append, h.first_eq_false hp]
  | cons c cs ih =>
    by_cases hc : p c = true
    · have ih := ih (h.tail (hp c hc))
      simp only [run, Cut.append, Prod.mk.injEq] at ih
      simp [run, Cut.append, hc, ih]
    · simp [run, Cut.append, hc]

theorem Halts.run {cs more : List Char} (h : Halts cs more) : Halts (run p cs).2 more := by
  rw [← append_run p cs] at h
  exact h.rest (run_subset hp cs)

theorem steady_optionalChar : Steady (optionalChar p) := by
  intro cs more h
  cases cs with
  | nil =>
    cases more with
    | nil => rfl
    | cons c more => simp [optionalChar, Cut.append, h.first_eq_false hp]
  | cons c cs =>
    by_cases hc : p c = true
    · simp [optionalChar, Cut.append, hc]
    · simp [optionalChar, Cut.append, hc]

theorem Halts.optionalChar {cs more : List Char} (h : Halts cs more) :
    Halts (optionalChar p cs).2 more := by
  rw [← append_optionalChar p cs] at h
  exact h.rest (optionalChar_subset hp cs)

end Parts

theorem isNumberPart_of_isExponent {c : Char} (hc : (c == 'e' || c == 'E') = true) :
    isNumberPart c = true :=
  isNumberPart_of_isAlpha (isAlpha_of_either hc rfl rfl)

theorem steady_exponent : SteadyOption exponent? := by
  intro cs more h
  cases cs with
  | nil =>
    cases more with
    | nil => rfl
    | cons c more =>
      have hc : ¬ (c == 'e' || c == 'E') = true := by
        rw [h.first_eq_false fun _ => isNumberPart_of_isExponent]
        exact Bool.false_ne_true
      simp only [List.nil_append, exponent?, if_neg hc, Option.map_none]
  | cons c cs =>
    simp only [List.cons_append, exponent?]
    by_cases hc : (c == 'e' || c == 'E') = true
    · have hcs := h.tail (isNumberPart_of_isExponent hc)
      have hsign : optionalSign (cs ++ more) = (optionalSign cs).append more :=
        steady_optionalChar isNumberPart_of_isSign cs more hcs
      have hstop : Halts (optionalSign cs).2 more := hcs.optionalChar isNumberPart_of_isSign
      have hrun := steady_run (fun c => isNumberPart_of_isDigit) _ more hstop
      simp only [if_pos hc, hsign, Cut.append, hrun]
      split <;> rfl
    · simp only [if_neg hc, Option.map_none]

theorem Halts.optionalExponent {cs more : List Char} (h : Halts cs more) :
    Halts (optionalExponent cs).2 more := by
  rw [← append_optionalExponent cs] at h
  exact h.rest (optionalExponent_subset cs)

theorem steady_optionalExponent : Steady optionalExponent := by
  intro cs more h
  unfold optionalExponent
  rw [steady_exponent cs more h]
  cases exponent? cs <;> rfl

theorem steady_floatingSuffix : Steady optionalFloatingSuffix :=
  steady_optionalChar isNumberPart_of_isFloatingSuffix

theorem Halts.exponent {cs text rest more : List Char} (h : Halts cs more)
    (he : exponent? cs = some (text, rest)) : Halts rest more := by
  rw [← append_of_exponent? he] at h
  exact h.rest (exponent_subset he)

theorem steady_floatingCut : SteadyOption floatingCut? := by
  intro cs more h
  have hstop := h.run (fun c => isNumberPart_of_isDigit)
  simp only [floatingCut?, steady_run (fun c => isNumberPart_of_isDigit) cs more h, Cut.append]
  by_cases hwhole : (run Char.isDigit cs).1.isEmpty = true
  · simp only [if_pos hwhole, Option.map_none]
  simp only [if_neg hwhole]
  generalize (run Char.isDigit cs).1 = whole
  generalize (run Char.isDigit cs).2 = rest at hstop
  by_cases hpoint : ∃ fraction, rest = '.' :: fraction
  · obtain ⟨fraction, rfl⟩ := hpoint
    have hfraction := hstop.tail rfl
    have hexponent := hfraction.run (fun c => isNumberPart_of_isDigit)
    simp only [List.cons_append,
      steady_run (fun c => isNumberPart_of_isDigit) fraction more hfraction,
      steady_optionalExponent _ more hexponent,
      steady_floatingSuffix _ more hexponent.optionalExponent, Cut.append, Option.map_some]
  · have hrest : ∀ fraction, rest ≠ '.' :: fraction := not_exists.mp hpoint
    have hmore : ∀ fraction, rest ++ more ≠ '.' :: fraction := by
      rintro fraction heq
      cases rest with
      | nil =>
        rw [List.nil_append] at heq
        subst heq
        cases hstop.first
      | cons c rest =>
        cases (List.cons.inj heq).1
        exact hrest rest rfl
    have hsuffix := steady_floatingSuffix _ more hstop
    simp only [steady_exponent _ more hstop]
    cases he : exponent? rest with
    | none =>
      generalize optionalFloatingSuffix rest = cut at hsuffix
      simp only [Option.map_none, hsuffix, Cut.append]
      split <;> rfl
    | some cut =>
      obtain ⟨exponent, r⟩ := cut
      have hr := hstop.exponent he
      simp only [Option.map_some, Cut.append, steady_floatingSuffix _ more hr]

theorem steady_digitsCut {p : Char → Bool} (hp : ∀ c, p c = true → isNumberPart c = true) :
    SteadyOption (digitsCut? p) := by
  intro cs more h
  cases cs with
  | nil =>
    cases more with
    | nil => rfl
    | cons c more => simp [digitsCut?, h.first_eq_false hp]
  | cons c cs =>
    simp only [List.cons_append, digitsCut?]
    by_cases hc : p c = true
    · have hmore : ∀ d, (p d || d == '_') = true → isNumberPart d = true := by
        intro d hd
        rw [Bool.or_eq_true, beq_iff_eq] at hd
        rcases hd with hd | rfl
        · exact hp d hd
        · rfl
      simp only [if_pos hc, steady_run hmore cs more (h.tail (hp c hc)), Cut.append,
        Option.map_some]
    · simp only [if_neg hc, Option.map_none]

theorem radixCut_eq_none {c : Char} (hc : c ≠ '0') (cs : List Char) :
    radixCut? (c :: cs) = none := by
  unfold radixCut?
  split
  · rename_i heq
    exact absurd (List.cons.inj heq).1 hc
  · rfl

/-- Digits of another radix start with a zero and a letter. -/
theorem radixCut_zero {c : Char} (hc : isWordPart c = false) (cs : List Char) :
    radixCut? ('0' :: c :: cs) = none := by
  have hx : ¬ (c == 'x' || c == 'X') = true := by
    intro h
    rw [isWordPart_of_isAlpha (isAlpha_of_either h rfl rfl)] at hc
    cases hc
  have hb : ¬ (c == 'b' || c == 'B') = true := by
    intro h
    rw [isWordPart_of_isAlpha (isAlpha_of_either h rfl rfl)] at hc
    cases hc
  simp only [radixCut?, if_neg hx, if_neg hb]

theorem steady_radixCut_zero {cs more : List Char} (h : Halts cs more) :
    radixCut? ('0' :: (cs ++ more)) = (radixCut? ('0' :: cs)).map (·.append more) := by
  cases cs with
  | nil =>
    cases more with
    | nil => rfl
    | cons c more =>
      exact radixCut_zero (h.first_eq_false fun c => isNumberPart_of_isWordPart) more
  | cons c cs =>
    have hradix : ∀ {p : Char → Bool}, (∀ c, p c = true → isWordPart c = true) →
        isWordPart c = true → digitsCut? p (cs ++ more) = (digitsCut? p cs).map (·.append more) :=
      fun hp hc => steady_digitsCut (fun d hd => isNumberPart_of_isWordPart (hp d hd)) cs more
        (h.tail (isNumberPart_of_isWordPart hc))
    simp only [List.cons_append, radixCut?]
    by_cases hx : (c == 'x' || c == 'X') = true
    · have hc : isWordPart c = true := isWordPart_of_isAlpha (isAlpha_of_either hx rfl rfl)
      simp only [if_pos hx, hradix (fun c => isWordPart_of_isHexDigit) hc, Option.map_map]
      rfl
    by_cases hb : (c == 'b' || c == 'B') = true
    · have hc : isWordPart c = true := isWordPart_of_isAlpha (isAlpha_of_either hb rfl rfl)
      simp only [if_neg hx, if_pos hb, hradix (fun c => isWordPart_of_isBinaryDigit) hc,
        Option.map_map]
      rfl
    · simp only [if_neg hx, if_neg hb, Option.map_none]

theorem steady_radixCut : SteadyOption radixCut? := by
  intro cs more h
  cases cs with
  | nil =>
    cases more with
    | nil => rfl
    | cons c more =>
      have hc : c ≠ '0' := by
        rintro rfl
        cases h.first
      rw [List.nil_append, radixCut_eq_none hc]
      rfl
  | cons z cs =>
    by_cases hz : z = '0'
    · subst hz
      exact steady_radixCut_zero (h.tail rfl)
    · rw [List.cons_append, radixCut_eq_none hz, radixCut_eq_none hz]
      rfl

theorem Halts.integerDigits {cs text rest more : List Char} (h : Halts cs more)
    (hd : (radixCut? cs).or (digitsCut? Char.isDigit cs) = some (text, rest)) :
    Halts rest more := by
  rcases Option.or_eq_some_iff.mp hd with hd | ⟨-, hd⟩
  · rw [← append_of_radixCut? hd] at h
    exact h.rest (isNumber_of_radixCut hd).2
  · rw [← append_of_digitsCut? hd] at h
    exact h.rest (digitsCut_subset (fun c => isWordPart_of_isDigit) hd).2

theorem isNumberPart_of_isLongSuffix (c : Char) (hc : (c == 'l' || c == 'L') = true) :
    isNumberPart c = true :=
  isNumberPart_of_isAlpha (isAlpha_of_either hc rfl rfl)

theorem steady_integerCut : SteadyOption integerCut? := by
  intro cs more h
  have hdigits : (radixCut? (cs ++ more)).or (digitsCut? Char.isDigit (cs ++ more)) =
      ((radixCut? cs).or (digitsCut? Char.isDigit cs)).map (·.append more) := by
    rw [steady_radixCut cs more h,
      steady_digitsCut (fun c => isNumberPart_of_isDigit) cs more h]
    cases radixCut? cs <;> rfl
  unfold integerCut?
  rw [hdigits]
  cases hd : (radixCut? cs).or (digitsCut? Char.isDigit cs) with
  | none => rfl
  | some cut =>
    obtain ⟨digits, rest⟩ := cut
    have hsuffix : optionalLongSuffix (rest ++ more) = (optionalLongSuffix rest).append more :=
      steady_optionalChar isNumberPart_of_isLongSuffix rest more (h.integerDigits hd)
    simp only [Option.map_some, Cut.append, hsuffix]

/-! ## Whole numbers -/

theorem atWordEnd_append {cs more : List Char} (h : Halts cs more) :
    atWordEnd (cs ++ more) = atWordEnd cs := by
  cases cs with
  | nil =>
    cases more with
    | nil => rfl
    | cons c more =>
      simp [atWordEnd, h.first_eq_false fun c => isNumberPart_of_isWordPart]
  | cons c cs => rfl

/-- A steady cut into a number and the rest stays steady when the rest must not go on as a word. -/
theorem steady_filter {f : List Char → Option Cut} (hf : SteadyOption f)
    (hnumber : ∀ {cs text rest}, f cs = some (text, rest) → text ++ rest = cs ∧ IsNumber text) :
    SteadyOption fun cs => (f cs).filter fun (_, rest) => atWordEnd rest := by
  intro cs more h
  show (f (cs ++ more)).filter _ = ((f cs).filter _).map _
  rw [hf cs more h]
  cases hcut : f cs with
  | none => rfl
  | some cut =>
    obtain ⟨text, rest⟩ := cut
    obtain ⟨rfl, -, hparts⟩ := hnumber hcut
    simp only [Option.map_some, Option.filter_some, Cut.append,
      atWordEnd_append (h.rest hparts)]
    split <;> rfl

theorem steady_floating : SteadyOption floating? :=
  steady_filter steady_floatingCut fun h =>
    ⟨(append_of_floatingCut? h).1, isNumber_of_floatingCut h⟩

theorem steady_integer : SteadyOption integer? :=
  steady_filter steady_integerCut fun h => ⟨(append_of_integerCut? h).1, isNumber_of_integerCut h⟩

/-! ## Quoted texts -/

theorem stringEnd_prefix {cs text rest : List Char} (h : stringEnd? cs = some (text, rest))
    (more : List Char) : stringEnd? (text ++ more) = some (text, more) := by
  fun_induction stringEnd? cs generalizing text rest with
  | case1 cs =>
    cases h
    rfl
  | case2 c cs ih =>
    obtain ⟨⟨b, r⟩, hb, heq⟩ := Option.map_eq_some_iff.mp h
    cases heq
    simp only [List.cons_append, stringEnd?, ih hb, Option.map_some]
  | case3 => cases h
  | case4 => cases h
  | case5 => cases h
  | case6 c cs h1 h2 h3 h4 h5 ih =>
    obtain ⟨⟨b, r⟩, hb, heq⟩ := Option.map_eq_some_iff.mp h
    cases heq
    have hbackslash : c ≠ '\\' := by
      intro hc
      cases cs with
      | nil => exact h3 hc rfl
      | cons d ds => exact h2 d ds hc rfl
    rw [List.cons_append, stringEnd?, ih hb]
    · rfl
    · exact h1
    · exact fun _ _ hc _ => hbackslash hc
    · exact fun hc _ => hbackslash hc
    · exact h4
    · exact h5
  | case7 => cases h

theorem quoteEnd_prefix {cs text rest : List Char} (h : quoteEnd? cs = some (text, rest))
    (more : List Char) : quoteEnd? (text ++ more) = some (text, more) := by
  fun_induction quoteEnd? cs generalizing text rest with
  | case1 cs =>
    cases h
    rfl
  | case2 c cs hc ih =>
    obtain ⟨⟨b, r⟩, hb, heq⟩ := Option.map_eq_some_iff.mp h
    cases heq
    rw [List.cons_append, quoteEnd?, ih hb]
    · rfl
    · exact hc
  | case3 => cases h

theorem string_prefix {cs text rest : List Char} (h : string? cs = some (text, rest))
    (more : List Char) : string? (text ++ more) = some (text, more) := by
  unfold string? at h
  split at h
  · obtain ⟨⟨b, r⟩, hb, heq⟩ := Option.map_eq_some_iff.mp h
    cases heq
    simp only [List.cons_append, string?, stringEnd_prefix hb, Option.map_some]
  · cases h

theorem character_prefix {cs text rest : List Char} (h : character? cs = some (text, rest))
    (more : List Char) : character? (text ++ more) = some (text, more) := by
  unfold character? at h
  split at h
  · obtain ⟨⟨b, r⟩, hb, heq⟩ := Option.map_eq_some_iff.mp h
    cases heq
    simp only [List.cons_append, character?, quoteEnd_prefix hb, Option.map_some]
  · rename_i c cs _
    by_cases hc : (c == '\'' || c == '\\' || c == '\n' || c == '\r') = true
    · rw [if_pos hc] at h
      cases h
    · rw [if_neg hc] at h
      cases h
      have hbackslash : c ≠ '\\' := by
        rintro rfl
        exact hc rfl
      show character? ('\'' :: c :: '\'' :: more) = _
      rw [character?, if_neg hc]
      exact hbackslash
  · cases h

end LosslessJava.Lex
