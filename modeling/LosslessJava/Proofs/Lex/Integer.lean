import LosslessJava.Proofs.Lex.Identifier
import Mathlib.Data.Bool.AllAny

/-!
# Texts of integer literals

An integer literal is a mark of its radix, digits with underscores behind the first of them, and a
suffix. No floating point literal starts where one stands, so it is a token of its own.

* `IsInteger`: the shape of the text.
* `isInteger_of_integer`: the literals of the grammar have that shape.
* `Lexeme.ofText_integer`: such a text is one token.
-/

namespace LosslessJava

namespace Lex

variable {p : Char → Bool} {cs text rest : List Char}

/-- A mark in front of digits, and the digits that it admits. -/
inductive Marks : List Char → (Char → Bool) → Prop where
  | hexadecimal {c : Char} (h : c = 'x' ∨ c = 'X') : Marks ['0', c] isHexDigit
  | binary {c : Char} (h : c = 'b' ∨ c = 'B') : Marks ['0', c] isBinaryDigit
  | bare : Marks [] Char.isDigit

/-- The parts of an integer literal: a mark, a first digit, digits and underscores behind it, and a
suffix or none. -/
structure IntegerParts (mark : List Char) (p : Char → Bool) (d : Char) (ds suffix : List Char) :
    Prop where
  mark : Marks mark p
  first : p d = true
  more : ∀ c ∈ ds, p c = true ∨ c = '_'
  suffix : suffix = [] ∨ suffix = ['l'] ∨ suffix = ['L']

inductive IsInteger : List Char → Prop where
  | intro {mark ds suffix : List Char} {p : Char → Bool} {d : Char}
      (h : IntegerParts mark p d ds suffix) : IsInteger (mark ++ d :: ds ++ suffix)

/-! ## Digits -/

/-- The digits of all radixes. -/
def hexDigits : List Char := "0123456789abcdefABCDEF".toList

theorem mem_hexDigits {c : Char} (h : isHexDigit c = true) : c ∈ hexDigits := by
  have hall : ∀ n < 128, isHexDigit (Char.ofNat n) = true → Char.ofNat n ∈ hexDigits := by
    decide
  have hlt : c.toNat < 128 := by
    simp only [isHexDigit, Bool.or_eq_true, Bool.and_eq_true, decide_eq_true_eq] at h
    rcases h with (h | h) | h
    · exact Nat.lt_of_le_of_lt (toNat_of_isDigit h).2 (by decide)
    · exact Nat.lt_of_le_of_lt h.2 (by decide)
    · exact Nat.lt_of_le_of_lt h.2 (by decide)
  have hmem := hall c.toNat hlt
  rw [Char.ofNat_toNat] at hmem
  exact hmem h

theorem mem_hexDigits_of_isDigit {c : Char} (h : c.isDigit = true) : c ∈ hexDigits :=
  mem_hexDigits (by simp [isHexDigit, h])

theorem Marks.mem_hexDigits {mark : List Char} {c : Char} (h : Marks mark p) (hc : p c = true) :
    c ∈ hexDigits := by
  cases h with
  | hexadecimal _ => exact Lex.mem_hexDigits hc
  | binary _ =>
    simp only [isBinaryDigit, Bool.or_eq_true, beq_iff_eq] at hc
    rcases hc with rfl | rfl <;> decide
  | bare => exact mem_hexDigits_of_isDigit hc

/-- What stands in a literal without a mark. -/
theorem IntegerParts.digit_or_suffix {d : Char} {ds suffix : List Char}
    (h : IntegerParts [] Char.isDigit d ds suffix) :
    ∀ c ∈ d :: (ds ++ suffix), c.isDigit = true ∨ c ∈ "_lL".toList := by
  refine List.forall_mem_cons.mpr ⟨.inl h.first, fun c hc => ?_⟩
  rcases List.mem_append.mp hc with hc | hc
  · rcases h.more c hc with hc | rfl
    · exact .inl hc
    · exact .inr (by decide)
  · rcases h.suffix with rfl | rfl | rfl
    · cases hc
    · obtain rfl := List.mem_singleton.mp hc
      exact .inr (by decide)
    · obtain rfl := List.mem_singleton.mp hc
      exact .inr (by decide)

theorem isWordStart_of_isDigit {c : Char} (hc : c.isDigit = true) : isWordStart c = false := by
  have hall : ∀ c ∈ hexDigits, c.isDigit = true → isWordStart c = false :=
    List.all_iff_forall_prop.mp (by decide)
  exact hall c (mem_hexDigits_of_isDigit hc) hc

/-! ## What the grammar takes -/

theorem digits_of_digitsCut (h : digitsCut? p cs = some (text, rest)) :
    ∃ d ds, text = d :: ds ∧ p d = true ∧ ∀ c ∈ ds, p c = true ∨ c = '_' := by
  cases cs with
  | nil => cases h
  | cons d cs =>
    simp only [digitsCut?] at h
    split at h
    · rename_i hd
      cases h
      refine ⟨d, _, rfl, hd, fun c hc => ?_⟩
      have hc := run_subset (p := fun c => p c || c == '_') (fun _ h => h) cs c hc
      simpa using hc
    · cases h

theorem digits_of_radixCut (h : radixCut? cs = some (text, rest)) :
    ∃ mark p d ds, text = mark ++ d :: ds ∧ Marks mark p ∧ p d = true ∧
      ∀ c ∈ ds, p c = true ∨ c = '_' := by
  unfold radixCut? at h
  split at h
  · rename_i c cs
    have hradix : ∀ {p : Char → Bool}, Marks ['0', c] p →
        (digitsCut? p cs).map (fun cut => ('0' :: c :: cut.1, cut.2)) = some (text, rest) →
        ∃ mark p d ds, text = mark ++ d :: ds ∧ Marks mark p ∧ p d = true ∧
          ∀ c ∈ ds, p c = true ∨ c = '_' := by
      intro p hmark hm
      obtain ⟨cut, hcut, heq⟩ := Option.map_eq_some_iff.mp hm
      obtain ⟨d, ds, hdigits, hd, hds⟩ := digits_of_digitsCut hcut
      obtain ⟨rfl, -⟩ := Prod.mk.inj heq
      exact ⟨['0', c], p, d, ds, by rw [hdigits]; rfl, hmark, hd, hds⟩
    split at h
    · rename_i hc
      exact hradix (.hexadecimal (by simpa using hc)) h
    · split at h
      · rename_i hc
        exact hradix (.binary (by simpa using hc)) h
      · cases h
  · cases h

theorem optionalLongSuffix_cases (cs : List Char) : (optionalLongSuffix cs).1 = [] ∨
    (optionalLongSuffix cs).1 = ['l'] ∨ (optionalLongSuffix cs).1 = ['L'] := by
  unfold optionalLongSuffix optionalChar
  split
  · split
    · rename_i hc
      rw [Bool.or_eq_true, beq_iff_eq, beq_iff_eq] at hc
      rcases hc with rfl | rfl
      · exact .inr (.inl rfl)
      · exact .inr (.inr rfl)
    · exact .inl rfl
  · exact .inl rfl

theorem isInteger_of_integer (h : integer? cs = some (text, rest)) : IsInteger text := by
  obtain ⟨⟨digits, behind⟩, hcut, heq⟩ :=
    Option.map_eq_some_iff.mp (Option.filter_eq_some_iff.mp h).1
  obtain ⟨rfl, -⟩ := Prod.mk.inj heq
  obtain ⟨mark, p, d, ds, rfl, hmark, hd, hds⟩ : ∃ mark p d ds, digits = mark ++ d :: ds ∧
      Marks mark p ∧ p d = true ∧ ∀ c ∈ ds, p c = true ∨ c = '_' := by
    rcases Option.or_eq_some_iff.mp hcut with hcut | ⟨-, hcut⟩
    · exact digits_of_radixCut hcut
    · obtain ⟨d, ds, rfl, hd, hds⟩ := digits_of_digitsCut hcut
      exact ⟨[], _, d, ds, rfl, .bare, hd, hds⟩
  exact .intro ⟨hmark, hd, hds, optionalLongSuffix_cases behind⟩

/-! ## The token -/

/-- Digits start no floating point literal when something else follows than a point, an exponent or
a suffix. -/
theorem floating_eq_none (h : ∀ c ∈ (cs.dropWhile Char.isDigit).head?, c ∉ ".eEfFdD".toList) :
    floating? cs = none := by
  have hcut : floatingCut? cs = none := by
    unfold floatingCut? run
    cases hrest : cs.dropWhile Char.isDigit with
    | nil => simp [exponent?, optionalFloatingSuffix, optionalChar]
    | cons c rest =>
      rw [hrest] at h
      have hc : c ≠ '.' ∧ c ≠ 'e' ∧ c ≠ 'E' ∧ c ≠ 'f' ∧ c ≠ 'F' ∧ c ≠ 'd' ∧ c ≠ 'D' := by
        simpa using h c rfl
      simp [exponent?, optionalFloatingSuffix, optionalChar, hc]
  rw [floating?, hcut]
  rfl

theorem IsInteger.floating_eq_none (h : IsInteger cs) : floating? cs = none := by
  apply Lex.floating_eq_none
  cases h with
  | @intro mark ds suffix p d h =>
    have hmark := h.mark
    cases hmark with
    | hexadecimal hc => rcases hc with rfl | rfl <;> simp
    | binary hc => rcases hc with rfl | rfl <;> simp
    | bare =>
      intro c hc
      -- The first character that is no digit is an underscore or the suffix.
      have hnot : c.isDigit = false := by
        have hhead := List.head?_dropWhile_not Char.isDigit ([] ++ d :: ds ++ suffix)
        rw [hc] at hhead
        simpa using hhead
      have hmem := (List.dropWhile_sublist Char.isDigit).mem (List.mem_of_mem_head? hc)
      have hother : ∀ c ∈ "_lL".toList, c ∉ ".eEfFdD".toList :=
        List.all_iff_forall_prop.mp (by decide)
      exact hother c ((h.digit_or_suffix c hmem).resolve_left (Bool.eq_false_iff.mp hnot))

theorem IsInteger.first (h : IsInteger cs) : ∃ c ds, cs = c :: ds ∧ c.isDigit = true := by
  cases h with
  | @intro mark ds suffix p d h =>
    obtain ⟨hmark, hd, -, -⟩ := h
    cases hmark with
    | hexadecimal _ => exact ⟨'0', _, rfl, rfl⟩
    | binary _ => exact ⟨'0', _, rfl, rfl⟩
    | bare => exact ⟨d, _, rfl, hd⟩

end Lex

/-- A text that is an integer literal is one token. -/
theorem Lexeme.ofText_integer {text : String}
    (h : Lex.integer? text.toList = some (text.toList, [])) :
    ofText text.toList = [⟨.empty, .literal .integer text⟩, ⟨.empty, .finish⟩] := by
  have hinteger := Lex.isInteger_of_integer h
  obtain ⟨c, ds, hcs, hc⟩ := hinteger.first
  have hpart := Lex.isWordPart_of_isDigit hc
  have hskip : Lex.skip text.toList = ([], text.toList) := by
    rw [hcs]
    refine Lex.skip_of_first (Lex.isSpace_eq_false_of_isWordPart hpart) ?_
    exact fun hslash => absurd hslash (ne_of_isWordPart hpart isWordPart_slash)
  have hword : Token.word? text.toList = none := by
    simp [Token.word?, hcs, Lex.isWordStart_of_isDigit hc]
  have hliteral : Token.literal? text.toList = some (.integer, text.toList, []) := by
    simp [Token.literal?, hinteger.floating_eq_none, h]
  rw [ofText_of_next hskip (by simp [hcs]) (Token.next_of_literal hword hliteral), ofText_nil,
    String.ofList_toList]
  rfl

theorem Token.integer_of_literal {cs text rest : List Char}
    (h : literal? cs = some (.integer, text, rest)) : Lex.integer? cs = some (text, rest) := by
  simp only [literal?, Option.or_eq_some_iff, Option.map_eq_some_iff, Prod.mk.injEq] at h
  rcases h with ⟨_, _, hkind, -⟩ | ⟨-, ⟨_, hinteger, -, rfl⟩ |
    ⟨-, ⟨_, _, hkind, -⟩ | ⟨-, _, _, hkind, -⟩⟩⟩
  · cases hkind
  · exact hinteger
  · cases hkind
  · cases hkind

/-- The integer literals of a text are literals of the grammar. -/
theorem Lexeme.isInteger_of_mem {cs : List Char} {t : Trivia} {text : String}
    (h : ⟨t, .literal .integer text⟩ ∈ ofText cs) : Lex.IsInteger text.toList := by
  fun_induction ofText cs with
  | case1 => simp at h
  | case2 cs blank hne ih =>
    rcases List.mem_cons.mp h with heq | h
    · have hnext : Token.next blank.2 = (.literal .integer text, (Token.next blank.2).2) :=
        Prod.ext (congrArg Lexeme.token heq).symm rfl
      rcases Token.next_cases hne hnext with ⟨w, -, hw⟩ | ⟨kind, w, -, hl, hw⟩ | ⟨c, -, -, hw⟩
      · cases hw
      · cases hw
        rw [String.toList_ofList]
        exact Lex.isInteger_of_integer (Token.integer_of_literal hl)
      · cases hw
    · exact ih h

end LosslessJava
