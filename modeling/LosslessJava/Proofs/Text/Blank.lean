import LosslessJava.Lex.Number
import LosslessJava.Text.Blank

/-!
# White space and the characters of words

* `isBlank_eq_false_of_isWordPart`: no character of a word is white space.
* `dropTrailingBlanks_of_last`: a text whose last character is no white space loses nothing at its
  end.
* `dropTrailingBlanks_append`: white space at the end of a text is lost.
-/

namespace LosslessJava

/-- No range of the one list meets a range of the other. -/
def apart (rs qs : List (Nat × Nat)) : Bool :=
  rs.all fun r => qs.all fun q => r.2 < q.1 || q.2 < r.1

theorem inRanges_eq_false_of_apart {rs qs : List (Nat × Nat)} (h : apart rs qs = true) {c : Char}
    (hc : inRanges rs c = true) : inRanges qs c = false := by
  obtain ⟨r, hr, hlo, hhi⟩ := inRanges_iff.mp hc
  cases hq : inRanges qs c with
  | false => rfl
  | true =>
    obtain ⟨q, hqm, hlo', hhi'⟩ := inRanges_iff.mp hq
    simp only [apart, List.all_eq_true, Bool.or_eq_true, decide_eq_true_eq] at h
    have := h r hr q hqm
    omega

theorem apart_blank_alphabetic : apart blankRanges alphabeticRanges = true := by decide +kernel

theorem apart_blank_added : apart blankRanges addedLetterRanges = true := by decide

/-- ASCII white space. -/
theorem toNat_of_isBlank {c : Char} (h : isBlank c = true) (hc : c.toNat < 128) :
    c.toNat = 32 ∨ 9 ≤ c.toNat ∧ c.toNat ≤ 13 := by
  simp only [isBlank, Bool.or_eq_true, Bool.and_eq_true, decide_eq_true_eq, beq_iff_eq] at h
  rcases h with (rfl | h) | h
  · exact Or.inl rfl
  · exact Or.inr h
  · omega

theorem isAlpha_iff {c : Char} : c.isAlpha = true ↔
    65 ≤ c.toNat ∧ c.toNat ≤ 90 ∨ 97 ≤ c.toNat ∧ c.toNat ≤ 122 := by
  have halpha : c.isAlpha = (decide (c.val ≥ 65 ∧ c.val ≤ 90) ||
    (decide (c.val ≥ 97) && decide (c.val ≤ 122))) := rfl
  simp only [halpha, Bool.or_eq_true, Bool.and_eq_true, decide_eq_true_eq, ge_iff_le,
    UInt32.le_iff_toNat_le]
  exact Iff.rfl

theorem toNat_of_isDigit {c : Char} (h : c.isDigit = true) : 48 ≤ c.toNat ∧ c.toNat ≤ 57 := by
  simp only [Char.isDigit, Bool.and_eq_true, decide_eq_true_eq, UInt32.le_iff_toNat_le] at h
  exact h

theorem isBlank_eq_false_of_isLetter {c : Char} (h : isLetter c = true) : isBlank c = false := by
  cases hb : isBlank c with
  | false => rfl
  | true =>
    by_cases hc : c.toNat < 128
    · have hblank := toNat_of_isBlank hb hc
      simp only [isLetter, isAlphabetic, Bool.or_eq_true, Bool.and_eq_true, decide_eq_true_eq] at h
      rcases h with (h | h) | h
      · have := isAlpha_iff.mp h
        omega
      · omega
      · omega
    · have hr : inRanges blankRanges c = true := by
        simp only [isBlank, Bool.or_eq_true, Bool.and_eq_true, decide_eq_true_eq, beq_iff_eq] at hb
        rcases hb with (rfl | hb) | hb
        · exact absurd (show (' ' : Char).toNat < 128 by decide) hc
        · omega
        · exact hb.2
      simp only [isLetter, isAlphabetic, inRanges_eq_false_of_apart apart_blank_alphabetic hr,
        inRanges_eq_false_of_apart apart_blank_added hr, Bool.and_false, Bool.or_false] at h
      have := isAlpha_iff.mp h
      omega

theorem isBlank_eq_false_of_isDigit {c : Char} (h : c.isDigit = true) : isBlank c = false := by
  have hd := toNat_of_isDigit h
  cases hb : isBlank c with
  | false => rfl
  | true =>
    have := toNat_of_isBlank hb (by omega)
    omega

theorem isBlank_eq_false_of_isWordPart {c : Char} (h : Lex.isWordPart c = true) :
    isBlank c = false := by
  simp only [Lex.isWordPart, Bool.or_eq_true, beq_iff_eq] at h
  rcases h with ((h | h) | rfl) | rfl
  · exact isBlank_eq_false_of_isLetter h
  · exact isBlank_eq_false_of_isDigit h
  · rfl
  · rfl

theorem isWordPart_of_isWordStart {c : Char} (h : Lex.isWordStart c = true) :
    Lex.isWordPart c = true := by
  simp only [Lex.isWordStart, Bool.or_eq_true] at h
  rcases h with (h | h) | h <;> simp [Lex.isWordPart, h]

theorem dropTrailingBlanks_of_last {cs : List Char} {c : Char} (h : isBlank c = false) :
    dropTrailingBlanks (cs ++ [c]) = cs ++ [c] := by
  simp [dropTrailingBlanks, h]

theorem dropTrailingBlanks_append {cs ds : List Char} (h : ∀ c ∈ ds, isBlank c = true) :
    dropTrailingBlanks (cs ++ ds) = dropTrailingBlanks cs := by
  rw [dropTrailingBlanks, List.reverse_append,
    List.dropWhile_append_of_pos fun c hc => h c (List.mem_reverse.mp hc), dropTrailingBlanks]

end LosslessJava
