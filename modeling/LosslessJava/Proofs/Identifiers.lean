import LosslessJava.Proofs.Lex.Identifier
import LosslessJava.Proofs.Naming

/-!
# Identifiers of names and of texts

Qualified names check their segments by a rule of their own, apart from the rule of the grammar. It
allows all numerals where the grammar allows the ASCII digits, and the alphabetic characters of an
earlier edition of Unicode. Apart from these characters, the two rules accept the same.

* `isWord_of_isIdentifier`, `isIdentifier_of_isWord`: from one rule to the other.
* `isIdentifier_iff_identifier`: a text is a segment when the grammar reads all of it as an
  identifier.
-/

namespace LosslessJava

open Grammar
open Lexeme (ofText)

/-- A segment with no numerals but letters and digits is a word. -/
theorem isWord_of_isIdentifier {w : String} (h : isIdentifier w = true)
    (hnumerals : ∀ c ∈ w.toList, isNumeric c = true → isLetter c = true ∨ c.isDigit = true) :
    IsWord w.toList := by
  unfold isIdentifier at h
  split at h
  · cases h
  · rename_i c cs heq
    rw [heq] at hnumerals ⊢
    simp only [Bool.and_eq_true] at h
    obtain ⟨⟨hstart, hall⟩, -⟩ := h
    refine ⟨c, cs, rfl, ?_, fun d hd => ?_⟩
    · simp only [isSegmentStart, Bool.or_eq_true] at hstart
      simp only [Lex.isWordStart, Bool.or_eq_true]
      exact hstart.imp_left (Or.imp_left isLetter_of_isAlphabetic)
    · have hpart := List.all_eq_true.mp hall d hd
      simp only [isSegmentPart, Bool.or_eq_true] at hpart
      simp only [Lex.isWordPart, Bool.or_eq_true]
      refine hpart.imp_left (Or.imp_left fun hd' => ?_)
      rcases hd' with halphabetic | hnumeric
      · exact .inl (isLetter_of_isAlphabetic halphabetic)
      · exact hnumerals d (List.mem_cons_of_mem c hd) hnumeric

/-- The grammar reads all of a text as an identifier when its rule takes the text as it stands, with
no trivia in front of it. -/
theorem Grammar.parse_identifier_self_iff {s : String} :
    identifier.parse (ofText s.toList) = some (⟨.empty, s, none⟩, [⟨.empty, .finish⟩]) ↔
      Lex.identifier? s.toList = some (s.toList, []) := by
  rw [parse_identifier]
  constructor
  · intro h
    obtain ⟨⟨w, rest⟩, hcut, heq⟩ := Option.map_eq_some_iff.mp h
    have hlead : Trivia.ofList (Lex.skip s.toList).1 = .empty := congrArg (fun r => r.1.lead) heq
    have hw : String.ofList w = s := congrArg (fun r => r.1.name) heq
    have hskip : (Lex.skip s.toList).1 = [] := by
      rw [← Trivia.toList_ofList (Lex.skip s.toList).1, hlead]
      rfl
    have hbody : (Lex.skip s.toList).2 = s.toList := by
      simpa [hskip] using Lex.append_skip s.toList
    rw [hbody] at hcut
    obtain rfl : w = s.toList := by rw [← hw, String.toList_ofList]
    have hrest : rest = [] := by
      rw [Lex.identifier?_eq] at hcut
      simpa using (Token.append_of_word? (Option.filter_eq_some_iff.mp hcut).1).1
    rw [hcut, hrest]
  · intro h
    have hskip := Lex.skip_of_isWord (Lex.identifier?_self_iff.mp h).1 []
    rw [List.append_nil] at hskip
    rw [hskip, h, Option.map_some, String.ofList_toList, Lexeme.ofText_nil]
    rfl

/-- In a text with alphabetic letters, and with no numerals outside ASCII but alphabetic ones, a
segment of a name is what the grammar reads as an identifier: as a rule on the characters, and on
the tokens of the text. -/
theorem isIdentifier_iff_identifier {s : String}
    (hletters : ∀ c ∈ s.toList, isLetter c = true → isAlphabetic c = true)
    (hnumerals : ∀ c ∈ s.toList, 0x80 ≤ c.toNat → isAlphabetic c = true ∨ isNumeric c = false) :
    (isIdentifier s = true ↔ Lex.identifier? s.toList = some (s.toList, [])) ∧
      (isIdentifier s = true ↔
        identifier.parse (ofText s.toList) = some (⟨.empty, s, none⟩, [⟨.empty, .finish⟩])) := by
  have hiff : isIdentifier s = true ↔ Lex.identifier? s.toList = some (s.toList, []) := by
    rw [Lex.identifier?_self_iff]
    constructor
    · intro h
      refine ⟨isWord_of_isIdentifier h fun c hc hnumeric => ?_, ?_⟩
      · by_cases hascii : 0x80 ≤ c.toNat
        · rcases hnumerals c hc hascii with halphabetic | hnot
          · exact .inl (isLetter_of_isAlphabetic halphabetic)
          · rw [hnumeric] at hnot
            cases hnot
        · exact .inr (by simpa [isNumeric, hascii] using hnumeric)
      · simpa using not_reserved_of_isIdentifier h
    · rintro ⟨hword, hreserved⟩
      exact isIdentifier_of_isWord hword hletters hreserved
  exact ⟨hiff, hiff.trans parse_identifier_self_iff.symm⟩

/-- A segment that starts with two reserved words, one of which starts the other, and goes on with a
letter that is a numeral. -/
theorem isIdentifier_iff_identifier_interface :
    isIdentifier "interfaceⅧ_1" = true ∧
      Lex.identifier? "interfaceⅧ_1".toList = some ("interfaceⅧ_1".toList, []) ∧
      identifier.parse (ofText "interfaceⅧ_1".toList) =
        some (⟨.empty, "interfaceⅧ_1", none⟩, [⟨.empty, .finish⟩]) := by
  have hlegal : isIdentifier "interfaceⅧ_1" = true := by decide +kernel
  have hletters : ("interfaceⅧ_1".toList.all fun c => !isLetter c || isAlphabetic c) = true := by
    decide +kernel
  have hnumerals : ("interfaceⅧ_1".toList.all fun c =>
      !decide (0x80 ≤ c.toNat) || (isAlphabetic c || !isNumeric c)) = true := by
    decide +kernel
  obtain ⟨hrule, htokens⟩ := isIdentifier_iff_identifier (s := "interfaceⅧ_1")
    (fun c hc h => by simpa [h] using List.all_eq_true.mp hletters c hc)
    (fun c hc h => by simpa [h] using List.all_eq_true.mp hnumerals c hc)
  exact ⟨hlegal, hrule.mp hlegal, htokens.mp hlegal⟩

end LosslessJava
