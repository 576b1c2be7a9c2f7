import LosslessJava.Proofs.Grammar.Written
import LosslessJava.Proofs.Identifiers
import LosslessJava.Proofs.ImportOrder
import LosslessJava.Proofs.NameText

/-!
# Imports that are built

An import is built from any qualified name, and printed in default formatting. A qualified name can
have numerals in it that the grammar does not allow in an identifier, such as superscripts. The
print of its import is no Java text then. All other names are read back.

* `parseUnit_import`: the print of an import that can be written is a unit of that import.
* `words_of_import`: every segment of an import that was read is a word.
* `readsImport_build`: the print of a built import is read as that import when all numerals in its
  name are letters or ASCII digits.
-/

namespace LosslessJava

open Grammar Grammar.Parser
open Lexeme (textOf ofText)

/-! ## Texts of one import -/

/-- The print of an import that can be written is a unit of that import. -/
theorem parseUnit_import {path : Option String} {i : Import} (h : i.Written) :
    parseUnit path (print i) = .ok ⟨path, none, [i], [], .empty⟩ := by
  have hi := portable_import h
  have hls := lexed_of_relexed hi.relexed hi.valid
  have hofText : ofText (print i).toList = i.lexemes ++ [⟨.empty, .finish⟩] := by
    rw [toList_print, ← hi.text, ← List.append_nil (textOf _), hi.relexed, Lexeme.ofText_nil]
    rfl
  rw [parseUnit_eq_ok, hofText]
  refine ⟨rfl, hls.valid, [], parse_compilationUnit.mpr
    ⟨rfl, i.lexemes ++ [⟨.empty, .finish⟩], [⟨.empty, .finish⟩], ?_, ?_, rfl⟩⟩
  · exact parse_optional_eq_some.mpr (.inl ⟨rfl, rfl, parse_package_import hi⟩)
  · have hlength : i.lexemes.length ≤
        (i.lexemes ++ [(⟨.empty, .finish⟩ : Lexeme)]).length + 1 := by
      simp only [List.length_append]
      omega
    have hseveral : Several (Portable importDeclaration) (i.lexemes ++ []) [i] := .cons hi .nil
    rw [List.append_nil] at hseveral
    exact parseMany_imports rfl hseveral hlength hlength

/-- Every segment of an import that was read is a word. -/
theorem words_of_import {path : Option String} {source : String} {u : CompilationUnit}
    (h : parseUnit path source = .ok u) :
    ∀ i ∈ u.imports, ∀ w ∈ i.name.segments, IsWord w.toList := by
  obtain ⟨-, -, rest, hparse⟩ := parseUnit_eq_ok.mp h
  obtain ⟨-, behind, classes, hpackage, himports, -⟩ := parse_compilationUnit.mp hparse
  have hlegal := Lexeme.legal_ofText source.toList
  obtain ⟨xs, hls, -⟩ := reads_packageDeclaration.optional _ _ _ hlegal hpackage
  have hbehind : ∀ l ∈ behind, l.token.Legal := by
    intro l hl
    refine (hlegal l ?_).token
    rw [hls]
    exact List.mem_append_right xs hl
  have heq := congrArg Prod.fst himports
  rw [← show _ = u.imports from heq]
  exact (parseMany_makes (makes_importDeclaration (Q := Token.Legal)
    (P := fun w => IsWord w.toList) fun w hw _ => hw) _ hbehind).1

/-! ## Built imports -/

theorem QualifiedName.legal_of_parse {text : String} {n : QualifiedName}
    (h : QualifiedName.parse text = .ok n) : n.Legal :=
  (parse_eq_ok_iff.mp h).1

theorem Import.written_build {n : QualifiedName}
    (hn : ∀ w ∈ n.segments, IsWord w.toList ∧ reservedWords.contains w = false)
    (isStatic wildcard : Bool) : (Import.build n isStatic wildcard).Written := by
  have hspace : Lex.IsGap false Trivia.space.toList ∧ Trivia.space ≠ .empty :=
    ⟨.space (by decide) .nil, by decide⟩
  refine ⟨.nil, fun t ht => ?_, hspace, hn, .nil⟩
  cases isStatic with
  | true =>
    obtain rfl : Trivia.space = t := Option.some.inj ht
    exact hspace
  | false => cases ht

/-- The text is read as a unit with one import, of the name and with the flags. -/
def ReadsImport (source : String) (n : QualifiedName) (isStatic wildcard : Bool) : Prop :=
  ∃ u i, SourceText.parseAttributed .standard ⟨none, source⟩ = .ok u ∧ u.imports = [i] ∧
    i.name = n ∧ i.isStatic = isStatic ∧ i.wildcard = wildcard

/-- The print of an import that is built from a name is read as that import, static and on demand as
it was built, when all numerals in the name are letters or ASCII digits. -/
theorem readsImport_build {text : String} {n : QualifiedName}
    (h : QualifiedName.parse text = .ok n) (isStatic wildcard : Bool) :
    ReadsImport (print (Import.build n isStatic wildcard)) n isStatic wildcard ↔
      ∀ w ∈ n.segments, ∀ c ∈ w.toList,
        isNumeric c = true → isLetter c = true ∨ c.isDigit = true := by
  constructor
  · rintro ⟨u, i, hu, himports, rfl, -, -⟩ w hw c hc hnumeric
    obtain ⟨v, index, hv, rfl⟩ := SourceText.parseAttributed_eq_ok hu
    have hi : i ∈ v.imports := by
      rw [show v.imports = [i] from himports]
      exact List.mem_singleton_self i
    have hpart := (words_of_import hv i hi w hw).forall_isWordPart c hc
    simp only [Lex.isWordPart, Bool.or_eq_true, beq_iff_eq] at hpart
    rcases hpart with (hpart | rfl) | rfl
    · exact hpart
    · exact absurd hnumeric (by decide +kernel)
    · exact absurd hnumeric (by decide +kernel)
  · intro hnumerals
    have hwords : ∀ w ∈ n.segments, IsWord w.toList ∧ reservedWords.contains w = false := by
      intro w hw
      have hlegal := QualifiedName.legal_of_parse h w hw
      exact ⟨isWord_of_isIdentifier hlegal (hnumerals w hw),
        by simpa using not_reserved_of_isIdentifier hlegal⟩
    have hparse := @parseUnit_import none _ (Import.written_build hwords isStatic wildcard)
    refine ⟨⟨none, none, [Import.build n isStatic wildcard], [], .empty⟩,
      Import.build n isStatic wildcard, ?_, rfl, rfl, ?_, rfl⟩
    · simp only [SourceText.parseAttributed, SourceText.parse, hparse, bind, Except.bind, pure,
        Except.pure]
      rfl
    · cases isStatic <;> rfl

/-- A name with a letter outside ASCII, a letter that is a numeral and a digit. -/
theorem readsImport_build_letters :
    QualifiedName.parse "p.café.Ⅷ1" = .ok ⟨["p", "café", "Ⅷ1"], by simp⟩ ∧
      ReadsImport (print (Import.build ⟨["p", "café", "Ⅷ1"], by simp⟩ true true))
        ⟨["p", "café", "Ⅷ1"], by simp⟩ true true := by
  have hparse : QualifiedName.parse "p.café.Ⅷ1" = .ok ⟨["p", "café", "Ⅷ1"], by simp⟩ := by
    decide +kernel
  have hnumerals : (["p", "café", "Ⅷ1"].all fun w =>
      w.toList.all fun c => !isNumeric c || (isLetter c || c.isDigit)) = true := by
    decide +kernel
  refine ⟨hparse, (readsImport_build hparse true true).mpr fun w hw c hc h => ?_⟩
  simpa [h] using List.all_eq_true.mp (List.all_eq_true.mp hnumerals w hw) c hc

/-- A superscript continues the segment of a name, but no identifier of the grammar. -/
theorem not_readsImport_superscript :
    QualifiedName.parse "a²" = .ok (.single "a²") ∧
      ¬ ReadsImport (print (Import.build (.single "a²") false false)) (.single "a²")
        false false := by
  refine ⟨by decide +kernel, ?_⟩
  rintro ⟨u, i, hu, -⟩
  have herror : (SourceText.parseAttributed .standard
      ⟨none, print (Import.build (.single "a²") false false)⟩).toOption.isNone = true := by
    decide +kernel
  rw [hu] at herror
  cases herror

end LosslessJava
