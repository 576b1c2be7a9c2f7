import LosslessJava.Proofs.Batch
import LosslessJava.Proofs.Grammar.Naming
import LosslessJava.Proofs.Lex.Legal
import LosslessJava.Proofs.Resolve.Naming

/-!
# Legal names without a check

The tree of a text and its types hold names that nobody checks. They are legal all the same: the
rules take them from words that are not reserved, and attribution puts them together from others.
The letters of words come from a later edition of Unicode than those of names, so this is about
texts whose letters are alphabetic in both.

* `Token.naming_of_ofText`: every word of such a text is reserved or an identifier.
* `names_legal`: every name in a unit that is read from such a text is legal.
-/

namespace LosslessJava

/-! ## Words -/

theorem isIdentifier_of_isWord {w : String} (h : IsWord w.toList)
    (hletters : ∀ c ∈ w.toList, isLetter c = true → isAlphabetic c = true)
    (hreserved : reservedWords.contains w = false) : isIdentifier w = true := by
  obtain ⟨c, cs, heq, hc, hcs⟩ := h
  rw [heq] at hletters
  obtain ⟨hfirst, hrest⟩ := List.forall_mem_cons.mp hletters
  have hstart : isSegmentStart c = true := by
    simp only [Lex.isWordStart, Bool.or_eq_true] at hc
    simp only [isSegmentStart, Bool.or_eq_true]
    exact hc.imp_left (Or.imp_left hfirst)
  have hpart : ∀ d ∈ cs, isSegmentPart d = true := by
    intro d hd
    have hword := hcs d hd
    simp only [Lex.isWordPart, Bool.or_eq_true] at hword
    simp only [isSegmentPart, Bool.or_eq_true]
    exact hword.imp_left (Or.imp_left (Or.imp (hrest d hd) isNumeric_of_isDigit))
  simp only [isIdentifier, heq, hstart, hreserved, Bool.true_and, Bool.not_false, Bool.and_true]
  exact List.all_eq_true.mpr hpart

/-- In a text with alphabetic letters a word that is not reserved is an identifier. -/
theorem Token.naming_of_ofText {cs : List Char}
    (hletters : ∀ c ∈ cs, isLetter c = true → isAlphabetic c = true) :
    ∀ l ∈ Lexeme.ofText cs, l.token.Naming := by
  intro l hl w hw hreserved
  have hword := (Lexeme.legal_ofText cs l hl).token
  rw [hw] at hword
  refine isIdentifier_of_isWord hword (fun c hc => hletters c ?_) hreserved
  rw [← Lexeme.textOf_ofText cs]
  refine List.mem_flatMap.mpr ⟨l, hl, List.mem_append_right _ ?_⟩
  rw [hw]
  exact hc

/-! ## Units -/

open Grammar in
/-- A unit is well named as it is read, before any types are attached. -/
theorem SourceText.named_of_parse {s : SourceText} {u : CompilationUnit}
    (hletters : ∀ c ∈ s.text.toList, isLetter c = true → isAlphabetic c = true)
    (h : s.parse = .ok u) : (Node.unit u).Named := by
  unfold SourceText.parse parseUnit at h
  cases hv : read s.path .compilationUnit compilationUnit Build.compilationUnit s.text with
  | error e =>
    rw [hv] at h
    cases h
  | ok v =>
    rw [hv] at h
    cases h
    obtain ⟨⟨rest, hparse⟩, -⟩ := (read_eq_ok buildsText_unit).mp hv
    have hv := (gives_compilationUnit (rules_naming _) _ _ _
      (Token.naming_of_ofText hletters) hparse).1
    exact Node.named_plain (by simp) rfl (Node.all_iff.mp hv).2

/-- In a unit that is read from a text with alphabetic letters, attributed or not, every qualified
name has a segment, and its segments and the names of identifiers are legal and not reserved. -/
theorem names_legal {config : Config} {sources dependencies : List SourceText}
    (hletters : ∀ s ∈ sources, ∀ c ∈ s.text.toList, isLetter c = true → isAlphabetic c = true)
    {u : CompilationUnit}
    (h : Batch.Returns config sources dependencies u ∨ ∃ s ∈ sources, s.parse = .ok u) {n : Node}
    (hn : Node.Within n (.unit u)) :
    (∀ q ∈ n.names, q.segments ≠ [] ∧
      ∀ w ∈ q.segments, isIdentifier w = true ∧ w ∉ reservedWords) ∧
    ∀ i, n = .identifier i → isIdentifier i.name = true ∧ i.name ∉ reservedWords := by
  have hu : (Node.unit u).Named := by
    rcases h with h | ⟨s, hs, h⟩
    · obtain ⟨s, hs, v, hv, rfl⟩ := h.exists_source
      exact CompilationUnit.named_attributed (SourceText.named_of_parse (hletters s hs) hv) _ _
    · exact SourceText.named_of_parse (hletters s hs) h
  have hlegal := hu n hn
  refine ⟨fun q hq => ⟨q.segments_ne_nil, fun w hw => ?_⟩, fun i hi => ?_⟩
  · have hw := hlegal.legal q hq w hw
    exact ⟨hw, not_reserved_of_isIdentifier hw⟩
  · have hi := hlegal.isIdentifier i hi
    exact ⟨hi, not_reserved_of_isIdentifier hi⟩

/-- A class whose name has a letter outside ASCII and starts with a reserved word, and the name that
it gets as a type. -/
theorem names_legal_class :
    ∃ u, SourceText.parseAttributed .standard
        ⟨none, "package p; import q.*; class intÉ_1 \x7b @q.R intÉ_1[] do$; \x7d"⟩ = .ok u ∧
      ∃ d c, Node.Within (.classDeclaration d) (.unit u) ∧ d.type = some c ∧
        c.name.segments = ["p", "intÉ_1"] ∧
        ∀ w ∈ c.name.segments, isIdentifier w = true ∧ w ∉ reservedWords := by
  obtain ⟨u, h, hu⟩ := exists_ok
    (p := fun u : CompilationUnit => u.classes.any fun d =>
      d.type.map (fun c => c.name.segments) == some ["p", "intÉ_1"])
    (x := SourceText.parseAttributed .standard
      ⟨none, "package p; import q.*; class intÉ_1 \x7b @q.R intÉ_1[] do$; \x7d"⟩)
    (by decide +kernel)
  obtain ⟨d, hd, hc⟩ := List.any_eq_true.mp hu
  obtain ⟨c, htype, hsegments⟩ := Option.map_eq_some_iff.mp (eq_of_beq hc)
  have hwithin : Node.Within (.classDeclaration d) (.unit u) :=
    .child (by simp [Node.children, hd]) (.refl _)
  have hall : "package p; import q.*; class intÉ_1 \x7b @q.R intÉ_1[] do$; \x7d".toList.all
      (fun c => !isLetter c || isAlphabetic c) = true := by decide +kernel
  obtain ⟨hnames, -⟩ := names_legal
    (List.forall_mem_singleton.mpr fun c hc hletter => by
      simpa [hletter] using List.all_eq_true.mp hall c hc)
    (Or.inl (.single h)) hwithin
  exact ⟨u, h, d, c, hwithin, htype, hsegments,
    (hnames c.name (by simp [htype])).2⟩

end LosslessJava
