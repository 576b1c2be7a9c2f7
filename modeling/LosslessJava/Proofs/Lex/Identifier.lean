import LosslessJava.Proofs.Lex.Piecewise

/-!
# Identifiers, character by character

The grammar tells identifiers from reserved words by a choice over all of them. The choice is
ordered and final: after a word that the text starts with, no later word is tried. Words are cut off
a text in one piece instead and compared with the list.

* `Lex.identifier?`: the rule as the grammar has it.
* `Lex.isSome_reserved?_iff`: as no word comes behind one that it starts with, the choice finds the
  word of the text or none.
* `Lexeme.ofText_word`: a word in front of what does not continue it is a token of its own.
* `Lex.identifier?_eq`, `Grammar.parse_identifier`: the two rules are the same.
-/

namespace LosslessJava

namespace Lex

/-! ## The rule -/

/-- The reserved words in the order in which they are tried. -/
def reservedChoices : List String :=
  ["abstract", "assert", "boolean", "break", "byte", "case", "catch", "char", "class", "const",
   "continue", "default", "double", "do", "else", "enum", "extends", "false", "finally", "final",
   "float", "for", "goto", "if", "implements", "import", "instanceof", "interface", "int", "long",
   "native", "new", "null", "package", "private", "protected", "public", "return", "short",
   "static", "strictfp", "super", "switch", "synchronized", "this", "throws", "throw",
   "transient", "true", "try", "void", "volatile", "while"]

/-- Cuts off the first of the words that the text starts with. -/
def choice? (words : List String) (cs : List Char) : Option Cut :=
  words.findSome? fun w =>
    if w.toList <+: cs then some (w.toList, cs.drop w.toList.length) else none

/-- A reserved word, with no character of a word behind it. -/
def reserved? (cs : List Char) : Option Cut :=
  (choice? reservedChoices cs).filter fun cut => atWordEnd cut.2

/-- An identifier: where no reserved word stands, a first character and all that continue it. -/
def identifier? (cs : List Char) : Option Cut :=
  if (reserved? cs).isSome then none
  else
    match cs with
    | [] => none
    | c :: cs =>
      if isWordStart c then some (c :: (run isWordPart cs).1, (run isWordPart cs).2) else none

/-! ## Choices and runs -/

section

variable {p : Char → Bool} {w cs : List Char}

theorem run_append (hw : ∀ c ∈ w, p c = true) (cs : List Char) :
    run p (w ++ cs) = (w ++ (run p cs).1, (run p cs).2) := by
  simp only [run, List.takeWhile_append_of_pos hw, List.dropWhile_append_of_pos hw]

theorem isPrefix_run (hw : ∀ c ∈ w, p c = true) (h : w <+: cs) : w <+: (run p cs).1 := by
  obtain ⟨rest, rfl⟩ := h
  rw [run_append hw]
  exact List.prefix_append _ _

end

theorem run_of_atWordEnd {cs : List Char} (h : atWordEnd cs = true) :
    run isWordPart cs = ([], cs) := by
  cases cs with
  | nil => rfl
  | cons c cs =>
    have hc : isWordPart c = false := by simpa [atWordEnd] using h
    simp [run, hc]

theorem atWordEnd_run (cs : List Char) : atWordEnd (run isWordPart cs).2 = true := by
  induction cs with
  | nil => rfl
  | cons c cs ih =>
    cases hc : isWordPart c with
    | false => simp [run, atWordEnd, hc]
    | true => simpa [run, hc] using ih

/-- Among words none of which starts a later one, the choice finds the word that the text starts
with, unless it finds one that only starts that word. -/
theorem isSome_choice?_iff {words : List String} {cs : List Char}
    (hparts : ∀ w ∈ words, ∀ c ∈ w.toList, isWordPart c = true)
    (horder : words.Pairwise fun v w => ¬ v.toList <+: w.toList) :
    ((choice? words cs).filter fun cut => atWordEnd cut.2).isSome = true ↔
      String.ofList (run isWordPart cs).1 ∈ words := by
  induction words with
  | nil => simp [choice?]
  | cons w words ih =>
    obtain ⟨hw, hparts⟩ := List.forall_mem_cons.mp hparts
    obtain ⟨hlater, horder⟩ := List.pairwise_cons.mp horder
    rw [List.mem_cons]
    by_cases hprefix : w.toList <+: cs
    · have hchoice : choice? (w :: words) cs = some (w.toList, cs.drop w.toList.length) := by
        simp [choice?, hprefix]
      -- a later word would start with this one
      have hnot : String.ofList (run isWordPart cs).1 ∉ words := by
        intro hmem
        refine hlater _ hmem ?_
        rw [String.toList_ofList]
        exact isPrefix_run hw hprefix
      obtain ⟨rest, rfl⟩ := hprefix
      simp only [hchoice, List.drop_left, hnot, or_false, Option.isSome_filter, Option.any_some]
      constructor
      · intro h
        rw [run_append hw, run_of_atWordEnd h, List.append_nil, String.ofList_toList]
      · intro h
        have hrun := run_append hw rest
        rw [← String.toList_inj, String.toList_ofList, hrun] at h
        have hnil : (run isWordPart rest).1 = [] := by simpa using h
        have hrest := atWordEnd_run rest
        have happend := append_run isWordPart rest
        rw [hnil, List.nil_append] at happend
        rwa [happend] at hrest
    · have hchoice : choice? (w :: words) cs = choice? words cs := by
        simp [choice?, hprefix]
      have hne : String.ofList (run isWordPart cs).1 ≠ w := by
        rintro rfl
        rw [String.toList_ofList] at hprefix
        exact hprefix (List.takeWhile_prefix _)
      rw [hchoice, ih hparts horder]
      simp [hne]

/-! ## Words in front of other text -/

theorem isSpace_eq_false_of_isWordPart {c : Char} (hc : isWordPart c = true) :
    isSpace c = false := by
  cases hs : isSpace c with
  | false => rfl
  | true =>
    have hnumber := isNumberPart_of_isSpace hs
    rw [isNumberPart_of_isWordPart hc] at hnumber
    cases hnumber

theorem skip_of_isWord {w : List Char} (hw : IsWord w) (cs : List Char) :
    skip (w ++ cs) = ([], w ++ cs) := by
  obtain ⟨c, ds, rfl, hc, -⟩ := hw
  have hpart := isWordPart_of_isWordStart hc
  refine skip_of_first (isSpace_eq_false_of_isWordPart hpart) ?_
  exact fun hslash => absurd hslash (ne_of_isWordPart hpart isWordPart_slash)

end Lex

theorem Token.word?_append {w rest : List Char} (hw : IsWord w)
    (hrest : Lex.atWordEnd rest = true) : word? (w ++ rest) = some (w, rest) := by
  have hrun : Lex.run Lex.isWordPart (w ++ rest) = (w, rest) := by
    rw [Lex.run_append hw.forall_isWordPart, Lex.run_of_atWordEnd hrest, List.append_nil]
  obtain ⟨c, ds, rfl, hc, -⟩ := hw
  simp only [word?, List.cons_append, List.head?_cons, Option.any_some, hc, ↓reduceIte]
  exact congrArg some hrun

theorem Token.word?_self_iff {cs : List Char} : word? cs = some (cs, []) ↔ IsWord cs := by
  refine ⟨isWord_of_word, fun h => ?_⟩
  have happend := word?_append h (show Lex.atWordEnd [] = true from rfl)
  rwa [List.append_nil] at happend

theorem Lexeme.ofText_word {t : Trivia} {w : String} (ht : Lex.IsGap false t.toList)
    (hw : IsWord w.toList) {rest : List Char} (hrest : Lex.atWordEnd rest = true) :
    ofText (t.toList ++ (w.toList ++ rest)) = ⟨t, .word w⟩ :: ofText rest := by
  have hskip : Lex.skip (t.toList ++ (w.toList ++ rest)) = (t.toList, w.toList ++ rest) := by
    rw [Lex.skip_append_of_isGap ht, Lex.skip_of_isWord hw, List.append_nil]
  have hne : w.toList ++ rest ≠ [] := by
    obtain ⟨c, ds, heq, -⟩ := hw
    simp [heq]
  rw [ofText_of_next hskip hne (Token.next_of_word (Token.word?_append hw hrest)),
    Trivia.ofList_toList, String.ofList_toList]

namespace Lex

/-! ## Reserved words -/

theorem mem_reservedChoices_iff {w : String} : w ∈ reservedChoices ↔ w ∈ reservedWords := by
  have hperm : reservedChoices.Perm reservedWords := by decide
  exact hperm.mem_iff

/-- A reserved word that starts another one comes behind it in the choice. -/
theorem pairwise_reservedChoices :
    reservedChoices.Pairwise fun v w => ¬ v.toList <+: w.toList := by
  decide

/-- A text starts with a reserved word when all the characters that continue a word make up one. -/
theorem isSome_reserved?_iff {cs : List Char} :
    (reserved? cs).isSome = true ↔ String.ofList (run isWordPart cs).1 ∈ reservedWords := by
  have hletters : (reservedChoices.all fun w => w.toList.all Char.isAlpha) = true := by
    decide
  have hparts : ∀ w ∈ reservedChoices, ∀ c ∈ w.toList, isWordPart c = true := fun w hw c hc =>
    isWordPart_of_isAlpha (List.all_eq_true.mp (List.all_eq_true.mp hletters w hw) c hc)
  rw [reserved?, isSome_choice?_iff hparts pairwise_reservedChoices, mem_reservedChoices_iff]

/-- An identifier is a word that is not reserved. -/
theorem identifier?_eq (cs : List Char) : identifier? cs =
    (Token.word? cs).filter fun cut => !reservedWords.contains (String.ofList cut.1) := by
  cases cs with
  | nil => simp [identifier?, Token.word?]
  | cons c cs =>
    by_cases hc : isWordStart c = true
    · have hrun : run isWordPart (c :: cs) =
          (c :: (run isWordPart cs).1, (run isWordPart cs).2) := by
        simp [run, isWordPart_of_isWordStart hc]
      have hreserved := @isSome_reserved?_iff (c :: cs)
      rw [hrun, ← List.contains_iff_mem] at hreserved
      simp [identifier?, Token.word?, hc, hrun, hreserved, Option.filter]
    · simp [identifier?, Token.word?, hc]

/-- A text is one identifier when it is a word that is not reserved. -/
theorem identifier?_self_iff {s : String} : identifier? s.toList = some (s.toList, []) ↔
    IsWord s.toList ∧ reservedWords.contains s = false := by
  simp [identifier?_eq, Option.filter_eq_some_iff, Token.word?_self_iff]

end Lex

/-! ## The rule on tokens -/

namespace Grammar

open Lexeme (ofText)

theorem parse_identifier_cons (lead : Trivia) (t : Token) (ls : List Lexeme) :
    identifier.parse (⟨lead, t⟩ :: ls) =
      match t with
      | .word w => if reservedWords.contains w then none else some (⟨lead, w, none⟩, ls)
      | _ => none := by
  cases t with
  | word w =>
    show Option.map _ (Option.map _ (Option.map _ (asIdentifier w))) = _
    simp only [asIdentifier]
    split <;> rfl
  | _ => rfl

/-- On the tokens of a text the rule reads what it reads behind the white space and comments in
front of the first token. -/
theorem parse_identifier (cs : List Char) : identifier.parse (ofText cs) =
    (Lex.identifier? (Lex.skip cs).2).map fun cut =>
      (⟨.ofList (Lex.skip cs).1, String.ofList cut.1, none⟩, ofText cut.2) := by
  obtain ⟨⟨lead, body⟩, hskip⟩ : ∃ cut, Lex.skip cs = cut := ⟨_, rfl⟩
  rw [Lex.identifier?_eq, hskip]
  by_cases hnil : body = []
  · subst hnil
    rw [ofText, hskip, dif_pos rfl, parse_identifier_cons]
    rfl
  obtain ⟨⟨t, rest⟩, hnext⟩ : ∃ cut, Token.next body = cut := ⟨_, rfl⟩
  rw [Lexeme.ofText_of_next hskip hnil hnext, parse_identifier_cons]
  rcases Token.next_cases hnil hnext with ⟨w, hw, rfl⟩ | ⟨kind, w, hw, -, rfl⟩ | ⟨c, hw, -, rfl⟩
  · rw [hw]
    by_cases hreserved : String.ofList w ∈ reservedWords <;> simp [hreserved, Option.filter]
  · rw [hw]
    rfl
  · rw [hw]
    rfl

end Grammar

end LosslessJava
