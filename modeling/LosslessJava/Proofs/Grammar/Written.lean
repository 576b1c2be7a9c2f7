import LosslessJava.Proofs.Grammar.Header
import LosslessJava.Proofs.Lex.Identifier

/-!
# Imports that are written

An import of legal parts is read back from its text. Its words keep apart: there is trivia or a dot
between two of them.

* `Lexeme.Apart xs`: lexemes that do not run into a word in front of them, and come back in front of
  every text that does not run into them.
* `Import.Written`: the parts of an import that can be written.
* `Grammar.portable_import`: its lexemes are the import in front of everything.
-/

namespace LosslessJava

open Grammar
open Lexeme (Relexed textOf ofText)

/-- No word goes on behind a gap, or behind nothing in front of what continues no word. -/
theorem Lex.IsGap.atWordEnd_append {final : Bool} {gap cs : List Char} (h : IsGap final gap)
    (hcs : gap = [] → atWordEnd cs = true) : atWordEnd (gap ++ cs) = true := by
  cases gap with
  | nil => exact hcs rfl
  | cons c gap =>
    have hc : isNumberPart c = false := h.first c rfl
    cases hpart : isWordPart c with
    | false => simp [atWordEnd, hpart]
    | true =>
      rw [isNumberPart_of_isWordPart hpart] at hc
      cases hc

/-! ## Lexemes that keep apart -/

/-- Behind a word the lexemes are tokens of their own, and they come back in front of what does not
continue a word. -/
structure Lexeme.Apart (xs : List Lexeme) : Prop where
  atWordEnd : ∀ more, Lex.atWordEnd more = true → Lex.atWordEnd (textOf xs ++ more) = true
  lexed : ∀ more, Lex.atWordEnd more = true → ofText (textOf xs ++ more) = xs ++ ofText more

namespace Lexeme.Apart

variable {xs ys : List Lexeme} {t : Trivia} {w : String}

theorem nil : Apart [] := ⟨fun _ h => h, fun _ _ => rfl⟩

theorem append (hx : Apart xs) (hy : Apart ys) : Apart (xs ++ ys) := by
  refine ⟨fun more h => ?_, fun more h => ?_⟩
  · rw [textOf_append, List.append_assoc]
    exact hx.atWordEnd _ (hy.atWordEnd more h)
  · rw [textOf_append, List.append_assoc, hx.lexed _ (hy.atWordEnd more h), hy.lexed more h,
      List.append_assoc]

/-- A word with trivia in front of it. -/
theorem word (ht : Lex.IsGap false t.toList) (hne : t ≠ .empty) (hw : IsWord w.toList) :
    Apart [⟨t, .word w⟩] := by
  have htext : ∀ more, textOf [⟨t, .word w⟩] ++ more = t.toList ++ (w.toList ++ more) := by
    simp [toList, Token.toList]
  refine ⟨fun more _ => ?_, fun more h => ?_⟩
  · rw [htext]
    refine ht.atWordEnd_append fun hnil => absurd ?_ hne
    rw [← Trivia.ofList_toList t, hnil]
    rfl
  · rw [htext, ofText_word ht hw h]
    rfl

theorem atWordEnd_dot (more : List Char) : Lex.atWordEnd ('.' :: more) = true := by
  have hdot : Lex.isWordPart '.' = false := by decide
  simp [Lex.atWordEnd, hdot]

theorem ofText_dot (more : List Char) :
    ofText ('.' :: more) = ⟨.empty, .mark '.'⟩ :: ofText more :=
  ofText_mark (t := .empty) .nil rfl (by decide) rfl (by decide) more

theorem dotSegment (hw : IsWord w.toList) : Apart (dotSegment w) := by
  have htext : ∀ more, textOf (Grammar.dotSegment w) ++ more = '.' :: (w.toList ++ more) := by
    simp [Grammar.dotSegment, toList, Token.toList, Trivia.toList, Trivia.empty]
  refine ⟨fun more _ => ?_, fun more h => ?_⟩
  · rw [htext]
    exact atWordEnd_dot _
  · rw [htext, ofText_dot]
    exact congrArg _ (ofText_word (t := .empty) .nil hw h)

theorem wildcardMarks : Apart wildcardMarks := by
  have htext : ∀ more, textOf Grammar.wildcardMarks ++ more = '.' :: ('*' :: more) := by
    simp [Grammar.wildcardMarks, toList, Token.toList, Trivia.toList, Trivia.empty]
  refine ⟨fun more _ => ?_, fun more _ => ?_⟩
  · rw [htext]
    exact atWordEnd_dot _
  · rw [htext, ofText_dot]
    exact congrArg _ (ofText_mark (t := .empty) .nil rfl (by decide) rfl (by decide) more)

theorem dotSegments {ws : List String} (hws : ∀ w ∈ ws, IsWord w.toList) :
    Apart (ws.flatMap Grammar.dotSegment) := by
  induction ws with
  | nil => exact nil
  | cons w ws ih =>
    obtain ⟨hw, hws⟩ := List.forall_mem_cons.mp hws
    exact (dotSegment hw).append (ih hws)

/-- A semicolon ends lexemes that keep apart behind a word. -/
theorem relexed (hx : Apart xs) {lead : Trivia} (hlead : Lex.IsGap false lead.toList)
    (hw : IsWord w.toList) (ht : Lex.IsGap false t.toList) :
    Relexed (⟨lead, .word w⟩ :: (xs ++ [⟨t, .mark ';'⟩])) := by
  intro more
  have hsemi : ofText (textOf [⟨t, .mark ';'⟩] ++ more) = ⟨t, .mark ';'⟩ :: ofText more :=
    relexed_mark ht (.inr (.inr rfl)) more
  have hend : Lex.atWordEnd (textOf [⟨t, .mark ';'⟩] ++ more) = true := by
    have hpart : Lex.isWordPart ';' = false := isWordPart_semicolon
    have htext : textOf [⟨t, .mark ';'⟩] ++ more = t.toList ++ ';' :: more := by
      simp [toList, Token.toList]
    rw [htext]
    exact ht.atWordEnd_append fun _ => by simp [Lex.atWordEnd, hpart]
  have htext : textOf (⟨lead, .word w⟩ :: (xs ++ [⟨t, .mark ';'⟩])) ++ more =
      lead.toList ++ (w.toList ++ (textOf xs ++ (textOf [⟨t, .mark ';'⟩] ++ more))) := by
    simp [toList, Token.toList]
  rw [htext, ofText_word hlead hw (hx.atWordEnd _ hend), hx.lexed _ hend, hsemi]
  simp

end Lexeme.Apart

/-! ## Dotted names -/

namespace Grammar

open LosslessJava.Grammar.Parser

variable {xs m : List Lexeme} {t : Trivia} {n : QualifiedName}

/-- Without trivia in front of it, a token stands where it has to. -/
theorem parse_tightToken {α : Type} {rule : Rule} {accept : List Lexeme → Option (α × Nat)}
    (k : Token) (ls : List Lexeme) : (tightToken rule accept).parse (⟨.empty, k⟩ :: ls) =
      (token rule accept).parse (⟨.empty, k⟩ :: ls) := rfl

theorem parse_segment {w : String} (hw : reservedWords.contains w = false) (m : List Lexeme) :
    segment.parse (dotSegment w ++ m) = some (w, m) := by
  have hword : (tightToken .identifier (acceptWord asIdentifier)).parse
      (⟨.empty, .word w⟩ :: m) = some ((.empty, w), m) := by
    simp only [parse_tightToken, token, acceptWord, asIdentifier, hw, Bool.false_eq_true,
      ↓reduceIte, Option.map_some, List.drop_succ_cons, List.drop_zero]
  refine parse_seq_eq_some.mpr ⟨fun a => a, w, ⟨.empty, .word w⟩ :: m, rfl, ?_, rfl⟩
  exact parse_map_eq_some.mpr ⟨_, hword, rfl⟩

theorem several_dotSegments {ws : List String}
    (hws : ∀ w ∈ ws, reservedWords.contains w = false) :
    Several (fun xs w => xs = dotSegment w ∧ reservedWords.contains w = false)
      (ws.flatMap dotSegment) ws := by
  induction ws with
  | nil => exact .nil
  | cons w ws ih =>
    obtain ⟨hw, hws⟩ := List.forall_mem_cons.mp hws
    exact .cons ⟨rfl, hw⟩ (ih hws)

/-- A dotted name is read in front of what is no further segment. -/
theorem IsDotted.parse (h : IsDotted xs t n) (hm : segment.parse m = none) {d : Nat}
    (hd : xs.length ≤ d) : (dottedName d).parse (xs ++ m) = some ((t, n), m) := by
  obtain ⟨first, rest, hn, rfl⟩ := h.lexemes
  have hwords := h.words
  obtain ⟨segments, hne⟩ := n
  obtain rfl : segments = first :: rest := hn
  obtain ⟨⟨-, hfirst⟩, hrest⟩ := List.forall_mem_cons.mp hwords
  have hidentifier : identifier.parse (⟨t, .word first⟩ :: (rest.flatMap dotSegment ++ m)) =
      some (⟨t, first, none⟩, rest.flatMap dotSegment ++ m) := by
    rw [parse_identifier_cons]
    simp only [hfirst, Bool.false_eq_true, ↓reduceIte]
  have hbound : (rest.flatMap dotSegment).length ≤ d :=
    Nat.le_of_succ_le hd
  have hmany : parseMany segment d (rest.flatMap dotSegment ++ m) = (rest, m) :=
    parseMany_of_several (P := fun _ => True) (by rintro _ w ⟨rfl, -⟩; simp [dotSegment])
      (fun _ _ _ _ => trivial) (by rintro _ w m ⟨rfl, hw⟩ - -; exact parse_segment hw m) trivial hm
      (several_dotSegments fun w hw => (hrest w hw).2) hbound hbound
  exact parse_seq_eq_some.mpr
    ⟨_, rest, _, parse_map_eq_some.mpr ⟨_, hidentifier, rfl⟩, congrArg some hmany, rfl⟩

end Grammar

/-! ## Imports -/

namespace Import

/-- The parts of an import can be written: trivia are white space and comments, there are some
between two words, and the name is made of words that are not reserved. -/
structure Written (i : Import) : Prop where
  lead : Lex.IsGap false i.lead.toList
  staticLead : ∀ t ∈ i.staticLead, Lex.IsGap false t.toList ∧ t ≠ .empty
  nameLead : Lex.IsGap false i.nameLead.toList ∧ i.nameLead ≠ .empty
  words : ∀ w ∈ i.name.segments, IsWord w.toList ∧ reservedWords.contains w = false
  terminator : Lex.IsGap false i.terminator.toList

def staticLexemes (i : Import) : List Lexeme :=
  (i.staticLead.map fun t => ⟨t, .word "static"⟩).toList

def nameLexemes (i : Import) : List Lexeme :=
  ⟨i.nameLead, .word (i.name.segments.head i.name.segments_ne_nil)⟩ ::
    i.name.segments.tail.flatMap dotSegment

def starLexemes (i : Import) : List Lexeme := if i.wildcard then wildcardMarks else []

def lexemes (i : Import) : List Lexeme :=
  ⟨i.lead, .word "import"⟩ ::
    (i.staticLexemes ++ i.nameLexemes ++ i.starLexemes ++ [⟨i.terminator, .mark ';'⟩])

variable {i : Import}

theorem Written.isDotted (h : i.Written) : IsDotted i.nameLexemes i.nameLead i.name :=
  ⟨⟨_, _, (List.cons_head_tail i.name.segments_ne_nil).symm, rfl⟩, h.nameLead.1, h.words⟩

theorem Written.relexed (h : i.Written) : Relexed i.lexemes := by
  have himport : IsWord "import".toList := Lex.isWord_of_isAlpha (by decide) (by decide)
  have hstatic : Lexeme.Apart i.staticLexemes := by
    unfold staticLexemes
    cases ht : i.staticLead with
    | none => exact .nil
    | some t =>
      obtain ⟨hgap, hne⟩ := h.staticLead t ht
      exact .word hgap hne (Lex.isWord_of_isAlpha (by decide) (by decide))
  have hname : Lexeme.Apart i.nameLexemes := by
    have hwords := h.words
    rw [← List.cons_head_tail i.name.segments_ne_nil] at hwords
    obtain ⟨hfirst, hrest⟩ := List.forall_mem_cons.mp hwords
    exact (Lexeme.Apart.word h.nameLead.1 h.nameLead.2 hfirst.1).append
      (.dotSegments fun w hw => (hrest w hw).1)
  have hstar : Lexeme.Apart i.starLexemes := by
    unfold starLexemes
    split
    · exact .wildcardMarks
    · exact .nil
  exact ((hstatic.append hname).append hstar).relexed h.lead himport h.terminator

end Import

namespace Grammar

open LosslessJava.Grammar.Parser

variable {i : Import}

/-- Behind the last segment there is the wildcard, if there is one, and then the semicolon. -/
theorem parse_starLexemes (i : Import) (m : List Lexeme) :
    segment.parse (i.starLexemes ++ ⟨i.terminator, .mark ';'⟩ :: m) = none ∧
      ∃ o, (optional wildcard).parse (i.starLexemes ++ ⟨i.terminator, .mark ';'⟩ :: m) =
        some (o, ⟨i.terminator, .mark ';'⟩ :: m) ∧ o.isSome = i.wildcard := by
  unfold Import.starLexemes
  cases i.wildcard with
  | true => exact ⟨rfl, some (), rfl, rfl⟩
  | false =>
    have hwildcard : wildcard.parse (⟨i.terminator, .mark ';'⟩ :: m) = none := by
      simp [wildcard, tightToken, token, acceptSymbol]
    refine ⟨?_, none, parse_optional_eq_some.mpr (.inl ⟨rfl, rfl, hwildcard⟩), rfl⟩
    refine Option.eq_none_iff_forall_ne_some.mpr fun parsed h => ?_
    obtain ⟨_, _, _, hfirst, -⟩ := parse_seq_eq_some.mp h
    obtain ⟨_, hdot, -⟩ := parse_map_eq_some.mp hfirst
    simp [tightMark] at hdot

theorem parse_staticLexemes (i : Import) (m : List Lexeme)
    (h : reservedWords.contains (i.name.segments.head i.name.segments_ne_nil) = false) :
    (optional (keyword .staticWord "static")).parse (i.staticLexemes ++ (i.nameLexemes ++ m)) =
      some (i.staticLead, i.nameLexemes ++ m) := by
  unfold Import.staticLexemes
  refine parse_optional_eq_some.mpr ?_
  cases i.staticLead with
  | none =>
    have hne : (⟨i.nameLead, .word (i.name.segments.head i.name.segments_ne_nil)⟩ : Lexeme).token ≠
        .word "static" := by
      intro heq
      rw [Token.word.inj heq] at h
      revert h
      decide
    exact .inl ⟨rfl, rfl, (takesToken_keyword.parse_cons _ _).trans (if_neg hne)⟩
  | some t => exact .inr ⟨t, rfl, takesToken_keyword.parse_eq_some.mpr ⟨t, rfl, rfl⟩⟩

/-- The parts of an import one behind the other are the import. -/
theorem parse_written (h : i.Written) {d : Nat} (hd : i.lexemes.length ≤ d)
    (m : List Lexeme) : (importDeclaration d).parse (i.lexemes ++ m) = some (i, m) := by
  have hlength : i.nameLexemes.length ≤ d := by
    simp only [Import.lexemes, List.length_cons, List.length_append] at hd
    omega
  have hfirst := (h.words _ (List.head_mem i.name.segments_ne_nil)).2
  obtain ⟨hsegment, o, hwildcard, ho⟩ := parse_starLexemes i m
  have hname := h.isDotted.parse hsegment hlength
  have hpath : (importPath d).parse
      (i.nameLexemes ++ (i.starLexemes ++ ⟨i.terminator, .mark ';'⟩ :: m)) =
      some (((i.nameLead, i.name), i.wildcard), ⟨i.terminator, .mark ';'⟩ :: m) :=
    parse_seq_eq_some.mpr
      ⟨_, o, _, parse_map_eq_some.mpr ⟨_, hname, rfl⟩, hwildcard, by rw [ho]⟩
  have himport : (keyword .importWord "import").parse (i.lexemes ++ m) = some (i.lead,
      i.staticLexemes ++ (i.nameLexemes ++ (i.starLexemes ++ ⟨i.terminator, .mark ';'⟩ :: m))) :=
    takesToken_keyword.parse_eq_some.mpr ⟨i.lead, by simp [Import.lexemes], rfl⟩
  have hsemicolon : semicolon.parse (⟨i.terminator, .mark ';'⟩ :: m) = some (i.terminator, m) :=
    takesToken_semicolon.parse_eq_some.mpr ⟨i.terminator, rfl, rfl⟩
  exact parse_seq_eq_some.mpr ⟨_, i.terminator, _, parse_seq_eq_some.mpr ⟨_, _, _,
    parse_seq_eq_some.mpr ⟨_, i.staticLead, _, parse_map_eq_some.mpr ⟨i.lead, himport, rfl⟩,
      parse_staticLexemes i _ hfirst, rfl⟩, hpath, rfl⟩, hsemicolon, rfl⟩

theorem text_lexemes (i : Import) : textOf i.lexemes = Step.text (Printable.steps i) := by
  have hstatic : textOf i.staticLexemes =
      Step.text ((i.staticLead.map (spaced · "static")).getD []) := by
    unfold Import.staticLexemes
    cases i.staticLead <;> simp [Step.text_spaced, Lexeme.toList, Token.toList]
  have hname : textOf i.nameLexemes = i.nameLead.toList ++ i.name.text.toList := by
    rw [QualifiedName.text, ← List.cons_head_tail i.name.segments_ne_nil, dotted_cons]
    simp [Import.nameLexemes, Lexeme.toList, Token.toList]
  have hpath : i.pathText.toList = i.name.text.toList ++ textOf i.starLexemes := by
    unfold Import.pathText Import.starLexemes
    cases i.wildcard <;>
      simp [wildcardMarks, Lexeme.toList, Token.toList, Trivia.toList, Trivia.empty]
  have hsteps : Printable.steps i = i.steps := rfl
  rw [hsteps]
  simp [Import.lexemes, Import.steps, hstatic, hname, hpath, Step.text_spaced, Step.chars,
    Lexeme.toList, Token.toList]

/-- There are no literals in an import. -/
theorem valid_lexemes (i : Import) : ∀ l ∈ i.lexemes, l.Valid := by
  intro l hl kind text htoken
  have hsegment : ∀ w, l ∉ dotSegment w := by
    intro w hw
    simp only [dotSegment, List.mem_cons, List.not_mem_nil, or_false] at hw
    rcases hw with rfl | rfl <;> cases htoken
  have hstar : l ∉ i.starLexemes := by
    unfold Import.starLexemes
    intro hw
    split at hw
    · simp only [wildcardMarks, List.mem_cons, List.not_mem_nil, or_false] at hw
      rcases hw with rfl | rfl <;> cases htoken
    · cases hw
  simp only [Import.lexemes, Import.staticLexemes, Import.nameLexemes, List.mem_cons,
    List.mem_append, Option.mem_toList, Option.map_eq_some_iff, List.mem_flatMap, hsegment,
    hstar, and_false, exists_false, or_false, List.not_mem_nil] at hl
  rcases hl with rfl | (⟨t, -, rfl⟩ | rfl) | rfl <;> cases htoken

theorem portable_import (h : i.Written) : Portable importDeclaration i.lexemes i :=
  ⟨text_lexemes i, by simp [Import.lexemes], h.relexed, valid_lexemes i,
    fun _ m hd => parse_written h hd m⟩

end Grammar

end LosslessJava
