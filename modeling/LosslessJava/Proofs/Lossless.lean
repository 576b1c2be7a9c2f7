import LosslessJava.Proofs.Parsed

/-!
# The round trip of texts

No character of an accepted text is lost or made up.

* `lossless`: a unit prints as its text, whatever the batch around it. A statement or an expression
  prints as its text up to white space and comments at the end.
-/

namespace LosslessJava

open Grammar

theorem toList_print {α : Type} [Printable α] (a : α) :
    (print a).toList = Step.text (Printable.steps a) := by
  rw [print, Step.render_verbatim, String.toList_ofList]

theorem SourceText.print_attributed {s : SourceText} {u : CompilationUnit} (h : s.parse = .ok u)
    (index : TypeIndex) (implicitLanguage : Bool) :
    print (u.attributed index implicitLanguage) = s.text := by
  apply String.toList_injective
  rw [toList_print]
  have hsteps := (Node.unit (u.attributed index implicitLanguage)).steps_untyped
  rw [Node.untyped, CompilationUnit.untyped_attributed] at hsteps
  have hunit := (Node.unit u).steps_untyped
  show Step.text (Node.unit (u.attributed index implicitLanguage)).steps = s.text.toList
  rw [← hsteps]
  exact (congrArg Step.text hunit).trans (parseUnit_reads h).1

/-- The result of a source in a batch: a unit that prints as the source, or its own error. -/
def Faithful (s : SourceText) : Except ParseError CompilationUnit → Prop
  | .ok u => (∃ v, s.parse = .ok v) ∧ print u = s.text
  | .error e => s.parse = .error e

theorem faithful_of_parse (s : SourceText) (index : TypeIndex) (implicitLanguage : Bool) :
    Faithful s (s.parse.map (·.attributed index implicitLanguage)) := by
  cases h : s.parse with
  | error e => exact h
  | ok v => exact ⟨⟨v, h⟩, SourceText.print_attributed h index implicitLanguage⟩

theorem map_print_of_map_ok (index : TypeIndex) (implicitLanguage : Bool)
    {sources : List SourceText} {units : List CompilationUnit}
    (h : units.map .ok =
      sources.map fun s => s.parse.map (·.attributed index implicitLanguage)) :
    units.map print = sources.map SourceText.text := by
  induction sources generalizing units with
  | nil =>
    rw [List.map_eq_nil_iff.mp h]
    rfl
  | cons s ss ih =>
    cases units with
    | nil => cases h
    | cons u us =>
      obtain ⟨hu, hus⟩ := List.cons.inj h
      have hfaithful : Faithful s (.ok u) := hu ▸ faithful_of_parse s index implicitLanguage
      rw [List.map_cons, List.map_cons, hfaithful.2, ih hus]

/-- The text of a value that is read from a whole text. -/
theorem Grammar.Wholly.source {α : Type} [Printable α] {C : List Lexeme → α → Prop}
    {source : String} {a : α} (h : Wholly C (Lexeme.ofText source.toList) a)
    (hC : ∀ xs, C xs a → Lexeme.textOf xs = Step.text (Printable.steps a)) :
    ∃ gap, Lex.IsGap true gap ∧ source.toList = (print a).toList ++ gap := by
  obtain ⟨xs, t, hls, ha, ht⟩ := h
  refine ⟨t.toList, ht, ?_⟩
  have hsource := Lexeme.textOf_ofText source.toList
  rw [hls, Lexeme.textOf_append, hC xs ha] at hsource
  rw [toList_print, ← hsource]
  simp [Lexeme.toList, Token.toList]

/-- Every accepted text is the print of what is read from it. In a batch every source has one
result. -/
theorem lossless :
    (∀ config sources dependencies results,
      Batch.parseEach config sources dependencies = .ok results →
        results.length = sources.length ∧
          ∀ (i : Nat) s r, sources[i]? = some s → results[i]? = some r → Faithful s r) ∧
    (∀ config sources dependencies units,
      Batch.parseAll config sources dependencies = .ok units →
        units.map print = sources.map SourceText.text) ∧
    (∀ config s u, SourceText.parseAttributed config s = .ok u → print u = s.text) ∧
    (∀ source s, parseStatement source = .ok s →
      ∃ gap, Lex.IsGap true gap ∧ source.toList = (print s).toList ++ gap) ∧
    (∀ source e, parseExpression source = .ok e →
      ∃ gap, Lex.IsGap true gap ∧ source.toList = (print e).toList ++ gap) := by
  refine ⟨?_, ?_, ?_, ?_, ?_⟩
  · intro config sources dependencies results h
    obtain ⟨index, rfl⟩ := Batch.parseEach_eq_ok h
    refine ⟨by simp, ?_⟩
    intro i s r hs hr
    simp only [List.getElem?_map, hs, Option.map_some, Option.some.injEq] at hr
    rw [← hr]
    exact faithful_of_parse s index _
  · intro config sources dependencies units h
    obtain ⟨index, heq⟩ := Batch.parseEach_eq_ok (Batch.parseAll_eq_ok h)
    rw [List.map_map] at heq
    exact map_print_of_map_ok index _ heq
  · intro config s u h
    obtain ⟨v, index, hv, rfl⟩ := SourceText.parseAttributed_eq_ok h
    exact SourceText.print_attributed hv index _
  · intro source s h
    exact (parseStatement_reads h).source fun xs hs => hs.1.text
  · intro source e h
    exact (parseExpression_reads h).source fun xs he => he.text

/-- A unit keeps a comment at its end, and a statement leaves it out. -/
theorem lossless_of_comment :
    (∃ units, Batch.parseAll .standard [⟨none, "class A \x7b \x7d// end"⟩] [] = .ok units ∧
      units.map print = ["class A \x7b \x7d// end"]) ∧
    ∃ s gap, parseStatement "a ( ) /* b */ ; // end" = .ok s ∧ Lex.IsGap true gap ∧
      "a ( ) /* b */ ; // end".toList = (print s).toList ++ gap := by
  obtain ⟨-, hall, -, hstatement, -⟩ := lossless
  constructor
  · obtain ⟨units, h, -⟩ := exists_ok (p := fun _ => true)
      (x := Batch.parseAll .standard [⟨none, "class A \x7b \x7d// end"⟩] []) (by decide +kernel)
    exact ⟨units, h, hall _ _ _ _ h⟩
  · obtain ⟨s, h, -⟩ := exists_ok (p := fun _ => true)
      (x := parseStatement "a ( ) /* b */ ; // end") (by decide +kernel)
    obtain ⟨gap, hgap, htext⟩ := hstatement _ s h
    exact ⟨s, gap, h, hgap, htext⟩

end LosslessJava
