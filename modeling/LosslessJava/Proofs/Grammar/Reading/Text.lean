import LosslessJava.Grammar.Text
import LosslessJava.Proofs.Grammar.Reading.Declaration

/-!
# Readings of whole texts

* `rules_sound`: the rules of every depth read what they should, by induction on the depth.
* `wholly_of_parse`, `isUnit_of_parse`: what the lexemes of a text are that is read as a whole.
-/

namespace LosslessJava

namespace Lexeme

/-- Nothing follows the end of a text. -/
theorem eq_nil_of_finish (cs : List Char) : ∀ (xs rest : List Lexeme) (t : Trivia),
    ofText cs = xs ++ ⟨t, .finish⟩ :: rest → rest = [] := by
  fun_induction ofText cs with
  | case1 cs blank hnil =>
    intro xs rest t h
    cases xs with
    | nil => exact (List.cons.inj h).2.symm
    | cons x xs => exact absurd (List.cons.inj h).2.symm (by simp)
  | case2 cs blank hne ih =>
    intro xs rest t h
    cases xs with
    | nil =>
      have hfinish := (Token.legal_next hne (Prod.eta _).symm).2
      exact absurd (congrArg Lexeme.token (List.cons.inj h).1) hfinish
    | cons x xs => exact ih xs rest t (List.cons.inj h).2

end Lexeme

namespace Grammar

open LosslessJava.Grammar.Parser

/-- The rules of every depth read what they should. -/
theorem rules_sound (depth : Nat) : (rules depth).Sound := by
  induction depth with
  | zero => exact ⟨reads_fail, reads_fail, reads_fail, reads_fail, reads_fail, reads_fail⟩
  | succ depth ih =>
    simp only [rules, later_eq]
    exact ⟨reads_typeReference ih, reads_unaryExpression ih, reads_expression ih,
      reads_classBody ih, reads_statement ih, reads_blockStatement ih⟩

/-- The lexemes of a whole text are some lexemes for a value, and the end. -/
def Wholly {α : Type} (C : List Lexeme → α → Prop) (ls : List Lexeme) (a : α) : Prop :=
  ∃ xs t, ls = xs ++ [⟨t, .finish⟩] ∧ C xs a ∧ Lex.IsGap true t.toList

theorem wholly_of_parse {α : Type} {p : Parser α} {C : List Lexeme → α → Prop} (hp : Reads p C)
    {cs : List Char} {a : α} {rest : List Lexeme}
    (h : (only p).parse (Lexeme.ofText cs) = some (a, rest)) :
    rest = [] ∧ Wholly C (Lexeme.ofText cs) a := by
  obtain ⟨_, hls, xs, _, _, t, rfl, ⟨a, ha, rfl⟩, ⟨rfl, ht⟩, rfl⟩ :=
    hp.seqLeft reads_endOfInput _ _ _ (Lexeme.legal_ofText _) h
  rw [List.append_assoc] at hls
  obtain rfl : rest = [] := Lexeme.eq_nil_of_finish _ _ _ _ hls
  exact ⟨rfl, xs, t, hls, ha, ht⟩

theorem isUnit_of_parse {r : Rules} (hr : r.Sound) {cs : List Char} {u : CompilationUnit}
    {rest : List Lexeme} (h : (compilationUnit r).parse (Lexeme.ofText cs) = some (u, rest)) :
    rest = [] ∧ IsUnit (Lexeme.ofText cs) u := by
  obtain ⟨xs, hls, hunit⟩ := reads_compilationUnit hr _ _ _ (Lexeme.legal_ofText _) h
  obtain ⟨ys, hys⟩ := hunit.2.2
  have hfinish := hls
  rw [hys, List.append_assoc] at hfinish
  obtain rfl : rest = [] := Lexeme.eq_nil_of_finish _ _ _ _ hfinish
  rw [List.append_nil] at hls
  exact ⟨rfl, hls ▸ hunit⟩

end Grammar

end LosslessJava
