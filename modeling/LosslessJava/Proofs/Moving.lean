import LosslessJava.Proofs.Indentation.Composition
import LosslessJava.Proofs.Indentation.Leads
import Mathlib.Data.List.Forall2

/-!
# Statements that move between blocks

A statement that moves from one block into another one is shifted by the difference of their
indentations.

* `shifts_compose`: shifts one after the other come to one shift, so a statement that moves into an
  inner block and out again is as it was.
* `indentWidth_moved`: every line of the statement keeps its distance from the line on which the
  block around it ends.
-/

namespace LosslessJava

/-- The shift between two blocks and the one back come to no shift. -/
theorem andThen_shiftBetween (u : CompilationUnit) (into both : Block) :
    ((u.shiftBetween into both).andThen (u.shiftBetween both into)).amount = 0 := by
  show (into.indentWidth - both.indentWidth : Int) + (both.indentWidth - into.indentWidth) = 0
  omega

/-- Shifts one after the other come to one shift by the sum of their amounts, for trivia and for
statements. In particular a statement that moves to the right and back is as it was. -/
theorem shifts_compose :
    (∀ s t : Shift, s.Composable t →
      (∀ u : Trivia, t.apply (s.apply u) = (s.andThen t).apply u) ∧
      ∀ a : Statement, t.applyTo (s.applyTo a) = (s.andThen t).applyTo a) ∧
    ∀ (u : CompilationUnit) (into both : Block), 0 ≤ (u.shiftBetween into both).amount →
      ∀ a : Statement,
        (u.shiftBetween both into).applyTo ((u.shiftBetween into both).applyTo a) = a := by
  refine ⟨fun s t h => ⟨Shift.apply_andThen h, Shift.applyTo_andThen h⟩, ?_⟩
  intro u into both hright a
  have hback : (u.shiftBetween into both).Composable (u.shiftBetween both into) :=
    ⟨rfl, .inl hright⟩
  rw [Shift.applyTo_andThen hback, Shift.applyTo_of_amount (andThen_shiftBetween u into both)]

/-- A comment that moves to the left of where it was, and an empty statement that moves into a
deeper block and back. -/
theorem shifts_compose_left :
    (Shift.mk (-5) true).apply ((Shift.mk 2 true).apply ⟨"\n    // a\n\t"⟩) = ⟨"\n // a\n"⟩ ∧
    ∃ (u : CompilationUnit) (into both : Block),
      (u.shiftBetween into both).applyTo (.empty ⟨"\n\t"⟩) = .empty ⟨"\n    \t"⟩ ∧
      (u.shiftBetween both into).applyTo ((u.shiftBetween into both).applyTo (.empty ⟨"\n\t"⟩)) =
        .empty ⟨"\n\t"⟩ := by
  obtain ⟨hcompose, hback⟩ := shifts_compose
  refine ⟨?_, ⟨none, none, [], [], .empty⟩, ⟨.empty, [], ⟨"\n      "⟩⟩, ⟨.empty, [], ⟨"\n  "⟩⟩, ?_,
    hback _ _ _ (by decide) _⟩
  · rw [(hcompose ⟨2, true⟩ ⟨-5, true⟩ ⟨rfl, .inl (by decide)⟩).1]
    decide +kernel
  · exact congrArg Statement.empty (by decide +kernel)

/-- Where a statement, an `else` or a closing brace starts a line, its indentation changes with the
difference of the indentations of the two blocks, and where it starts none, nothing changes. -/
theorem indentWidth_moved (u : CompilationUnit) (into both : Block) (a : Statement) :
    List.Forall₂
      (fun t t' : Trivia =>
        (t.startsNewLine = true → (t'.indentWidth : Int) =
          max 0 ((t.indentWidth : Int) + into.close.indentWidth - both.close.indentWidth)) ∧
        (t.startsNewLine = false → t' = t))
      a.leads ((u.shiftBetween into both).applyTo a).leads := by
  rw [Statement.leads_applyTo, List.forall₂_map_right_iff]
  refine List.forall₂_same.mpr fun t _ => ⟨fun hline => ?_, fun hline => ?_⟩
  · rw [Shift.indentWidth_apply _ hline]
    show max 0 (_ + ((into.close.indentWidth : Int) - both.close.indentWidth)) = _
    rw [Int.add_sub_assoc]
  · exact Shift.apply_of_startsNewLine _ hline

end LosslessJava
