import LosslessJava.Proofs.Indentation.Dominant
import LosslessJava.Proofs.Indentation.Margin
import LosslessJava.Proofs.Parsed

/-!
# The indentation of added statements

* `findIndent_dominant`: the width of a level is the dominant depth of the statements around, or
  else that of the whole unit, or else the standard width, and a statement that is added to a block
  starts a line that is indented further than the end of the block.
-/

namespace LosslessJava

theorem pos_of_mem_depths {enclosing n : Nat} {chains : List (List Trivia)}
    (h : n ∈ chains.filterMap (depth? enclosing)) : 0 < n := by
  obtain ⟨leads, -, hn⟩ := List.mem_filterMap.mp h
  exact pos_of_depth? hn

namespace CompilationUnit

/-- The width of a level in a unit: its dominant depth, or else the standard width. -/
theorem step_indentation (u : CompilationUnit) :
    u.depths = [] ∧ u.indentation.step = standardStep ∨ IsDominant u.depths u.indentation.step :=
  IndentedLine.getD_dominant u.filterMap_lines _

/-- The width of a level among statements: their dominant depth, or else that of the unit. -/
theorem step_findIndent (u : CompilationUnit) (enclosing : Nat) (as : List Statement) :
    Statement.depths enclosing as = [] ∧ (u.findIndent enclosing as).step = u.indentation.step ∨
      IsDominant (Statement.depths enclosing as) (u.findIndent enclosing as).step :=
  IndentedLine.getD_dominant (Statement.filterMap_listLines_eq enclosing as) _

theorem pos_step_findIndent (u : CompilationUnit) (enclosing : Nat) (as : List Statement) :
    0 < (u.findIndent enclosing as).step := by
  rcases u.step_findIndent enclosing as with ⟨-, hunit⟩ | hstatements
  · rw [hunit]
    rcases u.step_indentation with ⟨-, hstandard⟩ | hunit
    · rw [hstandard]
      exact Nat.succ_pos 3
    · exact pos_of_mem_depths hunit.mem
  · exact pos_of_mem_depths hstatements.mem

/-- A level is as wide as the dominant depth of the statements. Without any depth among them it is
as wide as the dominant depth of the unit, and without any there it has the standard width. So it is
never empty, and a statement added to a block goes on a line of its own that is indented further
than the one on which the block ends. -/
theorem findIndent_dominant (u : CompilationUnit) :
    (∀ (enclosing : Nat) (as : List Statement),
      let step := (u.findIndent enclosing as).step
      (Statement.depths enclosing as ≠ [] → IsDominant (Statement.depths enclosing as) step) ∧
      (Statement.depths enclosing as = [] → u.depths ≠ [] → IsDominant u.depths step) ∧
      (Statement.depths enclosing as = [] → u.depths = [] → step = 4) ∧ 0 < step) ∧
    ∀ b : Block, ∃ (width : Nat) (blank : Char), Trivia.isIndent blank = true ∧
      b.close.indentWidth < width ∧
        (u.leadIn b).toList = '\n' :: List.replicate width blank := by
  refine ⟨fun enclosing as => ⟨?_, ?_, ?_, u.pos_step_findIndent enclosing as⟩, fun b => ?_⟩
  · exact fun hne => (u.step_findIndent enclosing as).resolve_left fun h => hne h.1
  · intro hnil hne
    obtain ⟨-, hunit⟩ := (u.step_findIndent enclosing as).resolve_right
      fun h => List.not_mem_nil (hnil ▸ h.mem)
    rw [hunit]
    exact u.step_indentation.resolve_left fun h => hne h.1
  · intro hnil hunil
    obtain ⟨-, hunit⟩ := (u.step_findIndent enclosing as).resolve_right
      fun h => List.not_mem_nil (hnil ▸ h.mem)
    rw [hunit]
    exact (u.step_indentation.resolve_right fun h => List.not_mem_nil (hunil ▸ h.mem)).2
  · have hpos := u.pos_step_findIndent b.indentWidth b.statements
    refine ⟨_, Trivia.fill _, isIndent_fill _, ?_, String.toList_ofList⟩
    show b.indentWidth < b.indentWidth + _
    omega

/-- Without statements the unit decides, and of two depths in it the smaller one counts. -/
theorem findIndent_dominant_tie :
    ∃ u, parseUnit none "class A \x7b\n  void f() \x7b\n      a();\n  \x7d\n\x7d" = .ok u ∧
      u.depths = [2, 4] ∧ IsDominant u.depths (u.findIndent 0 []).step := by
  obtain ⟨u, h, hu⟩ := exists_ok (p := fun u => u.depths == [2, 4])
    (x := parseUnit none "class A \x7b\n  void f() \x7b\n      a();\n  \x7d\n\x7d")
    (by decide +kernel)
  have hu : u.depths = [2, 4] := beq_iff_eq.mp hu
  refine ⟨u, h, hu, (u.findIndent_dominant.1 0 []).2.1 rfl ?_⟩
  rw [hu]
  exact List.cons_ne_nil _ _

end CompilationUnit

end LosslessJava
