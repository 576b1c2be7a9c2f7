import LosslessJava.Proofs.DominantIndentation

/-!
# Units that are indented with tabs

Discovery decides between spaces and tabs by counting the lines of a unit. A line without any
indentation counts as one that is indented with spaces.

* `CompilationUnit.indentations`: the indentations of the nodes of a unit that start a line.
* `CompilationUnit.findIndent_tabbed`: a unit that is indented with tabs is found to be so exactly
  when more of its lines are indented than not.
* `CompilationUnit.not_findIndent_tabbed`: a class in the first column weighs as much as a field
  behind a tab.
-/

namespace LosslessJava

namespace IndentedLine

/-- In a line that is indented with nothing but tabs, spaces make up half of the indentation only
if there is none. -/
theorem isSpaced_of_tabs {l : IndentedLine} (h : ∀ c ∈ l.indentation, c = '\t') :
    l.isSpaced = (l.indentation == []) := by
  have hspaces : l.indentation.count ' ' = 0 := by
    refine List.count_eq_zero.mpr fun hmem => ?_
    exact absurd (h ' ' hmem) (by decide)
  rw [Bool.eq_iff_iff]
  simp [isSpaced, width, hspaces]

/-- Tabs outvote spaces by the lines that are indented. -/
theorem mostlySpaced_of_tabs {ls : List IndentedLine}
    (h : ∀ l ∈ ls, ∀ c ∈ l.indentation, c = '\t') :
    mostlySpaced ls = false ↔
      (ls.map indentation).countP (· == []) < (ls.map indentation).countP (· != []) := by
  have hspaced : ls.countP (·.isSpaced) = (ls.map indentation).countP (· == []) := by
    rw [List.countP_map]
    exact List.countP_congr fun l hl => by simp [isSpaced_of_tabs (h l hl)]
  have htabbed : ls.countP (!·.isSpaced) = (ls.map indentation).countP (· != []) := by
    rw [List.countP_map]
    exact List.countP_congr fun l hl => by simp [isSpaced_of_tabs (h l hl)]
  rw [mostlySpaced, hspaced, htabbed, decide_eq_false_iff_not, Nat.not_le]

end IndentedLine

namespace CompilationUnit

/-- The indentations of the classes, their members and the statements of their methods, of those
that start a line. -/
def indentations (u : CompilationUnit) : List (List Char) :=
  (u.classes.flatMap (·.chains [])).filterMap (·.head?.bind Trivia.indentation)

/-- More lines are indented than not. -/
def IndentsMost (u : CompilationUnit) : Prop :=
  u.indentations.countP (· == []) < u.indentations.countP (· != [])

instance (u : CompilationUnit) : Decidable u.IndentsMost := inferInstanceAs (Decidable (_ < _))

theorem map_indentation_lines (u : CompilationUnit) :
    u.lines.map IndentedLine.indentation = u.indentations := by
  rw [lines_eq, List.map_filterMap, indentations]
  congr 1
  funext leads
  cases leads with
  | nil => rfl
  | cons t around => simp [line?, Function.comp_def]

theorem withSpaces_findIndent_nil (u : CompilationUnit) (enclosing : Nat) :
    (u.findIndent enclosing []).withSpaces = IndentedLine.mostlySpaced u.lines := rfl

/-- Let a unit be indented with nothing but tabs, with some of its classes, members and statements
perhaps in the first column. Without statements to go by, it is found to be indented with tabs
exactly when more of its lines are indented than not. A statement that is added to an empty block is
then indented with tabs, and otherwise with spaces. -/
theorem findIndent_tabbed {u : CompilationUnit} (h : ∀ i ∈ u.indentations, ∀ c ∈ i, c = '\t') :
    (∀ enclosing, (u.findIndent enclosing []).withSpaces = false ↔ u.IndentsMost) ∧
    ∀ b : Block, b.statements = [] → ∃ width, b.close.indentWidth < width ∧
      (u.leadIn b).toList =
        '\n' :: List.replicate width (if u.IndentsMost then '\t' else ' ') := by
  have htabs : IndentedLine.mostlySpaced u.lines = false ↔ u.IndentsMost := by
    rw [IndentsMost, ← map_indentation_lines]
    refine IndentedLine.mostlySpaced_of_tabs fun l hl => h l.indentation ?_
    rw [← map_indentation_lines]
    exact List.mem_map_of_mem hl
  refine ⟨fun enclosing => htabs, fun b hb => ?_⟩
  have hfill : Trivia.fill (u.findIndent b.indentWidth b.statements).withSpaces =
      if u.IndentsMost then '\t' else ' ' := by
    rw [hb, withSpaces_findIndent_nil]
    by_cases hmost : u.IndentsMost
    · rw [if_pos hmost, htabs.mpr hmost]
      rfl
    · rw [if_neg hmost, eq_true_of_ne_false (mt htabs.mp hmost)]
      rfl
  have hpos := u.pos_step_findIndent b.indentWidth b.statements
  refine ⟨b.indentWidth + (u.findIndent b.indentWidth b.statements).step,
    Nat.lt_add_of_pos_right hpos, ?_⟩
  rw [← hfill]
  exact String.toList_ofList

/-- A class at the start of the text starts no line, so that only its member and the statement
count. -/
theorem findIndent_tabbed_first :
    ∃ u, parseUnit none "class A \x7b\n\tvoid f() \x7b\n\t\treturn;\n\t\x7d\n\x7d" = .ok u ∧
      u.indentations = [['\t'], ['\t', '\t']] ∧ (u.findIndent 1 []).withSpaces = false := by
  obtain ⟨u, h, hu⟩ := exists_ok (p := fun u => u.indentations == [['\t'], ['\t', '\t']])
    (x := parseUnit none "class A \x7b\n\tvoid f() \x7b\n\t\treturn;\n\t\x7d\n\x7d")
    (by decide +kernel)
  have hu : u.indentations = [['\t'], ['\t', '\t']] := beq_iff_eq.mp hu
  have htabs : ∀ i ∈ u.indentations, ∀ c ∈ i, c = '\t' := by
    simp [hu]
  refine ⟨u, h, hu, ((findIndent_tabbed htabs).1 1).mpr ?_⟩
  rw [IndentsMost, hu]
  decide

/-- The only indentation is a tab, and discovery still finds spaces. -/
theorem not_findIndent_tabbed :
    ∃ u, parseUnit none "package p;\n\nclass A \x7b\n\tint x;\n\x7d" = .ok u ∧
      u.indentations = [[], ['\t']] ∧ (u.findIndent 0 []).withSpaces = true := by
  obtain ⟨u, h, hu⟩ := exists_ok (x := parseUnit none "package p;\n\nclass A \x7b\n\tint x;\n\x7d")
    (p := fun u => u.indentations == [[], ['\t']] && (u.findIndent 0 []).withSpaces)
    (by decide +kernel)
  exact ⟨u, h, by simpa using hu⟩

end CompilationUnit

end LosslessJava
