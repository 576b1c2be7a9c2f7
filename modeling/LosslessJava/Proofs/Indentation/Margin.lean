import LosslessJava.Proofs.Indentation.Shift
import LosslessJava.Proofs.Text.Pieces

/-!
# The margins of shifted lines

The margin of a line is the number of blanks at its start. A shift adds its amount to the margin of
every line but the first one, and no margin gets below zero.

* `Shift.margin_line`: the margin of a shifted line.
* `Shift.splitOn_shifted`: a shifted text is the old one line by line.
* `Shift.indentWidth_apply`: the indentation of a shifted trivia.
-/

namespace LosslessJava

/-! ## Margins -/

/-- The number of blanks at the start of a line. -/
def margin (cs : List Char) : Nat := (cs.takeWhile Trivia.isIndent).length

theorem isIndent_fill (withSpaces : Bool) : Trivia.isIndent (Trivia.fill withSpaces) = true := by
  cases withSpaces <;> rfl

theorem margin_replicate (n : Nat) (withSpaces : Bool) (cs : List Char) :
    margin (List.replicate n (Trivia.fill withSpaces) ++ cs) = n + margin cs := by
  induction n with
  | zero => simp
  | succ n ih =>
    unfold margin at ih ⊢
    rw [List.replicate_succ, List.cons_append, List.takeWhile_cons_of_pos (isIndent_fill _),
      List.length_cons, ih]
    omega

/-- A line that loses blanks of its margin. -/
theorem margin_drop {n : Nat} {cs : List Char} (h : n ≤ margin cs) :
    margin (cs.drop n) = margin cs - n := by
  induction n generalizing cs with
  | zero => rfl
  | succ n ih =>
    cases cs with
    | nil => cases h
    | cons c cs =>
      by_cases hc : Trivia.isIndent c = true
      · have hcons : margin (c :: cs) = margin cs + 1 := by simp [margin, hc]
        rw [hcons] at h ⊢
        rw [List.drop_succ_cons, ih (Nat.le_of_succ_le_succ h), Nat.succ_sub_succ]
      · simp [margin, hc] at h

namespace Shift

variable (s : Shift)

/-- A shifted line has blanks added or taken off. -/
theorem line_eq_replicate (cs : List Char) :
    s.line cs = List.replicate s.amount.toNat (Trivia.fill s.withSpaces) ++
      cs.drop (min (-s.amount).toNat (margin cs)) := by
  rw [line_eq, lost, blanks, List.length_take]
  rfl

theorem margin_line (cs : List Char) :
    (margin (s.line cs) : Int) = max 0 (margin cs + s.amount) := by
  rw [line_eq_replicate, margin_replicate, margin_drop (Nat.min_le_right _ _)]
  omega

/-! ## Lines of texts -/

theorem not_mem_line {cs : List Char} (h : '\n' ∉ cs) : '\n' ∉ s.line cs := by
  rw [line_eq, List.mem_append, not_or]
  refine ⟨fun hpad => ?_, fun hdrop => h (List.mem_of_mem_drop hdrop)⟩
  exact ne_of_isIndent (isIndent_fill _) (List.eq_of_mem_replicate hpad).symm

theorem lines_ne_nil {ls : List (List Char)} (h : ls ≠ []) : s.lines ls ≠ [] := by
  obtain ⟨first, rest, rfl⟩ := List.exists_cons_of_ne_nil h
  exact List.cons_ne_nil _ _

/-- The lines of a shifted text are the shifted lines. -/
theorem splitOn_shifted (cs : List Char) :
    (s.shifted cs).splitOn '\n' = s.lines (cs.splitOn '\n') := by
  refine List.splitOn_intercalate '\n' (fun line hline => ?_)
    (s.lines_ne_nil (List.splitOn_ne_nil '\n' cs))
  obtain ⟨first, rest, hcs⟩ := exists_splitOn cs
  have hnone : ∀ l ∈ first :: rest, '\n' ∉ l := fun l hl => not_mem_of_mem_splitOn (hcs ▸ hl)
  rw [hcs] at hline
  rcases List.mem_cons.mp hline with rfl | hline
  · exact hnone _ List.mem_cons_self
  · obtain ⟨l, hl, rfl⟩ := List.mem_map.mp hline
    exact s.not_mem_line (hnone l (List.mem_cons_of_mem _ hl))

/-! ## Indentation -/

/-- What is behind the last line break is the last line, if there is more than one. -/
theorem lastLine_eq (cs : List Char) : Trivia.lastLine cs = (cs.splitOn '\n').tail.getLast? := by
  induction cs with
  | nil => rfl
  | cons c cs ih =>
    obtain ⟨first, rest, hcs⟩ := exists_splitOn cs
    rw [hcs, List.tail_cons] at ih
    rw [Trivia.lastLine, ih, splitOn_cons, hcs]
    by_cases hc : c = '\n'
    · rw [if_pos hc, if_pos (beq_iff_eq.mpr hc), List.tail_cons]
      cases rest with
      | nil =>
        have hline : ['\n'].intercalate [first] = cs := hcs ▸ List.intercalate_splitOn '\n'
        simp [← hline]
      | cons second rest =>
        rw [List.getLast?_cons_cons, List.getLast?_cons]
        rfl
    · rw [if_neg hc, if_neg (by simpa using hc), Option.or_none]
      rfl

theorem lastLine_shifted (cs : List Char) :
    Trivia.lastLine (s.shifted cs) = (Trivia.lastLine cs).map s.line := by
  obtain ⟨first, rest, hcs⟩ := exists_splitOn cs
  rw [lastLine_eq, lastLine_eq, splitOn_shifted, hcs]
  exact List.getLast?_map

theorem isSome_lastLine (cs : List Char) : (Trivia.lastLine cs).isSome = cs.contains '\n' := by
  induction cs with
  | nil => rfl
  | cons c cs ih =>
    rw [Trivia.lastLine, Option.isSome_or, ih, List.contains_cons, Bool.or_comm]
    by_cases hc : c = '\n'
    · simp [hc]
    · simp [hc, Ne.symm hc]

theorem indentWidth_eq (t : Trivia) :
    t.indentWidth = ((Trivia.lastLine t.toList).map margin).getD 0 := by
  rw [Trivia.indentWidth, Trivia.indentation, Option.map_map]
  rfl

/-- A token that starts a line moves by the amount of the shift, but not out of the line. -/
theorem indentWidth_apply {t : Trivia} (h : t.startsNewLine = true) :
    ((s.apply t).indentWidth : Int) = max 0 (t.indentWidth + s.amount) := by
  rw [Trivia.startsNewLine, ← isSome_lastLine] at h
  obtain ⟨line, hline⟩ := Option.isSome_iff_exists.mp h
  rw [indentWidth_eq, indentWidth_eq, toList_apply, lastLine_shifted, hline]
  exact s.margin_line line

theorem apply_of_startsNewLine {t : Trivia} (h : t.startsNewLine = false) : s.apply t = t :=
  if_pos (.inr h)

end Shift

end LosslessJava
