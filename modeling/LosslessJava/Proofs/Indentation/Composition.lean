import LosslessJava.Proofs.Indentation.Margin

/-!
# Shifts one after the other

Two shifts come to one shift by both amounts. A shift to the left can take less off a line than its
amount, and a shift to the right behind it cannot know that, so that order is left out.

* `Shift.Composable`: the order of the two shifts is not left out, and they fill with the same
  blanks.
* `Shift.apply_andThen`, `Shift.applyTo_andThen`: both at once, for trivia and for statements.
-/

namespace LosslessJava

theorem Trivia.eq_of_toList {t u : Trivia} (h : t.toList = u.toList) : t = u := by
  rw [← t.ofList_toList, h, u.ofList_toList]

namespace Shift

/-- The shift by both amounts. -/
def andThen (s t : Shift) : Shift := ⟨s.amount + t.amount, s.withSpaces⟩

/-- The shifts fill with the same blanks, and the first one is not to the left with the second one
to the right. -/
structure Composable (s t : Shift) : Prop where
  fill : s.withSpaces = t.withSpaces
  sign : 0 ≤ s.amount ∨ t.amount ≤ 0

variable {s t : Shift}

/-- What the shifts add to a line, less what the second one takes off again, is what both add at
once, and so it is with what they take off. -/
theorem Composable.line_line (h : s.Composable t) (cs : List Char) :
    t.line (s.line cs) = (s.andThen t).line cs := by
  have hsign := h.sign
  have hmargin : margin (s.line cs) =
      s.amount.toNat + (margin cs - min (-s.amount).toNat (margin cs)) := by
    rw [line_eq_replicate, margin_replicate, margin_drop (Nat.min_le_right _ _)]
  rw [line_eq_replicate t, hmargin, line_eq_replicate s]
  generalize hlost : min (-s.amount).toNat (margin cs) = lost
  generalize htaken : min (-t.amount).toNat (s.amount.toNat + (margin cs - lost)) = taken
  have hadded : t.amount.toNat + (s.amount.toNat - taken) = (s.andThen t).amount.toNat := by
    show _ = (s.amount + t.amount).toNat
    omega
  have hgone : lost + (taken - s.amount.toNat) =
      min (-(s.andThen t).amount).toNat (margin cs) := by
    show _ = min (-(s.amount + t.amount)).toNat (margin cs)
    omega
  have hfill : (s.andThen t).withSpaces = t.withSpaces := h.fill
  rw [line_eq_replicate, List.drop_append, List.drop_replicate, List.length_replicate,
    List.drop_drop, h.fill, ← List.append_assoc, List.replicate_append_replicate, hadded, hgone,
    hfill]

theorem Composable.lines_lines (h : s.Composable t) (ls : List (List Char)) :
    t.lines (s.lines ls) = (s.andThen t).lines ls := by
  cases ls with
  | nil => rfl
  | cons first rest =>
    rw [lines, lines, lines, List.map_map]
    exact congrArg (first :: ·) (List.map_congr_left fun line _ => h.line_line line)

theorem Composable.shifted_shifted (h : s.Composable t) (cs : List Char) :
    t.shifted (s.shifted cs) = (s.andThen t).shifted cs := by
  rw [shifted, splitOn_shifted, h.lines_lines]
  rfl

/-- Both shifts of a trivia at once. -/
theorem apply_andThen (h : s.Composable t) (u : Trivia) :
    t.apply (s.apply u) = (s.andThen t).apply u :=
  Trivia.eq_of_toList <| by rw [toList_apply, toList_apply, toList_apply, h.shifted_shifted]

mutual

/-- Both shifts of a statement at once. -/
theorem applyTo_andThen (h : s.Composable t) : (a : Statement) →
    t.applyTo (s.applyTo a) = (s.andThen t).applyTo a
  | .block ⟨lead, as, close⟩ => by
    simp only [applyTo, apply_andThen h, applyToList_andThen h as]
  | .branch lead c a => by
    simp only [applyTo, apply_andThen h, applyTo_andThen h a]
  | .fork lead c a elseLead b => by
    simp only [applyTo, apply_andThen h, applyTo_andThen h a, applyTo_andThen h b]
  | .loop lead c a => by
    simp only [applyTo, apply_andThen h, applyTo_andThen h a]
  | .ret _ => congrArg (fun lead => Statement.ret { lead, .. }) (apply_andThen h _)
  | .throwing .. => congrArg (Statement.throwing · _ _) (apply_andThen h _)
  | .empty _ => congrArg Statement.empty (apply_andThen h _)
  | .declaration d =>
    congrArg (fun lead => Statement.declaration (d.withLead lead)) (apply_andThen h _)
  | .expression .. => congrArg (Statement.expression · _ _) (apply_andThen h _)

theorem applyToList_andThen (h : s.Composable t) : (as : List Statement) →
    t.applyToList (s.applyToList as) = (s.andThen t).applyToList as
  | [] => rfl
  | a :: as => by simp only [applyToList, applyTo_andThen h a, applyToList_andThen h as]

end

end Shift

end LosslessJava
