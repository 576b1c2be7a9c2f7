import LosslessJava.Indentation.Shift
import LosslessJava.Proofs.Lex.Gap

/-!
# Shifted trivia

A shift puts blanks behind the line breaks of a trivia, or takes blanks away there. What it takes
away is never part of the marks that a comment starts or ends with.

* `Shift.shifted`: the text of a shifted trivia, character by character.
* `Shift.toList_apply`: a shifted trivia has this text, also where the shift changes nothing.
* `Shift.isGap_apply`: shifted white space and comments are white space and comments.
* `Shift.head_apply`: the first character stays.
-/

namespace LosslessJava

namespace Shift

variable (s : Shift)

/-! ## Lines -/

/-- The text with the lines behind the first one shifted. -/
def shifted (cs : List Char) : List Char := ['\n'].intercalate (s.lines (cs.splitOn '\n'))

/-- What a shift to the right puts in front of a line. -/
def pad : List Char := List.replicate s.amount.toNat (Trivia.fill s.withSpaces)

/-- The number of blanks at the start of a text, but no more than `n`. -/
def blanks (n : Nat) (cs : List Char) : Nat := ((cs.takeWhile Trivia.isIndent).take n).length

/-- What a shift to the left takes off a line. -/
def lost (cs : List Char) : Nat := blanks (-s.amount).toNat cs

theorem line_eq (cs : List Char) : s.line cs = s.pad ++ cs.drop (s.lost cs) := by
  unfold line pad lost blanks
  by_cases h : 0 < s.amount
  · rw [if_pos h, show (-s.amount).toNat = 0 by omega]
    rfl
  · rw [if_neg h, show s.amount.toNat = 0 by omega]
    rfl

theorem splitOn_cons (c : Char) (cs : List Char) : (c :: cs).splitOn '\n' =
    if c = '\n' then [] :: cs.splitOn '\n' else (cs.splitOn '\n').modifyHead (c :: ·) := by
  simp only [List.splitOn, List.splitOnP_cons_eq_if_modifyHead, beq_iff_eq]

/-- The first line of a text and the others. -/
theorem exists_splitOn (cs : List Char) : ∃ first rest, cs.splitOn '\n' = first :: rest :=
  List.exists_cons_of_ne_nil (List.splitOn_ne_nil '\n' cs)

theorem ne_of_isIndent {c : Char} (h : Trivia.isIndent c = true) : c ≠ '\n' := by
  rintro rfl
  cases h

theorem blanks_of_not_isIndent {c : Char} (h : Trivia.isIndent c = false) (n : Nat)
    (cs : List Char) : blanks n (c :: cs) = 0 := by
  simp [blanks, h]

theorem blanks_of_isIndent {c : Char} (h : Trivia.isIndent c = true) (n : Nat) (cs : List Char) :
    blanks (n + 1) (c :: cs) = blanks n cs + 1 := by
  simp [blanks, h]

/-- The blanks at the start of a text are in its first line. -/
theorem splitOn_drop_blanks {n : Nat} {cs first : List Char} {rest : List (List Char)}
    (h : cs.splitOn '\n' = first :: rest) : blanks n first = blanks n cs ∧
      (cs.drop (blanks n cs)).splitOn '\n' = first.drop (blanks n cs) :: rest := by
  induction cs generalizing n first with
  | nil =>
    obtain ⟨rfl, rfl⟩ := List.cons.inj h
    simp [blanks]
  | cons c cs ih =>
    obtain ⟨line, rest', hline⟩ := exists_splitOn cs
    rw [splitOn_cons, hline] at h
    by_cases hindent : Trivia.isIndent c = true
    · rw [if_neg (ne_of_isIndent hindent)] at h
      obtain ⟨rfl, rfl⟩ := List.cons.inj h
      cases n with
      | zero => simp [blanks, splitOn_cons, ne_of_isIndent hindent, hline]
      | succ n =>
        obtain ⟨hblanks, hdrop⟩ := ih (n := n) hline
        rw [blanks_of_isIndent hindent, blanks_of_isIndent hindent, hblanks]
        exact ⟨rfl, hdrop⟩
    · have hnone : ∀ ds, blanks n (c :: ds) = 0 :=
        blanks_of_not_isIndent (Bool.eq_false_iff.mpr hindent) n
      have hsplit : (c :: cs).splitOn '\n' = first :: rest := by
        rw [splitOn_cons, hline]
        exact h
      rw [hnone cs, List.drop_zero, List.drop_zero]
      refine ⟨?_, hsplit⟩
      by_cases hc : c = '\n'
      · rw [if_pos hc] at h
        obtain ⟨rfl, -⟩ := List.cons.inj h
        simp [blanks]
      · rw [if_neg hc] at h
        obtain ⟨rfl, -⟩ := List.cons.inj h
        exact hnone line

@[simp] theorem shifted_nil : s.shifted [] = [] := rfl

theorem shifted_cons {c : Char} (hc : c ≠ '\n') (cs : List Char) :
    s.shifted (c :: cs) = c :: s.shifted cs := by
  obtain ⟨first, rest, h⟩ := exists_splitOn cs
  rw [shifted, shifted, splitOn_cons, if_neg hc, h]
  cases rest with
  | nil => simp [lines]
  | cons second rest => simp [lines]

theorem shifted_lineBreak (cs : List Char) :
    s.shifted ('\n' :: cs) = '\n' :: (s.pad ++ s.shifted (cs.drop (s.lost cs))) := by
  obtain ⟨first, rest, h⟩ := exists_splitOn cs
  obtain ⟨hlost, hdrop⟩ := splitOn_drop_blanks (n := (-s.amount).toNat) h
  change s.lost first = s.lost cs at hlost
  change (cs.drop (s.lost cs)).splitOn '\n' = first.drop (s.lost cs) :: rest at hdrop
  rw [shifted, shifted, splitOn_cons, if_pos rfl, h, hdrop]
  cases rest with
  | nil => simp [lines, line_eq, hlost]
  | cons second rest => simp [lines, line_eq, hlost]

theorem head_shifted (cs : List Char) : (s.shifted cs).head? = cs.head? := by
  cases cs with
  | nil => rfl
  | cons c cs =>
    by_cases hc : c = '\n'
    · rw [hc, shifted_lineBreak]
      rfl
    · rw [shifted_cons s hc]
      rfl

/-- A text without line breaks stays. -/
theorem shifted_append_line {line : List Char} (h : ∀ c ∈ line, c ≠ '\n') (cs : List Char) :
    s.shifted (line ++ cs) = line ++ s.shifted cs := by
  induction line with
  | nil => rfl
  | cons c line ih =>
    obtain ⟨hc, hline⟩ := List.forall_mem_cons.mp h
    rw [List.cons_append, shifted_cons s hc, ih hline, List.cons_append]

theorem blanks_append {c : Char} (hc : Trivia.isIndent c = false) (n : Nat) (ds cs : List Char) :
    blanks n (ds ++ c :: cs) = blanks n ds := by
  induction ds generalizing n with
  | nil =>
    rw [List.nil_append, blanks_of_not_isIndent hc]
    simp [blanks]
  | cons d ds ih =>
    rw [List.cons_append]
    by_cases hd : Trivia.isIndent d = true
    · cases n with
      | zero => simp [blanks]
      | succ n => rw [blanks_of_isIndent hd, blanks_of_isIndent hd, ih]
    · have hd := Bool.eq_false_iff.mpr hd
      rw [blanks_of_not_isIndent hd, blanks_of_not_isIndent hd]

theorem blanks_le (n : Nat) (cs : List Char) : blanks n cs ≤ cs.length :=
  Nat.le_trans (List.length_take_le' n _) (List.takeWhile_prefix _).length_le

/-- What is in front of a character that is no blank is shifted on its own. -/
theorem shifted_append {c : Char} (hc : Trivia.isIndent c = false) (ds cs : List Char) :
    s.shifted (ds ++ c :: cs) = s.shifted ds ++ s.shifted (c :: cs) := by
  induction hn : ds.length using Nat.strongRecOn generalizing ds with
  | ind n ih =>
    subst hn
    cases ds with
    | nil => rfl
    | cons d ds =>
      by_cases hd : d = '\n'
      · have hdrop : (ds ++ c :: cs).drop (s.lost (ds ++ c :: cs)) =
            ds.drop (s.lost ds) ++ c :: cs := by
          rw [lost, blanks_append hc, List.drop_append_of_le_length (blanks_le _ ds)]
          rfl
        have hshort : (ds.drop (s.lost ds)).length < (d :: ds).length := by
          rw [List.length_drop, List.length_cons]
          omega
        rw [hd, List.cons_append, shifted_lineBreak, hdrop, ih _ hshort _ rfl, shifted_lineBreak,
          List.cons_append, List.append_assoc]
      · rw [List.cons_append, shifted_cons s hd, shifted_cons s hd,
          ih _ (Nat.lt_succ_self _) _ rfl, List.cons_append]

/-! ## Comments -/

theorem isInfix_of_append {front cs : List Char} (h : '*' ∉ front)
    (hin : ['*', '/'] <:+: front ++ cs) : ['*', '/'] <:+: cs := by
  induction front with
  | nil => exact hin
  | cons c front ih =>
    rw [List.mem_cons, not_or] at h
    rcases List.infix_cons_iff.mp hin with ⟨rest, hprefix⟩ | hin
    · exact absurd (List.cons.inj hprefix).1 h.1
    · exact ih h.2 hin

theorem not_mem_pad : '*' ∉ s.pad := by
  intro h
  have hfill := List.eq_of_mem_replicate h
  unfold Trivia.fill at hfill
  split at hfill <;> cases hfill

/-- No end of a comment comes from a shift. -/
theorem isInfix_of_shifted {cs : List Char} (h : ['*', '/'] <:+: s.shifted cs) :
    ['*', '/'] <:+: cs := by
  induction hn : cs.length using Nat.strongRecOn generalizing cs with
  | ind n ih =>
    subst hn
    cases cs with
    | nil => exact h
    | cons c cs =>
      by_cases hc : c = '\n'
      · rw [hc, shifted_lineBreak, ← List.cons_append] at h
        have hpad : '*' ∉ '\n' :: s.pad := by
          rw [List.mem_cons, not_or]
          exact ⟨by decide, s.not_mem_pad⟩
        have hshort : (cs.drop (s.lost cs)).length < (c :: cs).length := by
          rw [List.length_drop, List.length_cons]
          omega
        have hin := ih _ hshort (isInfix_of_append hpad h) rfl
        exact List.infix_cons (hin.trans (List.drop_suffix _ cs).isInfix)
      · rw [shifted_cons s hc] at h
        rcases List.infix_cons_iff.mp h with ⟨rest, hprefix⟩ | hin
        · obtain ⟨rfl, hrest⟩ := List.cons.inj hprefix
          have hhead := s.head_shifted cs
          rw [← hrest] at hhead
          obtain ⟨ds, rfl⟩ := List.head?_eq_some_iff.mp hhead.symm
          exact ⟨[], ds, rfl⟩
        · exact List.infix_cons (ih _ (Nat.lt_succ_self _) hin rfl)

theorem isGap_drop_blanks {n : Nat} {cs : List Char} (h : Lex.IsGap false cs) :
    Lex.IsGap false (cs.drop (blanks n cs)) := by
  induction n generalizing cs with
  | zero => simpa [blanks] using h
  | succ n ih =>
    cases cs with
    | nil => exact .nil
    | cons c cs =>
      by_cases hc : Trivia.isIndent c = true
      · rw [blanks_of_isIndent hc]
        refine ih ?_
        cases h with
        | space _ h => exact h
        | blockComment _ _ => cases hc
        | lineComment _ _ _ => cases hc
        | lastComment hfinal _ => cases hfinal
      · rw [blanks_of_not_isIndent (Bool.eq_false_iff.mpr hc)]
        exact h

theorem isGap_pad {cs : List Char} (h : Lex.IsGap false cs) : Lex.IsGap false (s.pad ++ cs) := by
  have hfill : Lex.isSpace (Trivia.fill s.withSpaces) = true := by
    cases s.withSpaces <;> rfl
  unfold pad
  induction s.amount.toNat with
  | zero => exact h
  | succ n ih => exact .space hfill ih

/-- A line break does not hide what a shift leaves behind it. -/
theorem isGap_shifted {cs : List Char} (h : Lex.IsGap false cs) :
    Lex.IsGap false (s.shifted cs) := by
  induction hn : cs.length using Nat.strongRecOn generalizing cs with
  | ind n ih =>
    subst hn
    -- Behind a line break, blanks are put in front of the gap or taken off it.
    have hbehind : ∀ ds, ds.length < cs.length → Lex.IsGap false ds →
        Lex.IsGap false (s.pad ++ s.shifted (ds.drop (s.lost ds))) := by
      intro ds hds hgap
      refine s.isGap_pad (ih _ ?_ (isGap_drop_blanks hgap) rfl)
      rw [List.length_drop]
      omega
    cases h with
    | nil => exact .nil
    | @space c ds hc h =>
      by_cases hbreak : c = '\n'
      · rw [hbreak, shifted_lineBreak]
        exact .space rfl (hbehind ds (Nat.lt_succ_self _) h)
      · rw [shifted_cons s hbreak]
        exact .space hc (ih _ (Nat.lt_succ_self _) h rfl)
    | @blockComment body ds hbody h =>
      have hsplit : s.shifted ('/' :: '*' :: body ++ '*' :: '/' :: ds) =
          '/' :: '*' :: s.shifted body ++ '*' :: '/' :: s.shifted ds := by
        rw [shifted_append s rfl, shifted_cons s (by decide), shifted_cons s (by decide),
          shifted_cons s (by decide), shifted_cons s (by decide)]
      rw [hsplit]
      exact .blockComment (fun hin => hbody (s.isInfix_of_shifted hin))
        (ih _ (by simp; omega) h rfl)
    | @lineComment body ds c hbody hc h =>
      have hline : ∀ d ∈ '/' :: '/' :: body, d ≠ '\n' := by
        simp only [List.forall_mem_cons]
        refine ⟨by decide, by decide, fun d hd => ?_⟩
        rintro rfl
        cases hbody _ hd
      rw [shifted_append_line s hline]
      by_cases hbreak : c = '\n'
      · rw [hbreak, shifted_lineBreak]
        exact .lineComment hbody rfl (hbehind ds (by simp; omega) h)
      · rw [shifted_cons s hbreak]
        exact .lineComment hbody hc (ih _ (by simp; omega) h rfl)
    | lastComment hfinal _ => cases hfinal

/-! ## Trivia -/

theorem shifted_of_amount {s : Shift} (h : s.amount = 0) (cs : List Char) : s.shifted cs = cs := by
  have hline : s.line = id := by
    funext line
    rw [line_eq, pad, lost, blanks, h]
    simp
  obtain ⟨first, rest, hcs⟩ := exists_splitOn cs
  rw [shifted, hcs, lines, hline, List.map_id, ← hcs, List.intercalate_splitOn]

theorem shifted_of_not_mem {cs : List Char} (h : '\n' ∉ cs) : s.shifted cs = cs := by
  have hline : ∀ c ∈ cs, c ≠ '\n' := fun c hc heq => h (heq ▸ hc)
  simpa using s.shifted_append_line hline []

/-- A shifted trivia is its shifted text, also where the shift changes nothing. -/
theorem toList_apply (t : Trivia) : (s.apply t).toList = s.shifted t.toList := by
  unfold apply
  split
  · rename_i h
    rcases h with hamount | hline
    · rw [shifted_of_amount hamount]
    · rw [s.shifted_of_not_mem (by simpa [Trivia.startsNewLine] using hline)]
  · exact Trivia.toList_ofList _

theorem isGap_apply {t : Trivia} (h : Lex.IsGap false t.toList) :
    Lex.IsGap false (s.apply t).toList := by
  rw [toList_apply]
  exact s.isGap_shifted h

theorem head_apply (t : Trivia) : (s.apply t).toList.head? = t.toList.head? := by
  rw [toList_apply, head_shifted]

/-! ## No shift -/

theorem apply_of_amount {s : Shift} (h : s.amount = 0) (t : Trivia) : s.apply t = t :=
  if_pos (.inl h)

theorem withLead_lead (a : Statement) : a.withLead a.lead = a := by
  cases a with
  | block b => cases b; rfl
  | ret r => cases r; rfl
  | declaration d => cases d; rfl
  | _ => rfl

mutual

theorem applyTo_of_amount {s : Shift} (h : s.amount = 0) : (a : Statement) → s.applyTo a = a
  | .block ⟨lead, as, close⟩ => by
    rw [applyTo, apply_of_amount h, apply_of_amount h, applyToList_of_amount h as]
  | .branch lead c a => by
    rw [applyTo, apply_of_amount h, applyTo_of_amount h a]
  | .fork lead c a elseLead b => by
    rw [applyTo, apply_of_amount h, apply_of_amount h, applyTo_of_amount h a,
      applyTo_of_amount h b]
  | .loop lead c a => by
    rw [applyTo, apply_of_amount h, applyTo_of_amount h a]
  | .ret r => by
    show (Statement.ret r).withLead (s.apply _) = _
    rw [apply_of_amount h, withLead_lead]
  | .throwing .. => congrArg (Statement.throwing · _ _) (apply_of_amount h _)
  | .empty _ => congrArg Statement.empty (apply_of_amount h _)
  | .declaration d => by
    show (Statement.declaration d).withLead (s.apply _) = _
    rw [apply_of_amount h, withLead_lead]
  | .expression .. => congrArg (Statement.expression · _ _) (apply_of_amount h _)

theorem applyToList_of_amount {s : Shift} (h : s.amount = 0) :
    (as : List Statement) → s.applyToList as = as
  | [] => rfl
  | a :: as => by rw [applyToList, applyTo_of_amount h a, applyToList_of_amount h as]

end

end Shift

end LosslessJava
