import LosslessJava.Diff.LineDiff

/-!
# Scripts and their groups

* `Run xs ys i j es i' j'`: the edits lead from the places `i` and `j` in two lists to `i'` and
  `j'`, and each starts in both lists where the one before it ends.
* `isContiguous_between_nil_left`, `isContiguous_between_nil_right`: a script from or to the empty
  list is contiguous.
* `run_of_check`: a contiguous script leads through the whole lists.
* `Edit.Keeps`, `HoldsChanges.keeps`: what the edits in the groups keep is the same in both lists,
  whether the script is contiguous or not.
* `Covers`, `HoldsChanges.covers`: groups that hold all changes of a run leave nothing out that
  differs.
* `LineDiff.keeps_groups`, `LineDiff.covers_groups`: both for the groups of any line diff.
-/

namespace LosslessJava.Diff

variable {α : Type}

/-! ## Slices -/

section Slice

variable {xs : List α} {i m n : Nat}

theorem slice_append_drop (xs : List α) (i n : Nat) :
    slice xs i n ++ xs.drop (i + n) = xs.drop i := by
  rw [slice, ← List.drop_drop, List.take_append_drop]

theorem slice_append_slice (xs : List α) (i m n : Nat) :
    slice xs i m ++ slice xs (i + m) n = slice xs i (m + n) := by
  rw [slice, slice, slice, List.take_add, List.drop_drop]

theorem length_slice (h : i + n ≤ xs.length) : (slice xs i n).length = n := by
  rw [slice, List.length_take, List.length_drop]
  omega

end Slice

/-- The next `n` elements are there in both lists and the same. -/
structure Same (xs ys : List α) (i j n : Nat) : Prop where
  old : i + n ≤ xs.length
  new : j + n ≤ ys.length
  slices : slice xs i n = slice ys j n

namespace Same

variable {xs ys : List α} {i j m n : Nat}

theorem zero (hi : i ≤ xs.length) (hj : j ≤ ys.length) : Same xs ys i j 0 :=
  ⟨hi, hj, rfl⟩

/-- The first part of what is the same. -/
theorem left (h : Same xs ys i j (m + n)) : Same xs ys i j m := by
  refine ⟨Nat.le_trans (by omega) h.old, Nat.le_trans (by omega) h.new, ?_⟩
  have hslices := congrArg (List.take m) h.slices
  simpa [slice, List.take_take] using hslices

/-- The second part of what is the same. -/
theorem right (h : Same xs ys i j (m + n)) : Same xs ys (i + m) (j + m) n := by
  refine ⟨Nat.le_trans (by omega) h.old, Nat.le_trans (by omega) h.new, ?_⟩
  have hslices := h.slices
  rw [← slice_append_slice, ← slice_append_slice, h.left.slices] at hslices
  exact List.append_cancel_left hslices

theorem append (h : Same xs ys i j m) (h' : Same xs ys (i + m) (j + m) n) :
    Same xs ys i j (m + n) := by
  refine ⟨by have := h'.old; omega, by have := h'.new; omega, ?_⟩
  rw [← slice_append_slice, ← slice_append_slice, h.slices, h'.slices]

theorem of_le (h : Same xs ys i j n) (hm : m ≤ n) : Same xs ys i j m := by
  obtain ⟨k, rfl⟩ := Nat.exists_eq_add_of_le hm
  exact h.left

/-- The ends of the lists are the same from an earlier place on. -/
theorem drop_eq (h : Same xs ys i j n) (hend : xs.drop (i + n) = ys.drop (j + n)) :
    xs.drop i = ys.drop j := by
  rw [← slice_append_drop xs i n, ← slice_append_drop ys j n, h.slices, hend]

end Same

/-! ## Kept elements -/

/-- What the edit keeps is the same in both lists. -/
def Edit.Keeps (xs ys : List α) (e : Edit) : Prop :=
  e.kind = .keep → e.oldLength = e.newLength ∧ Same xs ys e.oldStart e.newStart e.oldLength

section Keeps

variable {xs ys : List α} {e : Edit} {es fs : List Edit} {i j n : Nat}

theorem Edit.Keeps.dropFirst (h : e.Keeps xs ys) (hn : n ≤ e.oldLength) :
    (e.dropFirst n).Keeps xs ys := by
  intro hkind
  obtain ⟨hlength, hsame⟩ := h hkind
  have hsplit : e.oldLength = n + (e.oldLength - n) := by omega
  rw [hsplit] at hsame
  refine ⟨?_, hsame.right⟩
  simp only [Edit.dropFirst]
  omega

theorem Edit.Keeps.dropLast (h : e.Keeps xs ys) : (e.dropLast n).Keeps xs ys := by
  intro hkind
  obtain ⟨hlength, hsame⟩ := h hkind
  refine ⟨?_, hsame.of_le (Nat.sub_le e.oldLength n)⟩
  simp only [Edit.dropLast]
  omega

namespace Script

theorem keeps_of_check [BEq α] [LawfulBEq α] (h : check xs ys i j es = true) :
    ∀ e ∈ es, e.Keeps xs ys := by
  induction es generalizing i j with
  | nil => exact List.forall_mem_nil _
  | cons e es ih =>
    simp only [check] at h
    split at h
    · simp only [Bool.and_eq_true, beq_iff_eq, decide_eq_true_eq] at h
      obtain ⟨⟨⟨⟨⟨⟨rfl, rfl⟩, hlength⟩, hold⟩, hnew⟩, hslices⟩, hrest⟩ := h
      refine List.forall_mem_cons.mpr ⟨fun _ => ⟨hlength, hold, ?_, ?_⟩, ih hrest⟩
      · rwa [hlength]
      · rw [hslices, hlength]
    all_goals
      rename_i hkind
      simp only [Bool.and_eq_true] at h
      exact List.forall_mem_cons.mpr ⟨by simp [Edit.Keeps, hkind], ih h.2⟩

theorem Splits.keeps (h : Splits es fs) (hes : ∀ e ∈ es, e.Keeps xs ys) :
    ∀ f ∈ fs, f.Keeps xs ys := by
  induction h with
  | refl => exact hes
  | head hkind hn _ ih =>
    obtain ⟨hfront, hrest⟩ := List.forall_mem_append.mp hes
    obtain ⟨he, hback⟩ := List.forall_mem_cons.mp hrest
    exact ih (List.forall_mem_append.mpr ⟨hfront, List.forall_mem_cons.mpr
      ⟨he.dropLast, List.forall_mem_cons.mpr ⟨he.dropFirst hn, hback⟩⟩⟩)

theorem Spaced.mem {least : Nat} {groups : List (List Edit)} (h : Spaced least es groups)
    {g : List Edit} (hg : g ∈ groups) (he : e ∈ g) : e ∈ es := by
  induction h with
  | nil => cases hg
  | cons _ _ _ _ ih =>
    refine List.mem_append_right _ (List.mem_append.mpr ?_)
    rcases List.mem_cons.mp hg with rfl | hg
    · exact .inl he
    · exact .inr (ih hg)

/-- The groups of a script keep what the script keeps. -/
theorem HoldsChanges.keeps {groups : List (List Edit)} (h : HoldsChanges es groups)
    (hes : ∀ e ∈ es, e.Keeps xs ys) : ∀ g ∈ groups, ∀ e ∈ g, e.Keeps xs ys := by
  obtain ⟨fs, hsplits, hspaced⟩ := h
  exact fun g hg e he => hsplits.keeps hes e (hspaced.mem hg he)

end Script

end Keeps

/-! ## Runs -/

/-- The edit is about elements that are there, and its lengths are those of its kind. -/
structure Edit.Fits (xs ys : List α) (e : Edit) : Prop where
  old : e.oldEnd ≤ xs.length
  new : e.newEnd ≤ ys.length
  keep : e.kind = .keep → e.oldLength = e.newLength ∧ Same xs ys e.oldStart e.newStart e.oldLength
  delete : e.kind = .delete → e.newLength = 0
  insert : e.kind = .insert → e.oldLength = 0

/-- The edits lead from two places in the lists to two others, without a gap between them. -/
def Run (xs ys : List α) : Nat → Nat → List Edit → Nat → Nat → Prop
  | i, j, [], i', j' => i = i' ∧ j = j'
  | i, j, e :: es, i', j' =>
    e.oldStart = i ∧ e.newStart = j ∧ e.Fits xs ys ∧ Run xs ys e.oldEnd e.newEnd es i' j'

section Run

variable {xs ys : List α} {e : Edit} {es fs : List Edit} {i j i' j' i'' j'' n : Nat}

theorem Run.le (h : Run xs ys i j es i' j') : i ≤ i' ∧ j ≤ j' := by
  induction es generalizing i j with
  | nil =>
    obtain ⟨rfl, rfl⟩ := h
    exact ⟨Nat.le_refl _, Nat.le_refl _⟩
  | cons e es ih =>
    obtain ⟨rfl, rfl, -, hes⟩ := h
    have hle := ih hes
    exact ⟨Nat.le_trans (Nat.le_add_right _ _) hle.1, Nat.le_trans (Nat.le_add_right _ _) hle.2⟩

theorem run_append : Run xs ys i j (es ++ fs) i' j' ↔
    ∃ i'' j'', Run xs ys i j es i'' j'' ∧ Run xs ys i'' j'' fs i' j' := by
  induction es generalizing i j with
  | nil =>
    constructor
    · exact fun h => ⟨i, j, ⟨rfl, rfl⟩, h⟩
    · rintro ⟨_, _, ⟨rfl, rfl⟩, h⟩
      exact h
  | cons e es ih => simp only [List.cons_append, Run, ih, and_assoc, exists_and_left]

theorem Edit.Fits.run (h : e.Fits xs ys) : Run xs ys e.oldStart e.newStart [e] e.oldEnd e.newEnd :=
  ⟨rfl, rfl, h, rfl, rfl⟩

/-- The last edit ends where the run does. -/
theorem Run.last (h : Run xs ys i j (e :: es) i' j') :
    (es.getLastD e).oldEnd = i' ∧ (es.getLastD e).newEnd = j' := by
  induction es generalizing e i j with
  | nil => exact h.2.2.2
  | cons f fs ih =>
    rw [List.getLastD_cons]
    exact ih h.2.2.2

namespace Script

/-- Each edit starts in both lists where the one before it ends. -/
def isContiguous (i j : Nat) : List Edit → Bool
  | [] => true
  | e :: es => e.oldStart == i && e.newStart == j && isContiguous e.oldEnd e.newEnd es

variable [BEq α]

/-- A single edit has nothing to slide over. -/
theorem compact_singleton (a b : Array α) (e : Edit) : compact a b [e] = [e] := by
  obtain ⟨kind, _⟩ := e
  cases kind <;> rfl

/-- Where there is nothing to delete, everything is inserted by one edit. -/
theorem isContiguous_between_nil_left (ys : List α) : isContiguous 0 0 (between [] ys) = true := by
  cases ys with
  | nil => rfl
  | cons y ys =>
    have hfound : found [] (y :: ys) = [Edit.insert 0 0 (ys.length + 1)] := by
      simp only [found, search, Window.oldLength, Window.newLength, commonStart, commonEnd,
        List.length_nil, List.length_cons, Nat.sub_self, Nat.sub_zero, Nat.add_zero, if_true,
        List.nil_append, List.append_nil, and_false, Nat.add_one_ne_zero, if_false,
        compact_singleton]
      rfl
    rw [between, hfound]
    split <;> rfl

/-- Where there is nothing to insert, everything is deleted by one edit. -/
theorem isContiguous_between_nil_right (xs : List α) : isContiguous 0 0 (between xs []) = true := by
  cases xs with
  | nil => rfl
  | cons x xs =>
    have hfound : found (x :: xs) [] = [Edit.delete 0 0 (xs.length + 1)] := by
      simp only [found, search, Window.oldLength, Window.newLength, commonStart, commonEnd,
        List.length_nil, List.length_cons, Nat.sub_self, Nat.sub_zero, Nat.add_zero, if_true,
        List.nil_append, List.append_nil, Nat.lt_irrefl, false_and, and_false,
        Nat.add_one_ne_zero, if_false, compact_singleton]
      rfl
    rw [between, hfound]
    split <;> rfl

variable [LawfulBEq α]

/-- A checked script without gaps leads to the ends of the lists. -/
theorem run_of_check (h : check xs ys i j es = true) (hes : isContiguous i j es = true) :
    Run xs ys i j es xs.length ys.length := by
  induction es generalizing i j with
  | nil => simpa [check, Run] using h
  | cons e es ih =>
    simp only [isContiguous, Bool.and_eq_true, beq_iff_eq] at hes
    obtain ⟨⟨rfl, rfl⟩, hes⟩ := hes
    have hkeeps := keeps_of_check h e List.mem_cons_self
    refine ⟨rfl, rfl, ?_⟩
    simp only [check] at h
    -- A deletion and an insertion stay where they are in the other list.
    split at h
    · rename_i hkind
      simp only [Bool.and_eq_true, beq_iff_eq, decide_eq_true_eq] at h
      obtain ⟨⟨⟨⟨-, hold⟩, hnew⟩, -⟩, hrest⟩ := h
      exact ⟨⟨hold, hnew, hkeeps, by simp [hkind], by simp [hkind]⟩, ih hrest hes⟩
    · rename_i hkind
      simp only [Bool.and_eq_true, beq_iff_eq] at h
      obtain ⟨⟨-, hlength⟩, hrest⟩ := h
      have hend : e.newEnd = e.newStart := by rw [Edit.newEnd, hlength, Nat.add_zero]
      rw [← hend] at hrest
      have hrun := ih hrest hes
      exact ⟨⟨hrun.le.1, hrun.le.2, hkeeps, fun _ => hlength, by simp [hkind]⟩, hrun⟩
    · rename_i hkind
      simp only [Bool.and_eq_true, beq_iff_eq] at h
      obtain ⟨⟨-, hlength⟩, hrest⟩ := h
      have hend : e.oldEnd = e.oldStart := by rw [Edit.oldEnd, hlength, Nat.add_zero]
      rw [← hend] at hrest
      have hrun := ih hrest hes
      exact ⟨⟨hrun.le.1, hrun.le.2, hkeeps, by simp [hkind], fun _ => hlength⟩, hrun⟩
    · rename_i hkind
      simp only [Bool.and_eq_true, beq_iff_eq] at h
      have hrun := ih h.2 hes
      exact ⟨⟨hrun.le.1, hrun.le.2, hkeeps, by simp [hkind], by simp [hkind]⟩, hrun⟩

/-- Not every script is contiguous. The deletion here slid to the front, but its place in the new
list is the one it had before that. -/
example :
    let es := between ["a", "b"] ["b", "b"]
    es.map (·.oldStart) = [0, 1, 1] ∧ es.map (·.newStart) = [1, 0, 1] ∧
      isContiguous 0 0 es = false := by
  decide +kernel

end Script

/-- An edit that keeps is split in two that lead through the same elements. -/
theorem Edit.Fits.run_split (h : e.Fits xs ys) (hkind : e.kind = .keep) (hn : n ≤ e.oldLength) :
    Run xs ys e.oldStart e.newStart [e.dropLast (e.oldLength - n), e.dropFirst n]
      e.oldEnd e.newEnd := by
  have hkeeps : e.Keeps xs ys := h.keep
  have hlength := (h.keep hkind).1
  have hlast : (e.dropLast (e.oldLength - n)).oldEnd = (e.dropFirst n).oldStart ∧
      (e.dropLast (e.oldLength - n)).newEnd = (e.dropFirst n).newStart := by
    simp only [Edit.dropLast, Edit.dropFirst, Edit.oldEnd, Edit.newEnd]
    omega
  have hfirst : (e.dropFirst n).oldEnd = e.oldEnd ∧ (e.dropFirst n).newEnd = e.newEnd := by
    simp only [Edit.dropFirst, Edit.oldEnd, Edit.newEnd]
    omega
  have hfits : (e.dropFirst n).Fits xs ys :=
    ⟨hfirst.1 ▸ h.old, hfirst.2 ▸ h.new, hkeeps.dropFirst hn, by simp [Edit.dropFirst, hkind],
      by simp [Edit.dropFirst, hkind]⟩
  have hle := hfits.run.le
  exact ⟨rfl, rfl, ⟨hlast.1 ▸ Nat.le_trans hle.1 hfits.old, hlast.2 ▸ Nat.le_trans hle.2 hfits.new,
    hkeeps.dropLast, by simp [Edit.dropLast, hkind], by simp [Edit.dropLast, hkind]⟩,
    hlast.1.symm, hlast.2.symm, hfits, hfirst⟩

end Run

/-! ## Groups -/

namespace Script

/-- The groups of edits lead from two places in the lists to their ends. What lies in front of a
group and behind the last one is the same in both lists. At least `least` elements lie in front of
the first group, and at least one in front of each other. -/
inductive Covers (xs ys : List α) : Nat → Nat → Nat → List (List Edit) → Prop
  | nil {least i j : Nat} (h : xs.drop i = ys.drop j) : Covers xs ys least i j []
  | cons {least i j n i' j' : Nat} {g : List Edit} {gs : List (List Edit)}
    (hsame : Same xs ys i j n) (hn : least ≤ n) (hne : g ≠ [])
    (hg : Run xs ys (i + n) (j + n) g i' j') (hgs : Covers xs ys 1 i' j' gs) :
    Covers xs ys least i j (g :: gs)

variable {xs ys : List α} {es fs : List Edit} {gs : List (List Edit)} {least i j i' j' : Nat}

/-- A run through kept edits that are split is the same run. -/
theorem Splits.run (h : Splits es fs) (hes : Run xs ys i j es i' j') : Run xs ys i j fs i' j' := by
  induction h with
  | refl => exact hes
  | @head front back fs e n hkind hn _ ih =>
    obtain ⟨_, _, hfront, rfl, rfl, he, hback⟩ := run_append.mp hes
    exact ih (run_append.mpr ⟨_, _, hfront, run_append.mpr ⟨_, _, he.run_split hkind hn, hback⟩⟩)

/-- Where everything is kept, the lists are the same. -/
theorem same_of_keep (h : Run xs ys i j es i' j') (hes : ∀ e ∈ es, e.kind = .keep)
    (hi : i' ≤ xs.length) (hj : j' ≤ ys.length) :
    Same xs ys i j (oldLength es) ∧ i' = i + oldLength es ∧ j' = j + oldLength es := by
  induction es generalizing i j with
  | nil =>
    obtain ⟨rfl, rfl⟩ := h
    exact ⟨.zero hi hj, rfl, rfl⟩
  | cons e es ih =>
    obtain ⟨rfl, rfl, he, hrest⟩ := h
    obtain ⟨hkind, hes⟩ := List.forall_mem_cons.mp hes
    obtain ⟨hlength, hsame⟩ := he.keep hkind
    obtain ⟨hbehind, rfl, rfl⟩ := ih hrest hes
    rw [Edit.oldEnd, Edit.newEnd, ← hlength] at hbehind
    rw [oldLength, Edit.oldEnd, Edit.newEnd, ← hlength]
    exact ⟨hsame.append hbehind, Nat.add_assoc .., Nat.add_assoc ..⟩

theorem Spaced.covers (h : Spaced least es gs) (hes : Run xs ys i j es xs.length ys.length) :
    Covers xs ys least i j gs := by
  induction h generalizing i j with
  | nil hkeep =>
    obtain ⟨hsame, hi, hj⟩ := same_of_keep hes hkeep (Nat.le_refl _) (Nat.le_refl _)
    exact .nil (hsame.drop_eq (by rw [← hi, ← hj, List.drop_length, List.drop_length]))
  | cons hfront hleast hne _ ih =>
    obtain ⟨_, _, hrun, hbehind⟩ := run_append.mp hes
    obtain ⟨_, _, hgroup, hrest⟩ := run_append.mp hbehind
    obtain ⟨hsame, rfl, rfl⟩ := same_of_keep hrun hfront
      (Nat.le_trans hgroup.le.1 hrest.le.1) (Nat.le_trans hgroup.le.2 hrest.le.2)
    exact .cons hsame hleast hne hgroup (ih hrest)

/-- Groups that hold all changes of a run through the whole lists cover them. -/
theorem HoldsChanges.covers (h : HoldsChanges es gs)
    (hes : Run xs ys 0 0 es xs.length ys.length) : Covers xs ys 0 0 0 gs := by
  obtain ⟨fs, hsplits, hspaced⟩ := h
  exact hspaced.covers (hsplits.run hes)

end Script

/-! ## Line diffs -/

namespace LineDiff

open Script

variable (d : LineDiff) {old new : List (List Char)} (context : Nat)

theorem keeps_groups :
    ∀ g ∈ d.groups context (d.script old new), ∀ e ∈ g, e.Keeps old new :=
  (d.holdsChanges_groups context _).keeps (keeps_of_check (d.isFor_script old new))

theorem covers_groups (h : isContiguous 0 0 (d.script old new) = true) :
    Covers old new 0 0 0 (d.groups context (d.script old new)) :=
  (d.holdsChanges_groups context _).covers (run_of_check (d.isFor_script old new) h)

end LineDiff

end LosslessJava.Diff
