import LosslessJava.Proofs.Diff.Patch
import LosslessJava.Proofs.Diff.Script

/-!
# Groups of edits as hunks

What is written for the groups of a script is read as hunks, and these make the new lines of the old
ones.

* `hunksOf`, `feedLines_hunksText`: the hunks of a script, and the lines that are written for them.
* `counted_hunksOf`, `ordered_hunksOf`: their ranges.
* `applyHunks_hunksOf`: what they do.
-/

namespace LosslessJava.Diff

open Patch Script

/-! ## From edits to hunks -/

section

variable (old new : List (List Char))

def Edit.hunkLines (e : Edit) : List HunkLine :=
  match e.kind with
  | .keep => (slice old e.oldStart e.oldLength).map (⟨.keep, ·⟩)
  | .delete => (slice old e.oldStart e.oldLength).map (⟨.delete, ·⟩)
  | .insert => (slice new e.newStart e.newLength).map (⟨.insert, ·⟩)
  | .replace =>
    (slice old e.oldStart e.oldLength).map (⟨.delete, ·⟩) ++
      (slice new e.newStart e.newLength).map (⟨.insert, ·⟩)

/-- The hunk of a group that starts with the edit. -/
def hunkOf (title : String) (e : Edit) (es : List Edit) : Hunk where
  old := ⟨e.oldStart, (es.getLastD e).oldEnd - e.oldStart⟩
  new := ⟨e.newStart, (es.getLastD e).newEnd - e.newStart⟩
  title := (title ++ "\n").toList
  lines := (e :: es).flatMap (Edit.hunkLines old new)

/-- The hunks of groups, the first one with a title. -/
def hunksOf (title : String) : List (List Edit) → List Hunk
  | [] => []
  | [] :: gs => hunksOf "" gs
  | (e :: es) :: gs => hunkOf old new title e es :: hunksOf "" gs

end

variable {old new : List (List Char)}

theorem editText_eq : Change.editText old new =
    fun e => (e.hunkLines old new).flatMap HunkLine.chars := by
  funext e
  unfold Change.editText Edit.hunkLines
  cases e.kind <;> simp [List.flatMap_map, HunkLine.chars, Mark.char]

theorem mem_of_mem_slice {α : Type} {xs : List α} {i n : Nat} {x : α} (h : x ∈ slice xs i n) :
    x ∈ xs :=
  List.mem_of_mem_drop (List.mem_of_mem_take h)

/-- A line of an edit is inserted, or it is an old one. It is kept only by an edit that keeps. -/
theorem mem_hunkLines {e : Edit} {l : HunkLine} (h : l ∈ e.hunkLines old new) :
    (l.mark = .insert ∧ l.text ∈ slice new e.newStart e.newLength) ∨
      (l.mark ≠ .insert ∧ l.text ∈ slice old e.oldStart e.oldLength ∧
        (l.mark = .keep → e.kind = .keep)) := by
  have hmem : ∀ {m} {ls : List (List Char)}, l ∈ ls.map (HunkLine.mk m) →
      l.mark = m ∧ l.text ∈ ls := by
    intro m ls hl
    obtain ⟨text, htext, rfl⟩ := List.mem_map.mp hl
    exact ⟨rfl, htext⟩
  unfold Edit.hunkLines at h
  split at h
  · rename_i hkind
    obtain ⟨hmark, htext⟩ := hmem h
    exact .inr ⟨by simp [hmark], htext, fun _ => hkind⟩
  · obtain ⟨hmark, htext⟩ := hmem h
    exact .inr ⟨by simp [hmark], htext, by simp [hmark]⟩
  · exact .inl (hmem h)
  · rcases List.mem_append.mp h with h | h
    · obtain ⟨hmark, htext⟩ := hmem h
      exact .inr ⟨by simp [hmark], htext, by simp [hmark]⟩
    · exact .inl (hmem h)

theorem isLine_hunkLines (hold : ∀ l ∈ old, IsLine l) (hnew : ∀ l ∈ new, IsLine l) (e : Edit) :
    ∀ l ∈ e.hunkLines old new, IsLine l.text := by
  intro l hl
  rcases mem_hunkLines hl with ⟨-, htext⟩ | ⟨-, htext, -⟩
  · exact hnew _ (mem_of_mem_slice htext)
  · exact hold _ (mem_of_mem_slice htext)

/-- A line of an edit is an old one unless it is inserted, and a new one unless it is deleted. -/
theorem mem_of_mem_hunkLines {e : Edit} (he : e.Keeps old new) {l : HunkLine}
    (h : l ∈ e.hunkLines old new) :
    (l.mark ≠ .insert → l.text ∈ old) ∧ (l.mark ≠ .delete → l.text ∈ new) := by
  rcases mem_hunkLines h with ⟨hmark, htext⟩ | ⟨hold, htext, hkeep⟩
  · exact ⟨fun hne => absurd hmark hne, fun _ => mem_of_mem_slice htext⟩
  · refine ⟨fun _ => mem_of_mem_slice htext, fun hne => ?_⟩
    cases hmark : l.mark with
    | keep =>
      obtain ⟨-, hsame⟩ := he (hkeep hmark)
      exact mem_of_mem_slice (hsame.slices ▸ htext)
    | delete => exact absurd hmark hne
    | insert => exact absurd hmark hold

/-- The hunks hold the lines of the edits. -/
theorem exists_edit_of_mem_hunksOf {title : String} {groups : List (List Edit)} {k : Hunk}
    (hk : k ∈ hunksOf old new title groups) {l : HunkLine} (hl : l ∈ k.lines) :
    ∃ g ∈ groups, ∃ e ∈ g, l ∈ e.hunkLines old new := by
  induction groups generalizing title with
  | nil => cases hk
  | cons g gs ih =>
    have hrest : k ∈ hunksOf old new "" gs → ∃ g' ∈ g :: gs, ∃ e ∈ g', l ∈ e.hunkLines old new := by
      intro hk
      obtain ⟨g', hg', he⟩ := ih hk
      exact ⟨g', List.mem_cons_of_mem _ hg', he⟩
    cases g with
    | nil => exact hrest hk
    | cons e es =>
      rcases List.mem_cons.mp hk with rfl | hk
      · exact ⟨_, List.mem_cons_self, List.mem_flatMap.mp hl⟩
      · exact hrest hk

/-! ## The text of hunks -/

theorem feed_not_mem_rangeText (start length : Nat) :
    '\n' ∉ (Change.rangeText start length).toList := by
  have hdigits : ∀ n : Nat, '\n' ∉ Nat.toDigits 10 n := by
    intro n h
    exact absurd (Nat.isDigit_of_mem_toDigits (by decide) (by decide) h) (by decide)
  unfold Change.rangeText
  split <;> simp [hdigits]

theorem feed_not_mem_head (h : Hunk) : '\n' ∉ h.head := by
  simp [Hunk.head, feed_not_mem_rangeText]

section Text

variable (hold : ∀ l ∈ old, IsLine l) (hnew : ∀ l ∈ new, IsLine l)

include hold hnew

/-- What is written for a group are the lines of its hunk. -/
theorem feedLines_hunkText {title : String} (htitle : '\n' ∉ title.toList) (e : Edit)
    (es : List Edit) (more : List Char) :
    feedLines ((Change.hunkText old new title (e :: es)).toList ++ more) =
      (hunkOf old new title e es).patchLines ++ feedLines more := by
  have htext : (Change.hunkText old new title (e :: es)).toList ++ more =
      ((hunkOf old new title e es).head ++ title.toList) ++ '\n' ::
        ((hunkOf old new title e es).lines.flatMap HunkLine.chars ++ more) := by
    simp [Change.hunkText, Change.hunkHeader, Hunk.head, hunkOf, List.flatMap_assoc, editText_eq]
  have hline : '\n' ∉ (hunkOf old new title e es).head ++ title.toList := by
    simp [feed_not_mem_head, htitle]
  have hlines : ∀ l ∈ (hunkOf old new title e es).lines, IsLine l.text := by
    intro l hl
    obtain ⟨f, -, hf⟩ := List.mem_flatMap.mp hl
    exact isLine_hunkLines hold hnew f l hf
  rw [htext, feedLines_append hline, feedLines_flatMap_chars hlines, Hunk.patchLines]
  simp [hunkOf]

/-- What is written for groups are the lines of the hunks. -/
theorem feedLines_hunksText {title : String} (htitle : '\n' ∉ title.toList)
    (groups : List (List Edit)) :
    feedLines (Change.hunksText old new title groups).toList =
      (hunksOf old new title groups).flatMap Hunk.patchLines := by
  have hcons : ∀ title g gs, (Change.hunksText old new title (g :: gs)).toList =
      (Change.hunkText old new title g).toList ++ (Change.hunksText old new "" gs).toList := by
    intro title g gs
    cases gs <;> simp [Change.hunksText, String.toList_join]
  induction groups generalizing title with
  | nil => simp [Change.hunksText, hunksOf, feedLines]
  | cons g gs ih =>
    have hempty : '\n' ∉ "".toList := List.not_mem_nil
    rw [hcons]
    cases g with
    | nil => exact ih hempty
    | cons e es => rw [feedLines_hunkText hold hnew htitle, ih hempty, hunksOf, List.flatMap_cons]

end Text

/-! ## Ranges -/

section Ranges

variable {e : Edit} {es g : List Edit} {gs : List (List Edit)} {title : String}
  {least i j i' j' : Nat}

/-- A hunk has the ranges that its edits lead through. -/
theorem range_hunkOf (title : String) (h : Run old new i j (e :: es) i' j') :
    (hunkOf old new title e es).old = ⟨i, i' - i⟩ ∧
      (hunkOf old new title e es).new = ⟨j, j' - j⟩ := by
  obtain ⟨hold, hnew⟩ := h.last
  obtain ⟨rfl, rfl, -⟩ := h
  simp only [hunkOf, hold, hnew, and_self]

theorem stop_hunkOf (title : String) (h : Run old new i j (e :: es) i' j') :
    (hunkOf old new title e es).old.stop = i' ∧ (hunkOf old new title e es).new.stop = j' := by
  obtain ⟨hold, hnew⟩ := range_hunkOf title h
  obtain ⟨hi, hj⟩ := h.le
  rw [hold, hnew]
  exact ⟨Nat.add_sub_cancel' hi, Nat.add_sub_cancel' hj⟩

theorem countP_mark (m k : Mark) (ls : List (List Char)) :
    (ls.map (HunkLine.mk m)).countP (·.mark != k) = if m = k then 0 else ls.length := by
  rw [List.countP_map]
  by_cases h : m = k
  · simp [h, Function.comp_def]
  · have htrue : ((·.mark != k) : HunkLine → Bool) ∘ HunkLine.mk m = fun _ => true := by
      funext text
      exact bne_iff_ne.mpr h
    rw [htrue, List.countP_true, if_neg h]

theorem Edit.Fits.count (h : e.Fits old new) :
    (e.hunkLines old new).countP (·.mark != .insert) = e.oldLength ∧
      (e.hunkLines old new).countP (·.mark != .delete) = e.newLength := by
  have hold := length_slice h.old
  have hnew := length_slice h.new
  unfold Edit.hunkLines
  split
  · rename_i hkind
    have hlength := (h.keep hkind).1
    simp only [countP_mark, hold, ← hlength, reduceCtorEq, if_false, and_self]
  · rename_i hkind
    simp only [countP_mark, hold, h.delete hkind, reduceCtorEq, if_false, if_true, and_self]
  · rename_i hkind
    simp only [countP_mark, hnew, h.insert hkind, reduceCtorEq, if_false, if_true, and_self]
  · simp only [List.countP_append, countP_mark, hold, hnew, reduceCtorEq, if_false, if_true,
      Nat.add_zero, Nat.zero_add, and_self]

theorem Run.count (h : Run old new i j g i' j') :
    i + (g.flatMap (Edit.hunkLines old new)).countP (·.mark != .insert) = i' ∧
      j + (g.flatMap (Edit.hunkLines old new)).countP (·.mark != .delete) = j' := by
  induction g generalizing i j with
  | nil => exact h
  | cons e es ih =>
    obtain ⟨rfl, rfl, he, hes⟩ := h
    obtain ⟨hold, hnew⟩ := he.count
    obtain ⟨hold', hnew'⟩ := ih hes
    rw [List.flatMap_cons, List.countP_append, List.countP_append, hold, hnew]
    rw [Edit.oldEnd] at hold'
    rw [Edit.newEnd] at hnew'
    omega

theorem counted_hunkOf (h : Run old new i j (e :: es) i' j') :
    (hunkOf old new title e es).Counted := by
  obtain ⟨hold, hnew⟩ := range_hunkOf title h
  obtain ⟨hi, hj⟩ := h.count
  refine ⟨?_, ?_⟩
  · rw [hold, ← hi]
    exact Nat.add_sub_cancel_left i _
  · rw [hnew, ← hj]
    exact Nat.add_sub_cancel_left j _

/-- The ranges of the hunks say how many lines they have. -/
theorem counted_hunksOf (h : Covers old new least i j gs) :
    ∀ k ∈ hunksOf old new title gs, k.Counted := by
  induction h generalizing title with
  | nil => simp [hunksOf]
  | @cons least i j n i' j' g gs hsame hn hne hg hgs ih =>
    obtain ⟨e, es, rfl⟩ := List.exists_cons_of_ne_nil hne
    exact List.forall_mem_cons.mpr ⟨counted_hunkOf hg, ih⟩

/-- The hunks come one behind the other, with unchanged lines between them. -/
theorem ordered_hunksOf (h : Covers old new least i j gs) :
    (hunksOf old new title gs).Pairwise Hunk.Before ∧
      ∀ k ∈ hunksOf old new title gs, i + least ≤ k.old.start ∧ j + least ≤ k.new.start := by
  induction h generalizing title with
  | nil => simp [hunksOf]
  | @cons least i j n i' j' g gs hsame hn hne hg hgs ih =>
    obtain ⟨e, es, rfl⟩ := List.exists_cons_of_ne_nil hne
    obtain ⟨hold, hnew⟩ := range_hunkOf title hg
    obtain ⟨hstop, hstop'⟩ := stop_hunkOf title hg
    obtain ⟨hpairs, hbehind⟩ := @ih ""
    obtain ⟨hi, hj⟩ := hg.le
    refine ⟨List.pairwise_cons.mpr ⟨fun k hk => ?_, hpairs⟩, List.forall_mem_cons.mpr ⟨?_, ?_⟩⟩
    · obtain ⟨hk, hk'⟩ := hbehind k hk
      exact ⟨by rwa [hstop], by rwa [hstop']⟩
    · rw [hold, hnew]
      exact ⟨Nat.add_le_add_left hn i, Nat.add_le_add_left hn j⟩
    · intro k hk
      obtain ⟨hk, hk'⟩ := hbehind k hk
      exact ⟨by omega, by omega⟩

end Ranges

/-! ## Applying -/

section Applying

variable {e : Edit} {g : List Edit} {gs : List (List Edit)} {title : String}
  {least i j i' j' : Nat} {ls : List HunkLine} {ks lines : List (List Char)}

theorem applyLines_keep : applyLines (ks.map (⟨.keep, ·⟩) ++ ls) (ks ++ lines) =
    (applyLines ls lines).map fun (made, rest) => (ks ++ made, rest) := by
  induction ks with
  | nil => simp
  | cons k ks ih =>
    simp only [List.map_cons, List.cons_append, applyLines, ih]
    cases applyLines ls lines <;> simp

theorem applyLines_delete :
    applyLines (ks.map (⟨.delete, ·⟩) ++ ls) (ks ++ lines) = applyLines ls lines := by
  induction ks with
  | nil => rfl
  | cons k ks ih => simp [applyLines, ih]

theorem applyLines_insert : applyLines (ks.map (⟨.insert, ·⟩) ++ ls) lines =
    (applyLines ls lines).map fun (made, rest) => (ks ++ made, rest) := by
  induction ks with
  | nil => simp
  | cons k ks ih =>
    simp only [List.map_cons, List.cons_append, applyLines, ih]
    cases applyLines ls lines <;> simp

/-- The lines of an edit make the new elements that it is about of the old ones. -/
theorem applyLines_hunkLines (h : e.Fits old new) :
    applyLines (e.hunkLines old new ++ ls) (old.drop e.oldStart) =
      (applyLines ls (old.drop e.oldEnd)).map fun (made, rest) =>
        (slice new e.newStart e.newLength ++ made, rest) := by
  have hsplit := slice_append_drop old e.oldStart e.oldLength
  rw [Edit.oldEnd, ← hsplit]
  unfold Edit.hunkLines
  split
  · rename_i hkind
    obtain ⟨hlength, hsame⟩ := h.keep hkind
    rw [applyLines_keep, hsame.slices, hlength]
  · rename_i hkind
    rw [applyLines_delete, h.delete hkind]
    simp [slice]
  · rename_i hkind
    rw [applyLines_insert, h.insert hkind]
    simp [slice]
  · rw [List.append_assoc, applyLines_delete, applyLines_insert]

theorem applyLines_run (h : Run old new i j g i' j') :
    applyLines (g.flatMap (Edit.hunkLines old new)) (old.drop i) =
      some (slice new j (j' - j), old.drop i') := by
  induction g generalizing i j with
  | nil =>
    obtain ⟨rfl, rfl⟩ := h
    simp [applyLines, slice]
  | cons e es ih =>
    obtain ⟨rfl, rfl, he, hes⟩ := h
    have hlength : j' - e.newStart = e.newLength + (j' - e.newEnd) := by
      have hle := hes.le.2
      rw [Edit.newEnd] at hle ⊢
      omega
    rw [List.flatMap_cons, applyLines_hunkLines he, ih hes, hlength, ← slice_append_slice]
    rfl

/-- The hunks of a script make the new lines of the old ones. -/
theorem applyHunks_hunksOf (h : Covers old new least i j gs) :
    applyHunks i j (hunksOf old new title gs) (old.drop i) = some (new.drop j) := by
  induction h generalizing title with
  | nil h => rw [hunksOf, applyHunks, h]
  | @cons least i j n i' j' g gs hsame hn hne hg hgs ih =>
    obtain ⟨e, es, rfl⟩ := List.exists_cons_of_ne_nil hne
    obtain ⟨hold, hnew⟩ := range_hunkOf title hg
    obtain ⟨hstop, hstop'⟩ := stop_hunkOf title hg
    have hbetween : (hunkOf old new title e es).old.start - i = n := by
      rw [hold]
      exact Nat.add_sub_cancel_left i n
    have hlength : n ≤ (old.drop i).length := by
      rw [List.length_drop]
      exact Nat.le_sub_of_add_le' hsame.old
    have happly : applyLines (hunkOf old new title e es).lines (old.drop (i + n)) =
        some (slice new (j + n) (j' - (j + n)), old.drop i') := applyLines_run hg
    have hstart : i ≤ (hunkOf old new title e es).old.start ∧
        (hunkOf old new title e es).new.start = j + n := by
      rw [hold, hnew]
      exact ⟨Nat.le_add_right i n, rfl⟩
    rw [hunksOf, applyHunks]
    simp only [hbetween, hstart, hlength, and_self, if_true, List.drop_drop, happly, hstop, hstop',
      ih, Option.bind_eq_bind, Option.bind_some, Option.pure_def]
    -- The new lines are those in front of the hunk, those of the hunk and the others.
    have hmade : j + n + (j' - (j + n)) = j' := Nat.add_sub_cancel' hg.le.2
    have hrest := slice_append_drop new (j + n) (j' - (j + n))
    rw [hmade] at hrest
    rw [List.append_assoc, hrest, ← slice_append_drop new j n, ← hsame.slices]
    rfl

end Applying

/-! ## Scripts as patches -/

/-- What is written for groups that cover the lists is read as hunks in order, whose ranges are
right, and which make the new lines of the old ones. -/
theorem exists_hunks (hold : ∀ l ∈ old, IsLine l) (hnew : ∀ l ∈ new, IsLine l)
    {groups : List (List Edit)} (h : Covers old new 0 0 0 groups) {title : String}
    (htitle : '\n' ∉ title.toList) :
    ∃ hunks, readHunks none (feedLines (Change.hunksText old new title groups).toList) =
        some hunks ∧
      hunks.Pairwise Hunk.Before ∧ (∀ k ∈ hunks, k.Counted) ∧
      applyHunks 0 0 hunks old = some new := by
  refine ⟨hunksOf old new title groups, ?_, (ordered_hunksOf h).1, counted_hunksOf h,
    applyHunks_hunksOf h⟩
  rw [feedLines_hunksText hold hnew htitle, readHunks_patchLines]
  rfl

end LosslessJava.Diff
