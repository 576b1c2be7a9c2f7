import LosslessJava.Proofs.Patching
import LosslessJava.Proofs.Tree.Part

/-!
# Notes on missing line feeds

A patch has a note behind each line without a line feed. It says that a file ends there.

* `Diff.Patch.Noted`: a property of all lines that notes stand behind.
* `NotesAtEnds`: what the notes of a patch say is true.
* `Change.notesAtEnds_patch_iff`: that is so as long as no line in the hunks ends with a carriage
  return alone, whatever line diff they come from.
* `Change.not_notesAtEnds_diff`: a carriage return in the middle of a file.
-/

namespace LosslessJava

open Diff Diff.Patch

namespace Diff.Patch

/-- Each note stands directly behind a line of a hunk that has the property. -/
def Noted (p : HunkLine → Prop) (lines : List (List Char)) : Prop :=
  ∀ before after, lines = before ++ noFeed :: after →
    ∃ l : HunkLine, before.getLast? = some (l.mark.char :: l.text ++ ['\n']) ∧ p l

section

variable {p : HunkLine → Prop} {lines more : List (List Char)}

theorem HunkLine.eq_of_cons_eq {l l' : HunkLine}
    (h : l.mark.char :: l.text = l'.mark.char :: l'.text) : l = l' := by
  obtain ⟨m, text⟩ := l
  obtain ⟨m', text'⟩ := l'
  obtain ⟨hmark, rfl⟩ := List.cons.inj h
  have hm : some m = some m' := by
    rw [← Mark.ofChar?_char, hmark, Mark.ofChar?_char]
  rw [Option.some.inj hm]

theorem noted_of_not_mem (h : noFeed ∉ lines) : Noted p lines := by
  rintro before after rfl
  exact absurd (List.mem_append_right before List.mem_cons_self) h

theorem Noted.append (h : Noted p lines) (hmore : Noted p more) : Noted p (lines ++ more) := by
  intro before after heq
  rcases List.append_eq_append_iff.mp heq with ⟨middle, rfl, hmiddle⟩ | ⟨middle, hmiddle, hafter⟩
  · obtain ⟨l, hl, hp⟩ := hmore middle after hmiddle
    exact ⟨l, by rw [List.getLast?_append, hl, Option.some_or], hp⟩
  · cases middle with
    | nil =>
      -- A note does not come first.
      obtain ⟨l, hl, -⟩ := hmore [] after hafter.symm
      cases hl
    | cons line middle =>
      obtain ⟨rfl, -⟩ := List.cons.inj hafter
      exact h before middle hmiddle

theorem noted_flatMap {α : Type} {f : α → List (List Char)} {xs : List α}
    (h : ∀ x ∈ xs, Noted p (f x)) : Noted p (xs.flatMap f) := by
  induction xs with
  | nil => exact noted_of_not_mem List.not_mem_nil
  | cons x xs ih =>
    obtain ⟨hx, hxs⟩ := List.forall_mem_cons.mp h
    exact hx.append (ih hxs)

theorem noted_patchLines {l : HunkLine} (h : l.text.getLast? ≠ some '\n' → p l) :
    Noted p l.patchLines := by
  unfold HunkLine.patchLines
  split
  · refine noted_of_not_mem ?_
    rw [List.mem_singleton]
    exact (l.mark.cons_ne_noFeed _).symm
  · rename_i hlast
    intro before after heq
    match before with
    | [] => exact absurd (List.cons.inj heq).1 (l.mark.cons_ne_noFeed _)
    | [line] =>
      obtain ⟨rfl, -⟩ := List.cons.inj heq
      exact ⟨l, rfl, h hlast⟩
    | _ :: _ :: _ => simp at heq

/-- A line without a line feed has a note behind it. -/
theorem Noted.of_patchLines {l : HunkLine} (h : Noted p lines) (hlines : l.patchLines <:+: lines)
    (hlast : l.text.getLast? ≠ some '\n') : p l := by
  obtain ⟨front, back, rfl⟩ := hlines
  rw [HunkLine.patchLines, if_neg hlast] at h
  obtain ⟨l', hline, hp⟩ := h (front ++ [l.mark.char :: l.text ++ ['\n']]) back (by simp)
  rw [List.getLast?_concat, Option.some.injEq] at hline
  rwa [← HunkLine.eq_of_cons_eq (List.append_cancel_right hline)] at hp

theorem noted_iff (h : noFeed ∉ lines) (hunks : List Hunk) :
    Noted p (lines ++ hunks.flatMap Hunk.patchLines) ↔
      ∀ k ∈ hunks, ∀ l ∈ k.lines, l.text.getLast? ≠ some '\n' → p l := by
  constructor
  · intro hnoted k hk l hl
    refine hnoted.of_patchLines ?_
    have hlines : l.patchLines <:+: k.lines.flatMap HunkLine.patchLines := isInfix_flatMap hl
    have hhunk : k.patchLines <:+: hunks.flatMap Hunk.patchLines := isInfix_flatMap hk
    exact isInfix_right ((List.infix_cons hlines).trans hhunk)
  · intro hp
    refine (noted_of_not_mem h).append (noted_flatMap fun k hk => ?_)
    have hhead : noFeed ∉ [k.head ++ k.title] := by
      rw [List.mem_singleton]
      exact (ne_noFeed (by simp [Hunk.head])).symm
    exact (noted_of_not_mem hhead).append
      (noted_flatMap fun l hl => noted_patchLines (hp k hk l hl))

end

end Diff.Patch

/-- Each note of a patch stands directly behind the last line of the old text, of the new one, or of
both, as the mark of the line says. These texts do not end with a line break. -/
def NotesAtEnds (patch old new : String) : Prop :=
  Noted (fun l => (l.mark ≠ .insert → IsOpenEnd old.toList l.text) ∧
    (l.mark ≠ .delete → IsOpenEnd new.toList l.text)) (feedLines patch.toList)

/-- Where both texts end with a line break, there is no note. -/
theorem NotesAtEnds.not_mem_noFeed {patch old new : String} (h : NotesAtEnds patch old new)
    (hold : HasBreak old.toList) (hnew : HasBreak new.toList) :
    noFeed ∉ feedLines patch.toList := by
  intro hnote
  obtain ⟨before, after, hlines⟩ := List.append_of_mem hnote
  obtain ⟨l, -, hkept, hadded⟩ := h before after hlines
  by_cases hmark : l.mark = .insert
  · exact (hadded (by simp [hmark])).not_hasBreak hnew
  · exact (hkept hmark).not_hasBreak hold

namespace Change

/-- The hunks of a patch. -/
def hunks (c : Change) (d : LineDiff) : List Hunk :=
  hunksOf (splitLines (sourceOf c.before).toList) (splitLines (sourceOf c.after).toList)
    (title c.visitors) (d.groups context (c.script d))

variable {d : LineDiff} {c : Change}

theorem feedLines_patch (hne : sourceOf c.before ≠ sourceOf c.after)
    (hpath : '\n' ∉ c.path.toList) (hvisitors : ∀ name ∈ c.visitors, '\n' ∉ name.toList) :
    feedLines (c.patch d).toList =
      (fileLines c.path).map (·.toList ++ ['\n']) ++ (c.hunks d).flatMap Hunk.patchLines := by
  have hlines : ∀ cs, ∀ l ∈ splitLines cs, IsLine l := fun _ _ => isLine_of_mem_splitLines
  rw [toList_patch d hne, feedLines_header hpath,
    feedLines_hunksText (hlines _) (hlines _) (feed_not_mem_title hvisitors)]
  rfl

theorem noFeed_not_mem_fileLines (name : String) :
    noFeed ∉ (fileLines name).map (·.toList ++ ['\n']) := by
  have hlines : ∀ l ∈ (fileLines name).map (·.toList ++ ['\n']), l ≠ noFeed := by
    rw [List.forall_mem_map]
    refine fun l hl => ne_noFeed ?_
    simp only [fileLines, List.mem_cons, List.not_mem_nil, or_false] at hl
    rcases hl with rfl | rfl | rfl <;> simp
  exact fun hmem => hlines _ hmem rfl

/-- A line in the hunks is one of the old text, of the new one, or of both. -/
theorem mem_splitLines_of_mem_hunks {k : Hunk} (hk : k ∈ c.hunks d) {l : HunkLine}
    (hl : l ∈ k.lines) :
    (l.mark ≠ .insert → l.text ∈ splitLines (sourceOf c.before).toList) ∧
      (l.mark ≠ .delete → l.text ∈ splitLines (sourceOf c.after).toList) := by
  obtain ⟨g, hg, e, he, hl⟩ := exists_edit_of_mem_hunksOf hk hl
  exact mem_of_mem_hunkLines (d.keeps_groups context g hg e he) hl

/-- The notes of a patch are right if no line in its hunks ends with a carriage return alone, and
only then. -/
theorem notesAtEnds_patch_iff (d : LineDiff) (c : Change) (hpath : '\n' ∉ c.path.toList)
    (hvisitors : ∀ name ∈ c.visitors, '\n' ∉ name.toList) :
    NotesAtEnds (c.patch d) (sourceOf c.before) (sourceOf c.after) ↔
      sourceOf c.before = sourceOf c.after ∨
        ∀ k ∈ c.hunks d, ∀ l ∈ k.lines, l.text.getLast? ≠ some '\r' := by
  by_cases heq : sourceOf c.before = sourceOf c.after
  · have hempty : c.patch d = "" := if_pos heq
    rw [hempty]
    exact iff_of_true (noted_of_not_mem List.not_mem_nil) (.inl heq)
  · rw [NotesAtEnds, feedLines_patch heq hpath hvisitors, noted_iff (noFeed_not_mem_fileLines _)]
    rw [or_iff_right heq]
    refine forall₄_congr fun k hk l hl => ?_
    obtain ⟨hbefore, hafter⟩ := mem_splitLines_of_mem_hunks hk hl
    constructor
    · intro hends hreturn
      obtain ⟨hold, hnew⟩ := hends (by simp [hreturn])
      -- The line belongs to one of the texts.
      by_cases hmark : l.mark = .insert
      · exact (hnew (by simp [hmark])).not_hasBreak_line (.inr hreturn)
      · exact (hold hmark).not_hasBreak_line (.inr hreturn)
    · intro hreturn hfeed
      have hopen : ¬ HasBreak l.text := not_or.mpr ⟨hfeed, hreturn⟩
      exact ⟨fun hmark => isOpenEnd_of_mem (hbefore hmark) hopen,
        fun hmark => isOpenEnd_of_mem (hafter hmark) hopen⟩

/-- The old text has no line feed at its end, and the new one has one. -/
theorem notesAtEnds_patch_added :
    ∃ u v, parseUnit (some "A.java") "class A \x7b\x7d\r\nclass B \x7b\x7d" = .ok u ∧
      parseUnit (some "A.java") "class A \x7b\x7d\r\nclass C \x7b\x7d\n" = .ok v ∧
      noFeed ∈ feedLines (Change.mk (some u) (some v) ["Rename"]).diff.toList ∧
      NotesAtEnds (Change.mk (some u) (some v) ["Rename"]).diff (print u) (print v) := by
  obtain ⟨u, hu, h⟩ := exists_ok
    (x := parseUnit (some "A.java") "class A \x7b\x7d\r\nclass B \x7b\x7d")
    (p := fun u => (parseUnit (some "A.java")
      "class A \x7b\x7d\r\nclass C \x7b\x7d\n").toOption.any fun v =>
        noFeed ∈ feedLines (Change.mk (some u) (some v) ["Rename"]).diff.toList ∧
          '\n' ∉ (Change.mk (some u) (some v) ["Rename"]).path.toList ∧
          ∀ k ∈ (Change.mk (some u) (some v) ["Rename"]).hunks .shortest, ∀ l ∈ k.lines,
            l.text.getLast? ≠ some '\r')
    (by decide +kernel)
  obtain ⟨v, hv, h⟩ := exists_ok h
  obtain ⟨hnote, hpath, hlines⟩ := of_decide_eq_true h
  have hvisitors : ∀ name ∈ ["Rename"], '\n' ∉ name.toList := by decide
  exact ⟨u, v, hu, hv, hnote,
    (notesAtEnds_patch_iff .shortest ⟨some u, some v, ["Rename"]⟩ hpath hvisitors).mpr
      (.inr hlines)⟩

/-- Both texts end with a line feed, and there is a note behind a line in the middle. -/
theorem not_notesAtEnds_diff :
    ∃ u v, parseUnit none "class A \x7b\x7d\rclass B \x7b\x7d\n" = .ok u ∧
      parseUnit none "class A \x7b\x7d\rclass C \x7b\x7d\n" = .ok v ∧
      HasBreak (print u).toList ∧ HasBreak (print v).toList ∧
      (Change.mk (some u) (some v) []).diff =
        "diff --git a/partial b/partial\n--- a/partial\n+++ b/partial\n@@ -1,2 +1,2 @@\n" ++
        " class A \x7b\x7d\r\n\\ No newline at end of file\n" ++
        "-class B \x7b\x7d\n+class C \x7b\x7d\n" ∧
      ¬ NotesAtEnds (Change.mk (some u) (some v) []).diff (print u) (print v) := by
  obtain ⟨u, hu, h⟩ := exists_ok (x := parseUnit none "class A \x7b\x7d\rclass B \x7b\x7d\n")
    (p := fun u => (parseUnit none "class A \x7b\x7d\rclass C \x7b\x7d\n").toOption.any fun v =>
      (print u).toList.getLast? = some '\n' ∧ (print v).toList.getLast? = some '\n' ∧
      (Change.mk (some u) (some v) []).diff =
        "diff --git a/partial b/partial\n--- a/partial\n+++ b/partial\n@@ -1,2 +1,2 @@\n" ++
        " class A \x7b\x7d\r\n\\ No newline at end of file\n" ++
        "-class B \x7b\x7d\n+class C \x7b\x7d\n")
    (by decide +kernel)
  obtain ⟨v, hv, h⟩ := exists_ok h
  obtain ⟨hold, hnew, hdiff⟩ := of_decide_eq_true h
  refine ⟨u, v, hu, hv, .inl hold, .inl hnew, hdiff, fun hends => ?_⟩
  have hnote : noFeed ∈ feedLines (Change.mk (some u) (some v) []).diff.toList := by
    rw [hdiff]
    decide +kernel
  exact hends.not_mem_noFeed (.inl hold) (.inl hnew) hnote

end Change

end LosslessJava
