import LosslessJava.Proofs.Diff.Hunk
import LosslessJava.Proofs.Parsed

/-!
# Changes as patches

The patch of a change is empty when nothing changed. Otherwise it is read as hunks that make the
print of the new unit of that of the old one. That holds for every line diff whose script between
the lines of the prints is contiguous.

* `IsPatch`: a text is a patch from one text to another.
* `Change.patch_isPatch`: the theorem.
* `Change.isContiguous_script`: the shortest script for a unit that is created or deleted is
  contiguous.
-/

namespace LosslessJava

open Diff Diff.Patch

/-- The text is read as hunks. They come one behind the other, their ranges say how many lines they
have, and they make the new text of the old one. -/
def IsPatch (patch old new : String) : Prop :=
  ∃ hunks, Patch.read patch.toList = some hunks ∧ hunks.Pairwise Hunk.Before ∧
    (∀ h ∈ hunks, h.Counted) ∧ Patch.apply hunks old.toList = some new.toList

namespace Change

/-- The script between the lines of the two prints. -/
def script (c : Change) (d : LineDiff) : List Edit :=
  d.script (splitLines (sourceOf c.before).toList) (splitLines (sourceOf c.after).toList)

/-- The shortest script for a unit that is created or deleted is contiguous. -/
theorem isContiguous_script {c : Change} (h : c.before = none ∨ c.after = none) :
    Script.isContiguous 0 0 (c.script .shortest) = true := by
  rcases h with h | h
  · rw [script, h, LineDiff.script_shortest]
    exact Script.isContiguous_between_nil_left _
  · rw [script, h, LineDiff.script_shortest]
    exact Script.isContiguous_between_nil_right _

/-- What is written behind the lines that name the file. -/
theorem toList_patch (d : LineDiff) {c : Change} (h : sourceOf c.before ≠ sourceOf c.after) :
    (c.patch d).toList = (header c.path).toList ++
      (hunksText (splitLines (sourceOf c.before).toList) (splitLines (sourceOf c.after).toList)
        (title c.visitors) (d.groups context (c.script d))).toList := by
  rw [patch, patchRelativeTo]
  simp only [if_neg h, String.toList_append]
  rfl

/-- Three lines name the file. -/
theorem drop_header {path : String} (h : '\n' ∉ path.toList) (more : List Char) :
    (feedLines ((header path).toList ++ more)).drop 3 = feedLines more := by
  rw [feedLines_header h]
  rfl

theorem feed_not_mem_title {visitors : List String} (h : ∀ name ∈ visitors, '\n' ∉ name.toList) :
    '\n' ∉ (title visitors).toList := by
  have hnames : '\n' ∉ (", ".intercalate visitors).toList := by
    induction visitors with
    | nil => simp
    | cons v vs ih =>
      obtain ⟨hv, hvs⟩ := List.forall_mem_cons.mp h
      cases vs with
      | nil => simpa using hv
      | cons w ws =>
        rw [String.intercalate_cons_cons, String.toList_append, String.toList_append,
          List.mem_append, List.mem_append]
        rintro ((hmem | hmem) | hmem)
        · exact hv hmem
        · exact absurd hmem (by decide)
        · exact ih hvs hmem
  unfold title
  split
  · exact List.not_mem_nil
  · rw [String.toList_append, List.mem_append]
    exact fun hmem => hmem.elim (by decide) hnames

/-- A change that changes nothing has no patch. Any other one has a patch from the old print to the
new one. That holds where lines end in the ordinary way, and for every line diff whose script
between them is contiguous. -/
theorem patch_isPatch (d : LineDiff) (c : Change) :
    (sourceOf c.before = sourceOf c.after → c.patch d = "") ∧
      (sourceOf c.before ≠ sourceOf c.after → '\n' ∉ c.path.toList →
        (∀ name ∈ c.visitors, '\n' ∉ name.toList) →
        PairedReturns (sourceOf c.before).toList → PairedReturns (sourceOf c.after).toList →
        Script.isContiguous 0 0 (c.script d) = true →
          IsPatch (c.patch d) (sourceOf c.before) (sourceOf c.after)) := by
  refine ⟨fun h => ?_, fun hne hpath hvisitors hbefore hafter hscript => ?_⟩
  · rw [patch, patchRelativeTo]
    exact if_pos h
  · have htext := toList_patch d hne
    rw [script, splitLines_eq hbefore, splitLines_eq hafter] at hscript
    rw [script, splitLines_eq hbefore, splitLines_eq hafter] at htext
    have hlines : ∀ cs, ∀ l ∈ feedLines cs, IsLine l := fun _ _ => isLine_of_mem
    obtain ⟨hunks, hread, hordered, hcounted, happly⟩ := exists_hunks (hlines _) (hlines _)
      (d.covers_groups context hscript) (feed_not_mem_title hvisitors)
    refine ⟨hunks, ?_, hordered, hcounted, ?_⟩
    · rw [Patch.read, htext, drop_header hpath]
      exact hread
    · rw [Patch.apply, happly, Option.map_some, flatten_feedLines]

/-- Two hunks. The second one changes nothing but the end of the last line. -/
theorem patch_isPatch_hunks :
    ∃ u v,
      parseUnit (some "A.java")
        "// a\n// 2\n// 3\n// 4\n// 5\n// 6\n// 7\n// 8\nclass A \x7b\x7d" = .ok u ∧
      parseUnit (some "A.java")
        "// 1\n// 2\n// 3\n// 4\n// 5\n// 6\n// 7\n// 8\nclass A \x7b\x7d\r\n" = .ok v ∧
      print u ≠ print v ∧
      IsPatch ((Change.mk (some u) (some v) ["First", "Second"]).patch .shortest)
        (print u) (print v) := by
  obtain ⟨u, hu, h⟩ := exists_ok
    (x := parseUnit (some "A.java")
      "// a\n// 2\n// 3\n// 4\n// 5\n// 6\n// 7\n// 8\nclass A \x7b\x7d")
    (p := fun u => (parseUnit (some "A.java")
      "// 1\n// 2\n// 3\n// 4\n// 5\n// 6\n// 7\n// 8\nclass A \x7b\x7d\r\n").toOption.any fun v =>
        print u ≠ print v ∧ '\n' ∉ (Change.mk (some u) (some v) ["First", "Second"]).path.toList ∧
          PairedReturns (print u).toList ∧ PairedReturns (print v).toList ∧
          Script.isContiguous 0 0
            ((Change.mk (some u) (some v) ["First", "Second"]).script .shortest) = true)
    (by decide +kernel)
  obtain ⟨v, hv, h⟩ := exists_ok h
  obtain ⟨hne, hpath, hbefore, hafter, hscript⟩ := of_decide_eq_true h
  have hvisitors : ∀ name ∈ ["First", "Second"], '\n' ∉ name.toList := by decide
  exact ⟨u, v, hu, hv, hne,
    (patch_isPatch .shortest ⟨some u, some v, ["First", "Second"]⟩).2 hne hpath hvisitors hbefore
      hafter hscript⟩

end Change

end LosslessJava
