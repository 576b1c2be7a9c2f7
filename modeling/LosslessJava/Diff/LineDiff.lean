import LosslessJava.Diff.Group
import LosslessJava.Diff.Script

/-!
# Line diffs

How the lines of two texts are compared. A patch is written for any line diff.

* `LineDiff`: a search for scripts between lists of lines, and the groups in which they are shown.
* `LineDiff.shortest`: the search for a shortest script.
-/

namespace LosslessJava.Diff

/-- A way to compare lists of lines. That a script is one for the two lists does not say where a
deletion lies in the new list and an insertion in the old one. -/
structure LineDiff where
  /-- The edits between two lists of lines. -/
  script : List (List Char) → List (List Char) → List Edit
  /-- The changes of a script, with up to that many kept lines around them. -/
  groups : Nat → List Edit → List (List Edit)
  isFor_script (old new : List (List Char)) : Script.isFor old new (script old new) = true
  holdsChanges_groups (context : Nat) (es : List Edit) : Script.HoldsChanges es (groups context es)

/-- Scripts with as few changes as the search finds. -/
def LineDiff.shortest : LineDiff where
  script := Script.between
  groups := Script.groups
  isFor_script := Script.isFor_between
  holdsChanges_groups := Script.holdsChanges_groups

@[simp] theorem LineDiff.script_shortest : LineDiff.shortest.script = Script.between := rfl

end LosslessJava.Diff
