import LosslessJava.Diff.Line
import LosslessJava.Diff.LineDiff
import LosslessJava.Diff.Path
import LosslessJava.Print.Tree

/-!
# Changes of units

A unit before and after a change, and the change as a patch.

* `Change.patchRelativeTo`: the patch between the two prints, for any line diff. It is empty when
  the prints are equal.
* `Change.diffRelativeTo`: the patch for a shortest script.
-/

namespace LosslessJava

structure Change where
  /-- Absent for a unit that is created. -/
  before : Option CompilationUnit
  /-- Absent for a unit that is deleted. -/
  after : Option CompilationUnit
  /-- The names of those that made the change, in order and each once. -/
  visitors : List String

namespace Change

open Diff

/-- The names in order, each once. -/
def orderNames (names : List String) : List String :=
  (names.mergeSort fun a b => a ≤ b).eraseReps

def new (before after : Option CompilationUnit) (visitors : List String) : Change :=
  ⟨before, after, orderNames visitors⟩

/-! ## The parts of a patch -/

/-- Lines of unchanged text around a change. -/
def context : Nat := 3

/-- A range of lines, counted from one. -/
def rangeText (start length : Nat) : String :=
  match length with
  | 0 => toString start ++ ",0"
  | 1 => toString (start + 1)
  | _ => toString (start + 1) ++ "," ++ toString length

/-- The ranges of a group of edits. -/
def hunkHeader (first last : Edit) : String :=
  "@@ -" ++ rangeText first.oldStart (last.oldEnd - first.oldStart) ++
    " +" ++ rangeText first.newStart (last.newEnd - first.newStart) ++ " @@"

/-- A line with its sign. A line without a line feed is followed by a note. -/
def lineText (sign : Char) (line : List Char) : List Char :=
  sign :: line ++
    (if line.getLast? = some '\n' then [] else "\n\\ No newline at end of file\n".toList)

/-- The lines of an edit. -/
def editText (old new : List (List Char)) (e : Edit) : List Char :=
  match e.kind with
  | .keep => (slice old e.oldStart e.oldLength).flatMap (lineText ' ')
  | .delete => (slice old e.oldStart e.oldLength).flatMap (lineText '-')
  | .insert => (slice new e.newStart e.newLength).flatMap (lineText '+')
  | .replace =>
    (slice old e.oldStart e.oldLength).flatMap (lineText '-') ++
      (slice new e.newStart e.newLength).flatMap (lineText '+')

/-- A group of edits as a hunk, with a text behind the ranges. -/
def hunkText (old new : List (List Char)) (title : String) (group : List Edit) : String :=
  match group with
  | [] => ""
  | first :: rest =>
    hunkHeader first (rest.getLastD first) ++ title ++ "\n" ++
      String.ofList ((first :: rest).flatMap (editText old new))

/-- The title of the first hunk. -/
def title (visitors : List String) : String :=
  if visitors.isEmpty then "" else " " ++ ", ".intercalate visitors

/-- The hunks, the first one with a title. -/
def hunksText (old new : List (List Char)) (title : String) (groups : List (List Edit)) : String :=
  match groups with
  | [] => ""
  | first :: rest =>
    hunkText old new title first ++ String.join (rest.map (hunkText old new ""))

/-- The lines that name the file. -/
def header (path : String) : String :=
  "diff --git a/" ++ path ++ " b/" ++ path ++ "\n--- a/" ++ path ++ "\n+++ b/" ++ path ++ "\n"

/-! ## Patches -/

/-- The print of a unit, empty for an absent one. -/
def sourceOf (u : Option CompilationUnit) : String := (u.map print).getD ""

/-- The path of the unit after the change, or of the one before it when there is none after it. -/
def path (c : Change) : String := ((c.after.or c.before).bind (·.path)).getD "partial"

/-- The patch, with the path made relative to a base. The line diff decides between which lines the
hunks are. -/
def patchRelativeTo (c : Change) (d : LineDiff) (base : Option String) : String :=
  let before := sourceOf c.before
  let after := sourceOf c.after
  if before = after then ""
  else
    let old := splitLines before.toList
    let new := splitLines after.toList
    header (Path.relativeTo base c.path) ++
      hunksText old new (title c.visitors) (d.groups context (d.script old new))

/-- The patch with the path as written. -/
def patch (c : Change) (d : LineDiff) : String := c.patchRelativeTo d none

def diffRelativeTo (c : Change) (base : Option String) : String := c.patchRelativeTo .shortest base

/-- The patch between the prints of the two units. -/
def diff (c : Change) : String := c.diffRelativeTo none

end Change

end LosslessJava
