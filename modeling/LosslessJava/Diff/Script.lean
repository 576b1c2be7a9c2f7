import LosslessJava.Diff.Compaction
import LosslessJava.Diff.Search

/-!
# Scripts between lists of lines

* `Script.between`: a script that turns one list into another. What the search finds is checked, and
  anything else is replaced by the script that deletes and inserts all.
* `Script.isFor_between`: the script is one for the two lists.
-/

namespace LosslessJava.Diff

namespace Script

/-! ## Merging -/

/-- The changes since the last element that is kept. -/
structure Gap where
  deleted : Option Edit
  inserted : Option Edit

namespace Gap

def none : Gap := ⟨.none, .none⟩

/-- Adds an edit to one of the same kind. -/
def join (e : Edit) : Option Edit → Option Edit
  | some d => some (d.extend e)
  | .none => some e

/-- The changes of the gap as one edit. -/
def edits (g : Gap) : List Edit :=
  match g.deleted, g.inserted with
  | some d, some i => [⟨.replace, d.oldStart, i.newStart, d.oldLength, i.newLength⟩]
  | some d, .none => [d]
  | .none, some i => [i]
  | .none, .none => []

end Gap

/-- Joins edits of one kind that lie together, and a deletion and an insertion to a replacement.
`kept` is the run of kept elements that is being collected, in front of the changes of `gap`. -/
def merge (kept : Option Edit) (gap : Gap) : List Edit → List Edit
  | [] => kept.toList ++ gap.edits
  | e :: es =>
    match e.kind with
    | .keep =>
      match gap.edits with
      | [] => merge (Gap.join e kept) .none es
      | changes => kept.toList ++ changes ++ merge (some e) .none es
    | .delete => merge kept { gap with deleted := Gap.join e gap.deleted } es
    | .insert => merge kept { gap with inserted := Gap.join e gap.inserted } es
    | .replace => kept.toList ++ gap.edits ++ e :: merge none .none es

/-! ## Scripts -/

variable {α : Type} [BEq α]

/-- The script that keeps nothing. -/
def replaceAll (xs ys : List α) : List Edit := [⟨.replace, 0, 0, xs.length, ys.length⟩]

/-- The script that the search finds. -/
def found (xs ys : List α) : List Edit :=
  let a := xs.toArray
  let b := ys.toArray
  let edits := search a b (2 * (xs.length + ys.length) + 1) ⟨0, xs.length, 0, ys.length⟩
  merge none .none (compact a b edits)

/-- A script that turns the first list into the second. -/
def between (xs ys : List α) : List Edit :=
  let es := found xs ys
  if isFor xs ys es then es else replaceAll xs ys

theorem isFor_between [LawfulBEq α] (xs ys : List α) : isFor xs ys (between xs ys) = true := by
  rw [between]
  split
  · assumption
  · simp [replaceAll, isFor, check]

end Script

end LosslessJava.Diff
