/-!
# Edit scripts

A script of edits turns one list into another. An edit names the ranges of the two lists that it is
about. A deletion is found by its old range and an insertion by its new one; where the other range
starts does not matter for what the script does.

* `Script.isFor`: the check that a script turns one list into another.
-/

namespace LosslessJava.Diff

inductive EditKind where
  | keep | delete | insert
  /-- Deletes the old range and inserts the new one. -/
  | replace
deriving DecidableEq

structure Edit where
  kind : EditKind
  oldStart : Nat
  newStart : Nat
  oldLength : Nat
  newLength : Nat
deriving DecidableEq

namespace Edit

def keep (oldStart newStart length : Nat) : Edit := ⟨.keep, oldStart, newStart, length, length⟩

def delete (oldStart newStart length : Nat) : Edit := ⟨.delete, oldStart, newStart, length, 0⟩

def insert (oldStart newStart length : Nat) : Edit := ⟨.insert, oldStart, newStart, 0, length⟩

def oldEnd (e : Edit) : Nat := e.oldStart + e.oldLength

def newEnd (e : Edit) : Nat := e.newStart + e.newLength

end Edit

/-- The part of a list that starts at an index and has a length. -/
def slice {α : Type} (xs : List α) (start length : Nat) : List α := (xs.drop start).take length

namespace Script

variable {α : Type}

/-- The edits use up exactly the elements behind `old` and `new` of the two lists, and keep only
what both have. -/
def check [BEq α] (xs ys : List α) (old new : Nat) : List Edit → Bool
  | [] => old == xs.length && new == ys.length
  | e :: es =>
    match e.kind with
    | .keep =>
      e.oldStart == old && e.newStart == new && e.oldLength == e.newLength &&
        e.oldEnd ≤ xs.length && e.newEnd ≤ ys.length &&
        slice xs old e.oldLength == slice ys new e.newLength &&
        check xs ys (old + e.oldLength) (new + e.newLength) es
    | .delete =>
      e.oldStart == old && e.newLength == 0 && check xs ys (old + e.oldLength) new es
    | .insert =>
      e.newStart == new && e.oldLength == 0 && check xs ys old (new + e.newLength) es
    | .replace =>
      e.oldStart == old && e.newStart == new &&
        check xs ys (old + e.oldLength) (new + e.newLength) es

/-- The script turns the first list into the second. -/
def isFor [BEq α] (xs ys : List α) (es : List Edit) : Bool := check xs ys 0 0 es

end Script

end LosslessJava.Diff
