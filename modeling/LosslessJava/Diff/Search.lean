import LosslessJava.Diff.Edit

/-!
# Search for a shortest script

A divide and conquer search. The two lists are walked from both ends at once, one more edit at a
time; where the walks meet, the lists are split in two.
-/

namespace LosslessJava.Diff

/-- The furthest places reached on the diagonals, in numbers of old elements. -/
structure Frontier where
  offset : Nat
  reached : Array Nat

namespace Frontier

/-- The frontier of diagonals up to `limit` on both sides. -/
def new (limit : Nat) : Frontier := ⟨limit + 1, Array.replicate (2 * limit + 3) 0⟩

def get (f : Frontier) (k : Int) : Nat := f.reached.getD (k + f.offset).toNat 0

def set (f : Frontier) (k : Int) (x : Nat) : Frontier :=
  { f with reached := f.reached.setIfInBounds (k + f.offset).toNat x }

/-- The place on diagonal `k` that one more edit reaches from the diagonals beside it. -/
def advance (f : Frontier) (k d : Int) : Nat :=
  if k = -d ∨ (k ≠ d ∧ f.get (k - 1) < f.get (k + 1)) then f.get (k + 1) else f.get (k - 1) + 1

end Frontier

/-- A part of each of the two lists. -/
structure Window where
  oldStart : Nat
  oldEnd : Nat
  newStart : Nat
  newEnd : Nat

namespace Window

def oldLength (w : Window) : Nat := w.oldEnd - w.oldStart

def newLength (w : Window) : Nat := w.newEnd - w.newStart

end Window

section

variable {α : Type} [BEq α]

/-- The elements are there and equal. -/
def agree (xs ys : Array α) (i j : Nat) : Bool :=
  match xs[i]?, ys[j]? with
  | some x, some y => x == y
  | _, _ => false

/-- The number of equal elements at the start of the window, behind `skipped` ones. -/
def commonStart (xs ys : Array α) (w : Window) : Nat → Nat
  | 0 => 0
  | fuel + 1 =>
    if w.oldStart < w.oldEnd ∧ w.newStart < w.newEnd ∧ agree xs ys w.oldStart w.newStart then
      commonStart xs ys { w with oldStart := w.oldStart + 1, newStart := w.newStart + 1 } fuel + 1
    else 0

/-- The number of equal elements at the end of the window. -/
def commonEnd (xs ys : Array α) (w : Window) : Nat → Nat
  | 0 => 0
  | fuel + 1 =>
    if w.oldStart < w.oldEnd ∧ w.newStart < w.newEnd ∧
        agree xs ys (w.oldEnd - 1) (w.newEnd - 1) then
      commonEnd xs ys { w with oldEnd := w.oldEnd - 1, newEnd := w.newEnd - 1 } fuel + 1
    else 0

/-- The number of equal elements from `x` old and `y` new elements into the window on. -/
def runForward (xs ys : Array α) (w : Window) (x : Nat) (y : Int) : Nat :=
  if y < 0 then 0
  else
    commonStart xs ys
      { w with oldStart := w.oldStart + x, newStart := w.newStart + y.toNat } w.oldLength

/-- The number of equal elements back from `x` old and `y` new elements before the window's end. -/
def runBackward (xs ys : Array α) (w : Window) (x : Nat) (y : Int) : Nat :=
  if y < 0 ∨ w.oldLength < x ∨ (w.newLength : Int) < y then 0
  else
    commonEnd xs ys
      { w with oldEnd := w.oldEnd - x, newEnd := w.newEnd - y.toNat } w.oldLength

/-- One more edit from the start of the window, on the `count` diagonals from `k` down. Answers the
place where a walk meets one from the other end. -/
def forwardRound (xs ys : Array α) (w : Window) (d : Int) (backward : Frontier) :
    Nat → Int → Frontier → Option (Nat × Nat) × Frontier
  | 0, _, forward => (none, forward)
  | count + 1, k, forward =>
    let delta : Int := w.oldLength - w.newLength
    let x := forward.advance k d
    let y : Int := x - k
    let reached := x + runForward xs ys w x y
    let forward := forward.set k reached
    if delta % 2 ≠ 0 ∧ (k - delta).natAbs ≤ d - 1 ∧
        w.oldLength ≤ reached + backward.get (-(k - delta)) then
      (some (x + w.oldStart, y.toNat + w.newStart), forward)
    else forwardRound xs ys w d backward count (k - 2) forward

/-- One more edit from the end of the window, on the `count` diagonals from `k` down. -/
def backwardRound (xs ys : Array α) (w : Window) (d : Int) (forward : Frontier) :
    Nat → Int → Frontier → Option (Nat × Nat) × Frontier
  | 0, _, backward => (none, backward)
  | count + 1, k, backward =>
    let delta : Int := w.oldLength - w.newLength
    let x := backward.advance k d
    let y : Int := x - k
    let run := runBackward xs ys w x y
    let backward := backward.set k (x + run)
    if delta % 2 = 0 ∧ (k - delta).natAbs ≤ d ∧
        w.oldLength ≤ x + run + forward.get (-(k - delta)) then
      (some (w.oldLength - (x + run) + w.oldStart,
        ((w.newLength : Int) - (y + run)).toNat + w.newStart), backward)
    else backwardRound xs ys w d forward count (k - 2) backward

/-- Rounds from `d` edits on, at most `rounds` of them. -/
def meet (xs ys : Array α) (w : Window) :
    Nat → Nat → Frontier → Frontier → Option (Nat × Nat)
  | 0, _, _, _ => none
  | rounds + 1, d, forward, backward =>
    match forwardRound xs ys w d backward (d + 1) d forward with
    | (some place, _) => some place
    | (none, forward) =>
      match backwardRound xs ys w d forward (d + 1) d backward with
      | (some place, _) => some place
      | (none, backward) => meet xs ys w rounds (d + 1) forward backward

/-- The place where shortest walks from both ends of the window meet. -/
def middle (xs ys : Array α) (w : Window) : Option (Nat × Nat) :=
  let limit := (w.oldLength + w.newLength + 1) / 2 + 1
  meet xs ys w limit 0 (.new limit) (.new limit)

/-- Deletes and inserts the whole window. -/
def replaceWindow (w : Window) : List Edit :=
  [.delete w.oldStart w.newStart w.oldLength, .insert w.oldStart w.newStart w.newLength]

/-- A script for the window: what both ends have in common is kept, and the rest is split in two
where walks from both ends meet. -/
def search (xs ys : Array α) : Nat → Window → List Edit
  | 0, w => replaceWindow w
  | fuel + 1, w =>
    let start := commonStart xs ys w w.oldLength
    let inner := { w with oldStart := w.oldStart + start, newStart := w.newStart + start }
    let finish := commonEnd xs ys inner inner.oldLength
    let core := { inner with oldEnd := inner.oldEnd - finish, newEnd := inner.newEnd - finish }
    let kept := if start = 0 then [] else [Edit.keep w.oldStart w.newStart start]
    let keptEnd := if finish = 0 then [] else [Edit.keep core.oldEnd core.newEnd finish]
    let edits :=
      if core.oldLength = 0 ∧ core.newLength = 0 then []
      else if core.newLength = 0 then [.delete core.oldStart core.newStart core.oldLength]
      else if core.oldLength = 0 then [.insert core.oldStart core.newStart core.newLength]
      else
        match middle xs ys core with
        | some (x, y) =>
          search xs ys fuel { core with oldEnd := x, newEnd := y } ++
            search xs ys fuel { core with oldStart := x, newStart := y }
        | none => replaceWindow core
    kept ++ edits ++ keptEnd

end

end LosslessJava.Diff
