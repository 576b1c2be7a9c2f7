import LosslessJava.Diff.Edit

/-!
# Compaction of scripts

Deletions and insertions slide up and down over the elements around them, so that edits come to lie
together and at the last place where they can be.
-/

namespace LosslessJava.Diff

/-- A script with one edit in focus. The edits before it are listed nearest first. -/
structure Focus where
  before : List Edit
  edit : Edit
  after : List Edit

section

variable {α : Type} [BEq α]

/-- The number of equal elements at the starts of two lists. -/
def sharedStart : List α → List α → Nat
  | x :: xs, y :: ys => if x == y then sharedStart xs ys + 1 else 0
  | _, _ => 0

/-- The number of equal elements at the ends of two lists. -/
def sharedEnd (xs ys : List α) : Nat := sharedStart xs.reverse ys.reverse

/-- The elements `length` from `start` on of an array. -/
def window (xs : Array α) (start length : Nat) : List α :=
  (xs.extract start (start + length)).toList

/-- Two edits of one kind as one. -/
def Edit.extend (e f : Edit) : Edit :=
  { e with oldLength := e.oldLength + f.oldLength, newLength := e.newLength + f.newLength }

/-- The edit with its first `count` elements on both sides left out. -/
def Edit.dropFirst (e : Edit) (count : Nat) : Edit :=
  { e with
    oldStart := e.oldStart + count
    newStart := e.newStart + count
    oldLength := e.oldLength - count
    newLength := e.newLength - count }

/-- The edit with its last `count` elements on both sides left out. -/
def Edit.dropLast (e : Edit) (count : Nat) : Edit :=
  { e with oldLength := e.oldLength - count, newLength := e.newLength - count }

/-- The edits after one that moves up by `count` elements. -/
def growAfter (e kept : Edit) (count : Nat) : List Edit → List Edit
  | f :: fs =>
    if f.kind = .keep then
      { f with
        oldStart := f.oldStart - count
        newStart := f.newStart - count
        oldLength := f.oldLength + count
        newLength := f.newLength + count } :: fs
    else Edit.keep (kept.oldEnd - count) (e.newEnd - count) count :: f :: fs
  | [] => [Edit.keep (kept.oldEnd - count) (e.newEnd - count) count]

/-- Moves the edit in focus up as far as it goes, over at most `fuel` steps. -/
def slideUp (xs ys : Array α) : Nat → Focus → Focus
  | 0, f => f
  | fuel + 1, f =>
    match f.before with
    | [] => f
    | q :: before =>
      let e := f.edit
      if q.kind = .keep then
        let count :=
          sharedEnd (window xs q.oldStart q.oldLength) (window ys e.newStart e.newLength)
        if count = 0 then
          if q.oldLength = 0 then slideUp xs ys fuel { f with before } else f
        else
          let after := growAfter e q count f.after
          let edit := { e with oldStart := e.oldStart - count, newStart := e.newStart - count }
          let q := q.dropLast count
          slideUp xs ys fuel ⟨if q.oldLength = 0 then before else q :: before, edit, after⟩
      else if q.kind = e.kind then slideUp xs ys fuel ⟨before, q.extend e, f.after⟩
      else slideUp xs ys fuel ⟨before, e, q :: f.after⟩

/-- The edits before one that moves down by `count` elements. -/
def growBefore (e kept : Edit) (count : Nat) : List Edit → List Edit
  | f :: fs =>
    if f.kind = .keep then
      { f with oldLength := f.oldLength + count, newLength := f.newLength + count } :: fs
    else Edit.keep kept.oldStart e.newStart count :: f :: fs
  | [] => [Edit.keep kept.oldStart e.newStart count]

/-- Moves the edit in focus down as far as it goes, over at most `fuel` steps. -/
def slideDown (xs ys : Array α) : Nat → Focus → Focus
  | 0, f => f
  | fuel + 1, f =>
    match f.after with
    | [] => f
    | q :: after =>
      let e := f.edit
      if q.kind = .keep then
        let count :=
          sharedStart (window xs q.oldStart q.oldLength) (window ys e.newStart e.newLength)
        if count = 0 then
          if q.oldLength = 0 then slideDown xs ys fuel { f with after } else f
        else
          let before := growBefore e q count f.before
          let edit := { e with oldStart := e.oldStart + count, newStart := e.newStart + count }
          let q := q.dropFirst count
          slideDown xs ys fuel ⟨before, edit, if q.oldLength = 0 then after else q :: after⟩
      else if q.kind = e.kind then slideDown xs ys fuel ⟨f.before, e.extend q, after⟩
      else slideDown xs ys fuel ⟨q :: f.before, e, after⟩

/-- A bound for the steps that an edit can move over these edits. -/
def slideBound (es : List Edit) : Nat := es.foldr (fun e bound => e.oldLength + 1 + bound) 0

/-- Moves every edit of the kind up and then down, from the first edit on. -/
def compactKind (xs ys : Array α) (kind : EditKind) :
    Nat → List Edit → List Edit → List Edit
  | 0, before, after => before.reverse ++ after
  | _ + 1, before, [] => before.reverse
  | fuel + 1, before, e :: after =>
    if e.kind = kind then
      let up := slideUp xs ys (slideBound before) ⟨before, e, after⟩
      let down := slideDown xs ys (slideBound up.after) up
      compactKind xs ys kind fuel (down.edit :: down.before) down.after
    else compactKind xs ys kind fuel (e :: before) after

/-- Moves deletions and then insertions to where they lie together. -/
def compact (xs ys : Array α) (es : List Edit) : List Edit :=
  let es := compactKind xs ys .delete (4 * es.length + 1) [] es
  compactKind xs ys .insert (4 * es.length + 1) [] es

end

end LosslessJava.Diff
