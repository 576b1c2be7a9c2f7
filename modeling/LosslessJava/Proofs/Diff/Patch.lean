import LosslessJava.Diff.Change
import LosslessJava.Proofs.Diff.Line
import Mathlib.Data.List.Basic

/-!
# Patches as texts

What a patch means: how its hunks are read off the text, and how they are applied to another text.

* `Patch.read`: the hunks behind the three lines that name the file.
* `Patch.apply`: the text that hunks make of a text, if they fit it.
* `HunkLine.patchLines`, `Hunk.patchLines`: hunks as the lines of a patch.
* `readHunks_patchLines`: these lines are read as the hunks.
* `feedLines_header`, `feedLines_chars`: the lines of the text that is written.
-/

namespace LosslessJava.Diff

/-! ## Hunks -/

/-- What a hunk does with a line. -/
inductive Mark where
  | keep | delete | insert
deriving DecidableEq

namespace Mark

def char : Mark → Char
  | keep => ' '
  | delete => '-'
  | insert => '+'

def ofChar? : Char → Option Mark
  | ' ' => some keep
  | '-' => some delete
  | '+' => some insert
  | _ => none

@[simp] theorem ofChar?_char (m : Mark) : ofChar? m.char = some m := by
  cases m <;> rfl

end Mark

structure HunkLine where
  mark : Mark
  /-- The line with its line feed, if it has one. -/
  text : List Char

/-- The `length` lines of a text behind the first `start` ones. -/
structure Range where
  start : Nat
  length : Nat

def Range.stop (r : Range) : Nat := r.start + r.length

structure Hunk where
  old : Range
  new : Range
  /-- The rest of the line with the ranges. -/
  title : List Char
  lines : List HunkLine

/-- The ranges say how many lines of the hunk belong to the old text and to the new one. -/
structure Hunk.Counted (h : Hunk) : Prop where
  old : h.old.length = h.lines.countP (·.mark != .insert)
  new : h.new.length = h.lines.countP (·.mark != .delete)

/-- One hunk ends before the other one starts, in the old text and in the new one. -/
structure Hunk.Before (g h : Hunk) : Prop where
  old : g.old.stop < h.old.start
  new : g.new.stop < h.new.start

/-! ## Reading -/

namespace Patch

def readNumber (cs : List Char) : Option (Nat × List Char) :=
  match cs.takeWhile Char.isDigit with
  | [] => none
  | digits => some (Nat.ofDigitChars 10 digits 0, cs.dropWhile Char.isDigit)

/-- A range `start,length`, whose lines are counted from one. A length of one must be left out, and
the start of a range without lines is the number of the line in front of it. -/
def readRange (cs : List Char) : Option (Range × List Char) :=
  match readNumber cs with
  | some (start, ',' :: cs) =>
    match readNumber cs, start with
    | some (0, cs), _ => some (⟨start, 0⟩, cs)
    | some (length + 2, cs), start + 1 => some (⟨start, length + 2⟩, cs)
    | _, _ => none
  | some (start + 1, cs) => some (⟨start, 1⟩, cs)
  | _ => none

/-- A hunk that has no lines yet, from the line with its ranges. -/
def readHeader (line : List Char) : Option Hunk := do
  let cs ← line.dropPrefix? "@@ -".toList
  let (old, cs) ← readRange cs
  let cs ← cs.dropPrefix? " +".toList
  let (new, cs) ← readRange cs
  let title ← cs.dropPrefix? " @@".toList
  return ⟨old, new, title, []⟩

/-- The note behind a line that has no line feed. -/
def noFeed : List Char := "\\ No newline at end of file\n".toList

/-- The hunk with one more line. The note takes the line feed off the line before. -/
def extend? (h : Hunk) (line : List Char) : Option Hunk :=
  if line = noFeed then
    h.lines.getLast?.map fun last =>
      { h with lines := h.lines.dropLast ++ [{ last with text := last.text.dropLast }] }
  else
    match line with
    | [] => none
    | c :: text => (Mark.ofChar? c).map fun mark => { h with lines := h.lines ++ [⟨mark, text⟩] }

/-- The hunks of some lines. The hunk in front of the lines is not complete yet. -/
def readHunks : Option Hunk → List (List Char) → Option (List Hunk)
  | hunk?, [] => some hunk?.toList
  | hunk?, line :: lines =>
    match readHeader line with
    | some h => (readHunks (some h) lines).map (hunk?.toList ++ ·)
    | none =>
      match hunk?.bind (extend? · line) with
      | some h => readHunks (some h) lines
      | none => none

/-- The hunks of a patch for one file. -/
def read (patch : List Char) : Option (List Hunk) := readHunks none ((feedLines patch).drop 3)

/-! ## Applying -/

/-- The lines that the lines of a hunk make of those in front of them, and the others. -/
def applyLines : List HunkLine → List (List Char) → Option (List (List Char) × List (List Char))
  | [], lines => some ([], lines)
  | ⟨.insert, text⟩ :: ls, lines =>
    (applyLines ls lines).map fun (made, rest) => (text :: made, rest)
  | ⟨.delete, text⟩ :: ls, line :: lines => if line = text then applyLines ls lines else none
  | ⟨.keep, text⟩ :: ls, line :: lines =>
    if line = text then (applyLines ls lines).map fun (made, rest) => (text :: made, rest) else none
  | _ :: _, [] => none

/-- Applies hunks to the lines of a text behind the first `i` ones, from which `j` lines have been
made. -/
def applyHunks : Nat → Nat → List Hunk → List (List Char) → Option (List (List Char))
  | _, _, [], lines => some lines
  | i, j, h :: hs, lines =>
    let between := h.old.start - i
    if i ≤ h.old.start ∧ h.new.start = j + between ∧ between ≤ lines.length then do
      let (made, rest) ← applyLines h.lines (lines.drop between)
      let more ← applyHunks h.old.stop h.new.stop hs rest
      return lines.take between ++ made ++ more
    else none

/-- The text that hunks make of a text. -/
def apply (hunks : List Hunk) (cs : List Char) : Option (List Char) :=
  (applyHunks 0 0 hunks (feedLines cs)).map List.flatten

end Patch

open Patch

/-! ## Numbers and ranges -/

section Range

variable {rest : List Char}

theorem readNumber_append (n : Nat) (h : ∀ c ∈ rest.head?, c.isDigit = false) :
    readNumber ((toString n).toList ++ rest) = some (n, rest) := by
  have hdigits : ∀ c ∈ Nat.toDigits 10 n, c.isDigit = true :=
    fun c hc => Nat.isDigit_of_mem_toDigits (by decide) (by decide) hc
  have hrest : rest.takeWhile Char.isDigit = [] ∧ rest.dropWhile Char.isDigit = rest := by
    cases rest with
    | nil => exact ⟨rfl, rfl⟩
    | cons c cs => simp [h c rfl]
  rw [Nat.toString_eq_ofList_toDigits, String.toList_ofList, readNumber,
    List.takeWhile_append_of_pos hdigits, List.dropWhile_append_of_pos hdigits, hrest.1, hrest.2,
    List.append_nil]
  split
  · rename_i hnil
    exact absurd hnil Nat.toDigits_ne_nil
  · rw [Nat.ofDigitChars_ten_toDigits]

theorem readRange_rangeText (start length : Nat)
    (h : ∀ c ∈ rest.head?, c.isDigit = false ∧ c ≠ ',') :
    readRange ((Change.rangeText start length).toList ++ rest) = some (⟨start, length⟩, rest) := by
  have hrest : ∀ c ∈ rest.head?, c.isDigit = false := fun c hc => (h c hc).1
  have hcomma : ∀ (n : Nat) (cs : List Char),
      readNumber ((toString n).toList ++ ',' :: cs) = some (n, ',' :: cs) :=
    fun n cs => readNumber_append n (by simp)
  match length with
  | 0 =>
    have hlength : readNumber ('0' :: rest) = some (0, rest) := readNumber_append 0 hrest
    have htext : (Change.rangeText start 0).toList ++ rest =
        (toString start).toList ++ ',' :: '0' :: rest := by
      simp [Change.rangeText]
    rw [htext, readRange, hcomma]
    simp only [hlength]
  | 1 =>
    have hstart := readNumber_append (start + 1) hrest
    rw [Change.rangeText, readRange, hstart]
    cases rest with
    | nil => rfl
    | cons c cs =>
      have hc := (h c rfl).2
      split
      · simp_all
      · simp_all
      · simp_all
  | length + 2 =>
    have hlength := readNumber_append (length + 2) hrest
    have htext : (Change.rangeText start (length + 2)).toList ++ rest =
        (toString (start + 1)).toList ++ ',' :: ((toString (length + 2)).toList ++ rest) := by
      simp [Change.rangeText]
    rw [htext, readRange, hcomma]
    simp only [hlength]

end Range

/-! ## Writing -/

/-- The line as it stands in a patch, with the note behind it if it has no line feed. -/
def HunkLine.patchLines (l : HunkLine) : List (List Char) :=
  if l.text.getLast? = some '\n' then [l.mark.char :: l.text]
  else [l.mark.char :: l.text ++ ['\n'], noFeed]

/-- The ranges of the hunk as they stand in a patch. -/
def Hunk.head (h : Hunk) : List Char :=
  ("@@ -" ++ Change.rangeText h.old.start h.old.length ++
    " +" ++ Change.rangeText h.new.start h.new.length ++ " @@").toList

def Hunk.patchLines (h : Hunk) : List (List Char) :=
  (h.head ++ h.title) :: h.lines.flatMap HunkLine.patchLines

/-- The lines that name the file, without their line feeds. -/
def Patch.fileLines (name : String) : List String :=
  ["diff --git a/" ++ name ++ " b/" ++ name, "--- a/" ++ name, "+++ b/" ++ name]

/-! ## Reading what is written -/

theorem readHeader_head (h : Hunk) :
    readHeader (h.head ++ h.title) = some { h with lines := [] } := by
  have hdrop : ∀ (text : String) (cs : List Char),
      (text.toList ++ cs).dropPrefix? text.toList = some cs :=
    fun text cs => List.dropPrefix?_append_of_beq cs (by simp)
  have htext : h.head ++ h.title = "@@ -".toList ++
      ((Change.rangeText h.old.start h.old.length).toList ++ (" +".toList ++
        ((Change.rangeText h.new.start h.new.length).toList ++ (" @@".toList ++ h.title)))) := by
    simp [Hunk.head]
  rw [htext]
  simp only [readHeader, hdrop, Option.bind_eq_bind, Option.bind_some]
  rw [readRange_rangeText _ _ (by simp)]
  simp only [hdrop, Option.bind_some]
  rw [readRange_rangeText _ _ (by simp)]
  simp only [hdrop, Option.bind_some, Option.pure_def]

/-- Only the line with the ranges starts with `@`. -/
theorem readHeader_eq_none {c : Char} (h : c ≠ '@') (line : List Char) :
    readHeader (c :: line) = none := by
  simp [readHeader, List.dropPrefix?, h]

theorem Mark.char_ne (m : Mark) : m.char ≠ '@' ∧ m.char ≠ '\\' ∧ m.char ≠ '\n' := by
  cases m <;> decide

theorem ne_noFeed {line : List Char} (h : line.head? ≠ some '\\') : line ≠ noFeed := by
  rintro rfl
  exact h rfl

theorem Mark.cons_ne_noFeed (m : Mark) (text : List Char) : m.char :: text ≠ noFeed :=
  ne_noFeed (by simp [m.char_ne.2.1])

theorem readHunks_mark (h : Hunk) (m : Mark) (text : List Char) (lines : List (List Char)) :
    readHunks (some h) ((m.char :: text) :: lines) =
      readHunks (some { h with lines := h.lines ++ [⟨m, text⟩] }) lines := by
  rw [readHunks, readHeader_eq_none m.char_ne.1]
  simp [extend?, m.cons_ne_noFeed]

/-- A note takes the line feed off the line before. -/
theorem readHunks_noFeed (h : Hunk) (m : Mark) (text : List Char) (lines : List (List Char)) :
    readHunks (some { h with lines := h.lines ++ [⟨m, text ++ ['\n']⟩] }) (noFeed :: lines) =
      readHunks (some { h with lines := h.lines ++ [⟨m, text⟩] }) lines := by
  have hnone : readHeader noFeed = none := readHeader_eq_none (by decide) _
  rw [readHunks, hnone]
  simp [extend?]

theorem readHunks_line (h : Hunk) (l : HunkLine) (lines : List (List Char)) :
    readHunks (some h) (l.patchLines ++ lines) =
      readHunks (some { h with lines := h.lines ++ [l] }) lines := by
  unfold HunkLine.patchLines
  split
  · exact readHunks_mark h l.mark l.text lines
  · rw [List.cons_append, List.cons_append, List.cons_append, readHunks_mark]
    exact readHunks_noFeed h l.mark l.text lines

theorem readHunks_lines (h : Hunk) (ls : List HunkLine) (lines : List (List Char)) :
    readHunks (some h) (ls.flatMap HunkLine.patchLines ++ lines) =
      readHunks (some { h with lines := h.lines ++ ls }) lines := by
  induction ls generalizing h with
  | nil => simp
  | cons l ls ih =>
    rw [List.flatMap_cons, List.append_assoc, readHunks_line, ih]
    simp

/-- The lines that are written for hunks are read as the hunks. -/
theorem readHunks_patchLines (hunk? : Option Hunk) (hunks : List Hunk) :
    readHunks hunk? (hunks.flatMap Hunk.patchLines) = some (hunk?.toList ++ hunks) := by
  induction hunks generalizing hunk? with
  | nil => simp [readHunks]
  | cons h hunks ih =>
    rw [List.flatMap_cons, Hunk.patchLines, List.cons_append, readHunks, readHeader_head]
    simp only [readHunks_lines, List.nil_append, ih]
    rfl

/-! ## The text of a patch -/

theorem header_eq (name : String) :
    Change.header name = String.join ((fileLines name).map (· ++ "\n")) := by
  have hold : "\n--- a/" = "\n" ++ "--- a/" := by simp
  have hnew : "\n+++ b/" = "\n" ++ "+++ b/" := by simp
  unfold Change.header fileLines
  rw [hold, hnew]
  -- Only the order of the texts matters.
  generalize "diff --git a/" = a, " b/" = b, "\n" = n, "--- a/" = c, "+++ b/" = d
  simp [String.join, String.append_assoc]

theorem feedLines_header {name : String} (h : '\n' ∉ name.toList) (more : List Char) :
    feedLines ((Change.header name).toList ++ more) =
      (fileLines name).map (·.toList ++ ['\n']) ++ feedLines more := by
  have hplain : ∀ l ∈ (fileLines name).map String.toList, '\n' ∉ l := by
    simp [fileLines, h]
  have htext : (Change.header name).toList =
      ((fileLines name).map String.toList).flatMap (· ++ ['\n']) := by
    rw [header_eq, String.toList_join, List.flatMap_map, List.flatMap_map]
    simp
  rw [htext, feedLines_flatMap hplain, List.map_map]
  rfl

/-- The line as it stands in a patch. -/
def HunkLine.chars (l : HunkLine) : List Char := Change.lineText l.mark.char l.text

theorem feedLines_chars {l : HunkLine} (h : IsLine l.text) (more : List Char) :
    feedLines (l.chars ++ more) = l.patchLines ++ feedLines more := by
  obtain ⟨m, text⟩ := l
  have hmark : ∀ {cs : List Char}, '\n' ∉ cs → '\n' ∉ m.char :: cs :=
    fun hcs => by simp [hcs, m.char_ne.2.2.symm]
  obtain ⟨cs, hcs, rfl | rfl⟩ := h
  · have htext : HunkLine.chars ⟨m, cs ++ ['\n']⟩ ++ more = (m.char :: cs) ++ '\n' :: more := by
      simp [HunkLine.chars, Change.lineText]
    rw [htext, feedLines_append (hmark hcs)]
    simp [HunkLine.patchLines]
  · have hlast : text.getLast? ≠ some '\n' := fun hlast => hcs (List.mem_of_getLast? hlast)
    have htext : HunkLine.chars ⟨m, text⟩ ++ more =
        (m.char :: text) ++ '\n' :: ("\\ No newline at end of file".toList ++ '\n' :: more) := by
      simp [HunkLine.chars, Change.lineText, hlast]
    have hnoFeed : "\\ No newline at end of file".toList ++ ['\n'] = noFeed := by decide
    rw [htext, feedLines_append (hmark hcs), feedLines_append (by decide), hnoFeed]
    simp [HunkLine.patchLines, hlast]

theorem feedLines_flatMap_chars {ls : List HunkLine} (h : ∀ l ∈ ls, IsLine l.text)
    (more : List Char) :
    feedLines (ls.flatMap HunkLine.chars ++ more) =
      ls.flatMap HunkLine.patchLines ++ feedLines more := by
  induction ls with
  | nil => rfl
  | cons l ls ih =>
    obtain ⟨hl, hls⟩ := List.forall_mem_cons.mp h
    rw [List.flatMap_cons, List.append_assoc, feedLines_chars hl, ih hls, List.flatMap_cons,
      List.append_assoc]

end LosslessJava.Diff
