import LosslessJava.Indentation.Discovery

/-!
# Shifts

A shift moves the lines of a statement to the right or to the left. It changes the trivia in front
of the statement, of the statements in it, of `else` and of closing braces, and in these only the
text behind line breaks.
-/

namespace LosslessJava

structure Shift where
  /-- The columns to the right; a negative amount is to the left. -/
  amount : Int
  /-- Whether new indentation consists of spaces. -/
  withSpaces : Bool
deriving DecidableEq

namespace Shift

/-- Shifts a line. To the left it loses no more than its indentation. -/
def line (s : Shift) (cs : List Char) : List Char :=
  if 0 < s.amount then List.replicate s.amount.toNat (Trivia.fill s.withSpaces) ++ cs
  else cs.drop ((cs.takeWhile Trivia.isIndent).take (-s.amount).toNat).length

/-- The first line as it is and the others shifted. -/
def lines (s : Shift) : List (List Char) → List (List Char)
  | [] => []
  | first :: rest => first :: rest.map s.line

/-- Shifts the lines that start in a trivia. -/
def apply (s : Shift) (t : Trivia) : Trivia :=
  if s.amount = 0 ∨ t.startsNewLine = false then t
  else .ofList (['\n'].intercalate (s.lines (t.toList.splitOn '\n')))

mutual

/-- Shifts a statement with the statements in it. -/
def applyTo (s : Shift) : Statement → Statement
  | .block ⟨lead, statements, close⟩ =>
    .block ⟨s.apply lead, s.applyToList statements, s.apply close⟩
  | .branch lead condition thenPart => .branch (s.apply lead) condition (s.applyTo thenPart)
  | .fork lead condition thenPart elseLead elsePart =>
    .fork (s.apply lead) condition (s.applyTo thenPart) (s.apply elseLead) (s.applyTo elsePart)
  | .loop lead condition body => .loop (s.apply lead) condition (s.applyTo body)
  | other => other.withLead (s.apply other.lead)

def applyToList (s : Shift) : List Statement → List Statement
  | [] => []
  | t :: ts => s.applyTo t :: s.applyToList ts

end

end Shift

namespace CompilationUnit

/-- The shift for a statement that moves from the block `both` into the block `into`. -/
def shiftBetween (u : CompilationUnit) (into both : Block) : Shift :=
  ⟨into.indentWidth - both.indentWidth, u.indentation.withSpaces⟩

end CompilationUnit

end LosslessJava
