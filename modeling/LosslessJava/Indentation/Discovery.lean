import LosslessJava.Tree.Access

/-!
# Discovery of indentation

The indentation of a unit, found from the nodes that start a line.

* `CompilationUnit.findIndent`: the most frequent indentation of a list of statements, or else of
  the whole unit.
* `CompilationUnit.leadIn`: the lead of a statement that is added to a block.
-/

namespace LosslessJava

/-! ## Lines -/

/-- A line that starts with a node, with its indentation and the width around it. -/
structure IndentedLine where
  enclosing : Nat
  indentation : List Char
deriving DecidableEq

namespace IndentedLine

def width (l : IndentedLine) : Nat := l.indentation.length

/-- Spaces make up at least half of the indentation. -/
def isSpaced (l : IndentedLine) : Bool :=
  let spaces := l.indentation.count ' '
  l.width - spaces ≤ spaces

/-- The width beyond that of the line around it, where there is any. -/
def depth? (l : IndentedLine) : Option Nat :=
  if l.enclosing < l.width then some (l.width - l.enclosing) else none

end IndentedLine

namespace Trivia

/-- The line that a token behind this trivia starts. -/
def line (t : Trivia) (enclosing : Nat) : List IndentedLine :=
  (t.indentation.map (⟨enclosing, ·⟩)).toList

/-- The width for what is inside a node behind this trivia. -/
def widthWithin (t : Trivia) (enclosing : Nat) : Nat :=
  (t.indentation.map List.length).getD enclosing

end Trivia

mutual

/-- The lines of a statement and of the statements in it. -/
def Statement.lines (enclosing : Nat) (s : Statement) : List IndentedLine :=
  let within := s.lead.widthWithin enclosing
  s.lead.line enclosing ++
    match s with
    | .block ⟨_, statements, _⟩ => Statement.listLines within statements
    | .branch _ _ thenPart => thenPart.lines within
    | .fork _ _ thenPart _ elsePart => thenPart.lines within ++ elsePart.lines within
    | .loop _ _ body => body.lines within
    | _ => []

def Statement.listLines (enclosing : Nat) : List Statement → List IndentedLine
  | [] => []
  | s :: ss => s.lines enclosing ++ Statement.listLines enclosing ss

end

mutual

/-- The lines of a class, its members and their statements. -/
def ClassDeclaration.lines (enclosing : Nat) : ClassDeclaration → List IndentedLine
  | ⟨lead, _, _, _, _, _, _, ⟨_, members, _⟩, _⟩ =>
    lead.line enclosing ++ Member.listLines (lead.widthWithin enclosing) members

def Member.listLines (enclosing : Nat) : List Member → List IndentedLine
  | [] => []
  | .nested c :: ms => c.lines enclosing ++ Member.listLines enclosing ms
  | .method m :: ms =>
    m.lead.line enclosing ++
      Statement.listLines (m.lead.widthWithin enclosing) m.statements ++
      Member.listLines enclosing ms
  | .field d :: ms => d.lead.line enclosing ++ Member.listLines enclosing ms
  | .empty lead :: ms => lead.line enclosing ++ Member.listLines enclosing ms

end

namespace CompilationUnit

def lines (u : CompilationUnit) : List IndentedLine := u.classes.flatMap (·.lines 0)

end CompilationUnit

/-! ## The dominant indentation -/

namespace IndentedLine

/-- `n` occurs more often than `m`, or as often and is smaller. -/
def outranks (ns : List Nat) (n m : Nat) : Bool :=
  ns.count m < ns.count n || (ns.count n == ns.count m && n < m)

/-- The most frequent number, the smallest of several. -/
def mostCommon (ns : List Nat) : Option Nat :=
  ns.foldl (fun best n =>
    match best with
    | none => some n
    | some m => if outranks ns n m then some n else some m) none

/-- The most frequent depth of the lines. -/
def dominant (ls : List IndentedLine) : Option Nat :=
  mostCommon (ls.filterMap IndentedLine.depth?)

/-- At least half of the lines are indented with spaces. -/
def mostlySpaced (ls : List IndentedLine) : Bool :=
  ls.countP (!·.isSpaced) ≤ ls.countP (·.isSpaced)

end IndentedLine

/-- An indentation that was found for a part of a unit. -/
structure Indentation where
  /-- The width around the part. -/
  enclosing : Nat
  /-- The width of one level. -/
  step : Nat
  withSpaces : Bool
deriving DecidableEq

namespace Block

/-- The indentation of the line that the block ends on. -/
def indentWidth (b : Block) : Nat := b.close.indentWidth

end Block

namespace CompilationUnit

/-- The width of a level in a unit without indented lines. -/
def standardStep : Nat := 4

/-- The indentation of the whole unit. -/
def indentation (u : CompilationUnit) : Indentation :=
  ⟨0, (IndentedLine.dominant u.lines).getD standardStep, IndentedLine.mostlySpaced u.lines⟩

/-- The dominant indentation of the statements, or else that of the unit. -/
def findIndent (u : CompilationUnit) (enclosing : Nat) (statements : List Statement) :
    Indentation :=
  let lines := Statement.listLines enclosing statements
  ⟨enclosing, (IndentedLine.dominant lines).getD u.indentation.step,
    if lines.isEmpty then u.indentation.withSpaces else IndentedLine.mostlySpaced lines⟩

/-- The lead of a statement that is added to a block: a line break and one level more than the
block. -/
def leadIn (u : CompilationUnit) (b : Block) : Trivia :=
  let indentation := u.findIndent b.indentWidth b.statements
  .newlineIndent (indentation.enclosing + indentation.step) indentation.withSpaces

end CompilationUnit

end LosslessJava
