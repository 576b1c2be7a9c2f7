import LosslessJava.Location
import LosslessJava.Text.Blank
import LosslessJava.Trivia

/-!
# Print steps

A printed tree is a list of steps, which write trivia, tokens and terminating semicolons. A trimmed
print leaves out the trivia in front of the first token, a final semicolon with its trivia, and the
white space at the end.
-/

namespace LosslessJava

inductive Step where
  | trivia (trivia : Trivia)
  | token (text : String)
  /-- Trivia and a semicolon that ends a statement or declaration. -/
  | terminator (trivia : Trivia)
deriving DecidableEq

/-- Trivia and a token. -/
def spaced (trivia : Trivia) (text : String) : List Step := [.trivia trivia, .token text]

inductive PrintMode where
  | verbatim | trimmed
deriving DecidableEq

/-- What has been written so far. -/
structure Printer where
  mode : PrintMode
  out : String
  /-- Where the last terminator and its trivia start and end, as byte offsets. -/
  lastTerminator : Option (Nat × Nat)
  stop_le : ∀ range ∈ lastTerminator, range.2 ≤ out.utf8ByteSize

namespace Printer

def new (mode : PrintMode) : Printer := ⟨mode, "", none, by simp⟩

def write (p : Printer) (text : String) : Printer where
  mode := p.mode
  out := p.out ++ text
  lastTerminator := p.lastTerminator
  stop_le range h := by
    rw [String.utf8ByteSize_append]
    exact Nat.le_add_right_of_le (p.stop_le range h)

/-- Writes trivia. A trimmed print has none in front of its first token. -/
def writeTrivia (p : Printer) (t : Trivia) : Printer :=
  if p.mode = .trimmed ∧ p.out.isEmpty then p else p.write t.text

/-- Remembers that all from an offset on is a terminator. -/
def endTerminator (p : Printer) (start : Nat) : Printer where
  mode := p.mode
  out := p.out
  lastTerminator := some (start, p.out.utf8ByteSize)
  stop_le := by simp

def step (p : Printer) : Step → Printer
  | .trivia t => p.writeTrivia t
  | .token text => p.write text
  | .terminator t => ((p.writeTrivia t).write ";").endTerminator p.out.utf8ByteSize

/-- The text in front of the last terminator, as long as nothing was written after it. -/
def beforeTerminator (p : Printer) : Option String :=
  match p.lastTerminator with
  | some (start, stop) =>
    if stop = p.out.utf8ByteSize then some (String.ofList (takeBytes start p.out.toList)) else none
  | none => none

def finish (p : Printer) : String :=
  match p.mode with
  | .verbatim => p.out
  | .trimmed => String.ofList (dropTrailingBlanks (p.beforeTerminator.getD p.out).toList)

end Printer

namespace Step

/-- The text that the steps write. -/
def render (mode : PrintMode) (steps : List Step) : String :=
  (steps.foldl Printer.step (Printer.new mode)).finish

end Step

end LosslessJava
