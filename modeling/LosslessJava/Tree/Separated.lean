import LosslessJava.Trivia

/-!
# Separated lists

Lists of nodes with commas between them, and such lists between delimiters.
-/

namespace LosslessJava

/-- An element of a list, with the trivia in front of the comma after it. -/
structure Padded (α : Type) where
  element : α
  after : Trivia
deriving DecidableEq

/-- A list between delimiters, such as `(a, b)`. -/
structure Delimited (α : Type) where
  /-- The trivia in front of the opening delimiter. -/
  before : Trivia
  elements : List (Padded α)
  /-- The trivia in front of the closing delimiter. -/
  close : Trivia
deriving DecidableEq

namespace Padded

/-- An element with no trivia after it. -/
def ofElement {α : Type} (element : α) : Padded α := ⟨element, .empty⟩

end Padded

namespace Delimited

variable {α : Type}

def empty : Delimited α := ⟨.empty, [], .empty⟩

/-- The elements without their trivia. -/
def toList (d : Delimited α) : List α := d.elements.map Padded.element

/-- A synthesized list, with a space after each comma. -/
def ofList (withLead : Trivia → α → α) : List α → Delimited α
  | [] => empty
  | a :: as =>
    ⟨.empty, .ofElement a :: as.map fun a => .ofElement (withLead .space a), .empty⟩

end Delimited

end LosslessJava
