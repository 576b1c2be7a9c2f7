import LosslessJava.Name.Identifier
import LosslessJava.Text.Blank
import LosslessJava.Text.LetterCase

/-!
# Qualified names

Dotted paths of at least one segment.

* `QualifiedName.parse` reads a dotted text and `QualifiedName.text` writes it.
* `QualifiedName.startsWith` compares whole segments: `java.utilities` does not start with
  `java.util`.
-/

namespace LosslessJava

/-- Why a text is no qualified name. -/
inductive NameError where
  | empty
  /-- `segment` is the first illegal segment of the dotted text `name`. -/
  | invalidSegment (name segment : String)
deriving DecidableEq

/-- The segments with dots between them. -/
def dotted : List String → String
  | [] => ""
  | [s] => s
  | s :: t :: rest => s ++ "." ++ dotted (t :: rest)

/-- A dotted path of at least one segment. -/
structure QualifiedName where
  segments : List String
  segments_ne_nil : segments ≠ []
deriving DecidableEq

namespace QualifiedName

theorem length_pos (n : QualifiedName) : 0 < n.segments.length :=
  List.length_pos_iff.mpr n.segments_ne_nil

/-- A name of one unchecked segment. -/
def single (segment : String) : QualifiedName := ⟨[segment], by simp⟩

instance : Inhabited QualifiedName := ⟨single ""⟩

/-- Checks every segment. -/
def ofSegments (segments : List String) : Except NameError QualifiedName :=
  if h : segments = [] then .error .empty
  else
    match segments.find? fun s => !isIdentifier s with
    | some bad => .error (.invalidSegment (dotted segments) bad)
    | none => .ok ⟨segments, h⟩

/-- Reads a dotted name. -/
def parse (text : String) : Except NameError QualifiedName :=
  if text.toList.all isBlank then .error .empty
  else ofSegments ((text.toList.splitOn '.').map String.ofList)

/-- The dotted text of the name. -/
def text (n : QualifiedName) : String := dotted n.segments

def segmentCount (n : QualifiedName) : Nat := n.segments.length

/-- The last segment. -/
def simpleName (n : QualifiedName) : String := n.segments.getLast n.segments_ne_nil

/-- All segments but the last. -/
def packagePath (n : QualifiedName) : List String := n.segments.dropLast

/-- The first segments of the name are `lead`. -/
def startsWith (n : QualifiedName) (lead : List String) : Bool := lead.isPrefixOf n.segments

def startsWithPackage (n package : QualifiedName) : Bool := n.startsWith package.segments

/-- The segment starts with a lower-case letter, as packages do by convention. -/
def isPackageLike (segment : String) : Bool :=
  segment.toList.head?.any isLowercase

/-- The number of leading segments that look like package names. -/
def conventionalPackageLength (n : QualifiedName) : Nat :=
  (n.segments.takeWhile isPackageLike).length

/-- The first `length` segments, `none` when there are none or not that many. -/
def take? (n : QualifiedName) (length : Nat) : Option QualifiedName :=
  if h : 0 < length ∧ length ≤ n.segments.length then
    some ⟨n.segments.take length, by
      rw [← List.length_pos_iff, List.length_take]
      omega⟩
  else none

/-- The name without its last segment, `none` for a single segment. -/
def parent? (n : QualifiedName) : Option QualifiedName := n.take? (n.segments.length - 1)

/-- Appends a segment without checking it. -/
def push (n : QualifiedName) (segment : String) : QualifiedName :=
  ⟨n.segments ++ [segment], by simp⟩

/-- Appends a legal segment. -/
def child (n : QualifiedName) (segment : String) : Except NameError QualifiedName :=
  if isIdentifier segment then .ok (n.push segment)
  else .error (.invalidSegment (n.text ++ "." ++ segment) segment)

/-- The segments of `n` followed by those of `m`. -/
def join (n m : QualifiedName) : QualifiedName :=
  ⟨n.segments ++ m.segments, by simp [n.segments_ne_nil]⟩

/-- Names are ordered segment by segment. -/
def order (n m : QualifiedName) : Ordering := compare n.segments m.segments

end QualifiedName

namespace NameError

def message : NameError → String
  | empty => "Qualified name is empty"
  | invalidSegment name segment =>
    "Invalid segment \x60" ++ segment ++ "\x60 in qualified name \x60" ++ name ++ "\x60"

def code : NameError → String
  | empty => "jrewrite::name::empty"
  | invalidSegment _ _ => "jrewrite::name::invalid_segment"

def help : NameError → Option String
  | empty => none
  | invalidSegment _ _ =>
    some ("Segments must start with a letter, \x60_\x60 or \x60$\x60, continue with letters, " ++
      "digits, \x60_\x60 or \x60$\x60, and must not be reserved words")

end NameError

end LosslessJava
