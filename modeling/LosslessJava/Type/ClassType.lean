import LosslessJava.Name.Qualified

/-!
# Class types

A class is named by its fully qualified name and the length of its package, so that `a.A.B` is
known to be the class `B` nested in the class `A` of package `a`.
-/

namespace LosslessJava

/-- A class or interface. At least one segment of the name is a class name. -/
structure ClassType where
  name : QualifiedName
  packageLength : Nat
  packageLength_lt : packageLength < name.segments.length
deriving DecidableEq

namespace ClassType

/-- The class whose first `packageLength` segments are its package; the last segment never is. -/
def new (name : QualifiedName) (packageLength : Nat) : ClassType :=
  ⟨name, min packageLength (name.segments.length - 1), by
    have := name.length_pos
    omega⟩

/-- A class declared outside other classes, in `package` or in the unnamed one. -/
def topLevel (package : Option QualifiedName) (simpleName : String) : ClassType :=
  match package with
  | some p => ⟨p.push simpleName, p.segments.length, by simp [QualifiedName.push]⟩
  | none => ⟨.single simpleName, 0, by simp [QualifiedName.single]⟩

/-- The package is taken to end where the lower-case segments end. -/
def fromConvention (name : QualifiedName) : ClassType :=
  new name name.conventionalPackageLength

/-- The class declared directly inside this one. -/
def nested (c : ClassType) (simpleName : String) : ClassType :=
  ⟨c.name.push simpleName, c.packageLength, by
    have := c.packageLength_lt
    simp only [QualifiedName.push, List.length_append, List.length_cons, List.length_nil]
    omega⟩

def packageSegments (c : ClassType) : List String := c.name.segments.take c.packageLength

/-- The package, `none` for the unnamed one. -/
def packageName (c : ClassType) : Option QualifiedName := c.name.take? c.packageLength

/-- The class names from the outermost to the innermost. -/
def classSegments (c : ClassType) : List String := c.name.segments.drop c.packageLength

/-- The dotted path of classes without the package. -/
def className (c : ClassType) : String := dotted c.classSegments

def simpleName (c : ClassType) : String := c.name.simpleName

def isNested (c : ClassType) : Bool := 1 < c.classSegments.length

/-- The class declared outside other classes that encloses this one. -/
def outermost (c : ClassType) : ClassType :=
  ⟨⟨c.name.segments.take (c.packageLength + 1), by
      have := c.name.length_pos
      rw [← List.length_pos_iff, List.length_take]
      omega⟩,
    c.packageLength, by
      have := c.packageLength_lt
      simp only [List.length_take]
      omega⟩

/-- The class directly around this one, `none` for one that is not nested. -/
def owner? (c : ClassType) : Option ClassType :=
  if h : 1 < c.classSegments.length then
    have h' : c.packageLength + 1 < c.name.segments.length := by
      simp only [classSegments, List.length_drop] at h
      omega
    some ⟨⟨c.name.segments.dropLast, by
        rw [← List.length_pos_iff, List.length_dropLast]
        omega⟩,
      c.packageLength, by
        simp only [List.length_dropLast]
        omega⟩
  else none

end ClassType

end LosslessJava
