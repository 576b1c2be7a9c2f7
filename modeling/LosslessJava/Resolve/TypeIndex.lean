import LosslessJava.Tree.Unit

/-!
# Type indexes

The classes that a set of units declares, by fully qualified name and in the order in which they
were first added.
-/

namespace LosslessJava

/-- Classes in the order of their first insertion, one for each name. -/
structure TypeIndex where
  types : List ClassType

namespace TypeIndex

def empty : TypeIndex := ⟨[]⟩

def find? (index : TypeIndex) (name : QualifiedName) : Option ClassType :=
  index.types.find? fun c => c.name == name

def contains (index : TypeIndex) (name : QualifiedName) : Bool := (index.find? name).isSome

def size (index : TypeIndex) : Nat := index.types.length

/-- Adds a class. A class of the same name is replaced where it stands. -/
def insert (index : TypeIndex) (c : ClassType) : TypeIndex :=
  if index.contains c.name then
    ⟨index.types.map fun d => if d.name == c.name then c else d⟩
  else ⟨index.types ++ [c]⟩

end TypeIndex

/-! ## The classes of a unit -/

mutual

/-- The classes declared in a class that is known as `type`, the class itself last. -/
def ClassDeclaration.declared (type : ClassType) : ClassDeclaration → List ClassType
  | ⟨_, _, _, _, _, _, _, ⟨_, members, _⟩, _⟩ => Member.declaredIn type members ++ [type]

/-- The classes declared by the members of the class `owner`. -/
def Member.declaredIn (owner : ClassType) : List Member → List ClassType
  | [] => []
  | .nested c :: ms =>
    ClassDeclaration.declared (owner.nested c.name.name) c ++ Member.declaredIn owner ms
  | .field _ :: ms => Member.declaredIn owner ms
  | .method _ :: ms => Member.declaredIn owner ms
  | .empty _ :: ms => Member.declaredIn owner ms

end

namespace CompilationUnit

/-- All classes of the unit, those inside a class in front of it. -/
def declared (u : CompilationUnit) : List ClassType :=
  u.classes.flatMap fun c => c.declared (.topLevel u.packageName c.name.name)

end CompilationUnit

namespace TypeIndex

def addUnit (index : TypeIndex) (u : CompilationUnit) : TypeIndex :=
  u.declared.foldl insert index

def ofUnits (units : List CompilationUnit) : TypeIndex := units.foldl addUnit empty

end TypeIndex

end LosslessJava
