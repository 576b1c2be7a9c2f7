import LosslessJava.Tree.Unit
import LosslessJava.Type.ClassType

/-!
# Imports

Which classes an import brings into scope, and the order of imports.

* `Import.isFromClass`: an import of a class matches the class itself, an import on demand every
  class of the package, and a static import the owner of the imported member.
* `Import.sort`: imports in the order of their text.
-/

namespace LosslessJava

namespace Import

/-- The import matches a name whose first `packageLength` segments are its package. -/
def bringsIntoScope (i : Import) (name : QualifiedName) (packageLength : Nat) : Bool :=
  match i.isStatic, i.wildcard with
  | false, false => i.name == name
  | false, true =>
    packageLength < name.segments.length && name.segments.take packageLength == i.name.segments
  | true, false => i.name.parent? == some name
  | true, true => i.name == name

/-- The import matches the class. -/
def isFromClass (i : Import) (c : ClassType) : Bool := i.bringsIntoScope c.name c.packageLength

/-- The import matches the class of a dotted text, whose package is taken to be its lower-case
segments. -/
def isFromType (i : Import) (text : String) : Except NameError Bool := do
  let name ← QualifiedName.parse text
  return i.bringsIntoScope name name.conventionalPackageLength

/-- The owner of a static import or the class of another one, none for a whole package. -/
def typeName? (i : Import) : Option QualifiedName :=
  match i.isStatic, i.wildcard with
  | false, false => some i.name
  | true, true => some i.name
  | true, false => i.name.parent?
  | false, true => none

/-! ## Order -/

/-- The text that imports are ordered by. -/
def fullText (i : Import) : String :=
  if i.isStatic then "static " ++ i.pathText else i.pathText

def order (i j : Import) : Ordering := compare i.fullText j.fullText

/-- Orders imports by their text; those with equal text keep their order. -/
def sort (imports : List Import) : List Import :=
  imports.mergeSort fun i j => (i.order j).isLE

def isSorted : List Import → Bool
  | i :: j :: rest => (i.order j).isLE && isSorted (j :: rest)
  | _ => true

end Import

namespace CompilationUnit

def sortImports (u : CompilationUnit) : CompilationUnit :=
  { u with imports := Import.sort u.imports }

end CompilationUnit

end LosslessJava
