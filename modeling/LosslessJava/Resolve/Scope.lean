import LosslessJava.Resolve.TypeIndex

/-!
# Scopes

The names visible at a place of a unit.

* `Scope.resolveSimple`: the class of a simple name. Classes around the place come first, then the
  package, single imports, imports on demand and the implicitly imported package.
* `Scope.resolve`: the class of a dotted name. What does not start with a visible class is taken as
  fully qualified.
-/

namespace LosslessJava

/-- The classes of `java.lang` that are visible without an import. -/
def languageClasses : List String :=
  ["AutoCloseable", "Boolean", "Byte", "CharSequence", "Character", "Class", "ClassCastException",
   "CloneNotSupportedException", "Cloneable", "Comparable", "Deprecated", "Double", "Enum",
   "Error", "Exception", "Float", "FunctionalInterface", "IllegalArgumentException",
   "IllegalStateException", "IndexOutOfBoundsException", "Integer", "InterruptedException",
   "Iterable", "Long", "Math", "NullPointerException", "Number", "Object", "Override",
   "Runnable", "RuntimeException", "SafeVarargs", "Short", "String", "StringBuilder",
   "SuppressWarnings", "System", "Thread", "Throwable", "UnsupportedOperationException", "Void"]

/-- The package whose classes need no import. -/
def languagePackage : QualifiedName := ⟨["java", "lang"], by simp⟩

structure Scope where
  index : TypeIndex
  /-- Whether the classes of `java.lang` are visible without an import. -/
  implicitLanguage : Bool
  package : Option QualifiedName
  imports : List Import
  /-- The classes around the place, innermost first. -/
  enclosing : List ClassType

namespace ClassType

/-- The class nested along a path of names. -/
def nestedAlong (c : ClassType) (path : List String) : ClassType := path.foldl nested c

end ClassType

namespace Scope

/-- The scope outside the classes of a unit. -/
def ofUnit (index : TypeIndex) (implicitLanguage : Bool) (u : CompilationUnit) : Scope :=
  ⟨index, implicitLanguage, u.packageName, u.imports, []⟩

/-- The scope inside a class. -/
def enter (s : Scope) (c : ClassType) : Scope := { s with enclosing := c :: s.enclosing }

/-- The type of a class declared at the place. -/
def declare (s : Scope) (name : String) : ClassType :=
  match s.enclosing with
  | owner :: _ => owner.nested name
  | [] => .topLevel s.package name

/-! ## Simple names -/

/-- A class around the place, or a member class of one. -/
def fromEnclosing (s : Scope) (name : String) : Option ClassType :=
  s.enclosing.findSome? fun owner =>
    if owner.simpleName = name then some owner
    else if s.index.contains (owner.nested name).name then some (owner.nested name)
    else none

/-- A class of the unit's package. -/
def fromPackage (s : Scope) (name : String) : Option ClassType :=
  let type := ClassType.topLevel s.package name
  if s.index.contains type.name then some type else none

/-- The class that a single import brings in under its simple name. A class that is not indexed is
known by convention only. -/
def imported (s : Scope) (name : String) (i : Import) : Option ClassType :=
  if i.wildcard || i.name.simpleName != name then none
  else
    match s.index.find? i.name with
    | some known => some known
    | none => if i.isStatic then none else some (.fromConvention i.name)

/-- The indexed class that an import on demand brings in. -/
def importedOnDemand (s : Scope) (name : String) (i : Import) : Option ClassType :=
  if i.wildcard then s.index.find? (i.name.push name) else none

/-- A class of `java.lang`. -/
def fromLanguage (s : Scope) (name : String) : Option ClassType :=
  let type := ClassType.topLevel (some languagePackage) name
  if s.implicitLanguage && (languageClasses.contains name || s.index.contains type.name) then
    some type
  else none

/-- The class of a simple name. -/
def resolveSimple (s : Scope) (name : String) : Option ClassType :=
  (s.fromEnclosing name).or <|
  (s.fromPackage name).or <|
  (s.imports.findSome? (s.imported name)).or <|
  (s.imports.findSome? (s.importedOnDemand name)).or
  (s.fromLanguage name)

/-! ## Dotted names -/

/-- The longest indexed class among the first `length` segments of the name, with the other segments
nested in it. -/
def resolveIndexed (s : Scope) (name : QualifiedName) : Nat → Option ClassType
  | 0 => none
  | length + 1 =>
    match (name.take? (length + 1)).bind s.index.find? with
    | some known => some (known.nestedAlong (name.segments.drop (length + 1)))
    | none => s.resolveIndexed name length

/-- The class that the name denotes by the convention on letter case. -/
def resolveConventional (name : QualifiedName) : Option ClassType :=
  let length := name.conventionalPackageLength
  if 0 < length ∧ length < name.segments.length then some (.fromConvention name) else none

/-- The class of a dotted name. -/
def resolve (s : Scope) (name : QualifiedName) : Option ClassType :=
  match s.resolveSimple (name.segments.head name.segments_ne_nil) with
  | some c => some (c.nestedAlong name.segments.tail)
  | none => (s.resolveIndexed name name.segments.length).or (resolveConventional name)

end Scope

end LosslessJava
