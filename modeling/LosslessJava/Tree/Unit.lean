import LosslessJava.Tree.Node

/-!
# Compilation units

A source file with its package declaration, imports and classes.
-/

namespace LosslessJava

/-- `package a.b;` -/
structure PackageDeclaration where
  lead : Trivia
  nameLead : Trivia
  name : QualifiedName
  terminator : Trivia
deriving DecidableEq

/-- `import [static] a.b.C[.*];` -/
structure Import where
  lead : Trivia
  /-- The trivia in front of `static`, for a static import. -/
  staticLead : Option Trivia
  nameLead : Trivia
  /-- The imported path, without a final `.*`. -/
  name : QualifiedName
  wildcard : Bool
  terminator : Trivia
deriving DecidableEq

/-- A source file. -/
structure CompilationUnit where
  path : Option String
  package : Option PackageDeclaration
  imports : List Import
  classes : List ClassDeclaration
  /-- The trivia after the last token. -/
  tail : Trivia

namespace PackageDeclaration

/-- The declaration in default formatting. -/
def build (name : QualifiedName) : PackageDeclaration := ⟨.empty, .space, name, .empty⟩

end PackageDeclaration

namespace Import

/-- The import in default formatting. -/
def build (name : QualifiedName) (isStatic wildcard : Bool) : Import :=
  ⟨.empty, if isStatic then some .space else none, .space, name, wildcard, .empty⟩

def withLead (lead : Trivia) (i : Import) : Import := { i with lead }

def isStatic (i : Import) : Bool := i.staticLead.isSome

/-- The imported path, with `.*` for an import on demand. -/
def pathText (i : Import) : String := if i.wildcard then i.name.text ++ ".*" else i.name.text

end Import

namespace CompilationUnit

def packageName (u : CompilationUnit) : Option QualifiedName := u.package.map (·.name)

end CompilationUnit

end LosslessJava
