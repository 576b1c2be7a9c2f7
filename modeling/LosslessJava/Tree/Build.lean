import LosslessJava.Tree.Access

/-!
# Synthesized nodes

Nodes that come from no text, in default formatting.
-/

namespace LosslessJava

namespace Delimited

/-- A list of expressions in default formatting. -/
def ofExpressions (es : List Expression) : Delimited Expression := ofList Expression.withLead es

/-- A list of types in default formatting. -/
def ofTypes (ts : List TypeTree) : Delimited TypeTree := ofList TypeTree.withLead ts

end Delimited

namespace TypeTree

/-- The type with type arguments, if any are given. -/
def withArguments (t : TypeTree) (arguments : Option (List TypeTree)) : TypeTree :=
  { t with arguments := arguments.map Delimited.ofTypes }

end TypeTree

namespace Expression

def buildIdentifier (name : String) : Expression := identifier (.ofName name)

/-- A call of a method of that name, on a target if there is one. -/
def buildCall (target : Option Expression) (name : String) (arguments : List Expression) :
    Expression :=
  match target with
  | none => call .empty (.ofName name) (.ofExpressions arguments) none
  | some target => invocation .empty target .empty (.ofName name) (.ofExpressions arguments) none

def buildNew (type : TypeTree) (arguments : List Expression) : Expression :=
  newClass .empty (type.withLead .space) (.ofExpressions arguments) none

end Expression

end LosslessJava
