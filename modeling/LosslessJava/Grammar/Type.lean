import LosslessJava.Grammar.Rules
import LosslessJava.Grammar.Terminal

/-!
# Grammar of types
-/

namespace LosslessJava.Grammar

open LosslessJava.Grammar.Parser

/-- A pair of brackets. -/
def dimension : Parser Dimension :=
  named .dimension (Dimension.mk <$> leftBracket <*> rightBracket)

/-- Zero or more pairs of brackets. -/
def dimensions (bound : Nat) : Parser (List Dimension) := many bound dimension

/-- A primitive type with brackets, which has its type already. -/
def primitiveArray (lead : Trivia) (p : Primitive) (ds : List Dimension) : TypeTree :=
  ⟨lead, .primitive p, none, ds, some ((JavaType.primitive p).arrayOf ds.length)⟩

def primitiveType : Parser (Trivia × Primitive) := wordOf .primitiveType Primitive.ofKeyword?

def wildcardBound (r : Rules) : Parser WildcardBound :=
  (fun (lead, kind) bound => ⟨lead, kind, bound⟩) <$> wordOf .wildcardBound BoundKind.ofKeyword? <*>
    r.type

def wildcardType (r : Rules) : Parser TypeTree :=
  named .wildcardType <|
    (fun lead bound => ⟨lead, .wildcard bound, none, [], none⟩) <$> question <*>
      optional (wildcardBound r)

/-- Type arguments. None at all make the diamond. -/
def typeArguments (r : Rules) : Parser (Delimited TypeTree) :=
  named .typeArguments (delimited r.bound less (wildcardType r <|> r.type) greater)

/-- A type without its brackets. -/
def typeHead (r : Rules) : Parser (List Dimension → TypeTree) :=
  (fun (lead, p) => primitiveArray lead p) <$> primitiveType <|>
  (fun (lead, name) arguments ds => ⟨lead, .named name, arguments, ds, none⟩) <$>
    qualifiedName r.bound <*> optional (typeArguments r)

def typeReference (r : Rules) : Parser TypeTree :=
  named .typeReference (typeHead r <*> dimensions r.bound)

end LosslessJava.Grammar
