import LosslessJava.Grammar.Build.Cursor
import LosslessJava.Grammar.Type

/-!
# Building of types
-/

namespace LosslessJava.Grammar

/-- Builders for the rules that are referred to from inside other rules. -/
structure Builders where
  type : Trivia → Pair → Built TypeTree
  unary : Pair → Built Expression
  expression : Trivia → Pair → Built Expression
  classBody : Trivia → Pair → Built ClassBody
  statement : Trivia → Pair → Built Statement

namespace Build

open Building

variable (source : List Char) (b : Builders)

/-! ## Names -/

def identifier (lead : Trivia) (pair : Pair) : Built Identifier :=
  .ok ⟨lead, pair.text source, none⟩

/-- A name with the segments, of which the grammar always has one. -/
def nameOf (pair : Pair) : List String → Built QualifiedName
  | [] => pair.unexpected "an identifier"
  | first :: rest => .ok ⟨first :: rest, by simp⟩

def qualifiedName (pair : Pair) : Built QualifiedName :=
  nameOf pair ((pair.inner.filter (·.rule == .identifier)).map (·.text source))

/-! ## Types -/

def dimension (lead : Trivia) (pair : Pair) : Built Dimension := pair.walk source do
  let _ ← token .leftBracket
  let inner ← token .rightBracket
  return ⟨lead, inner⟩

def dimensions : Building (List Dimension) := all (nextIf .dimension) (dimension source)

def wildcardBound (lead : Trivia) (keyword : Pair) : Building WildcardBound := do
  let kind := if keyword.text source = "super" then BoundKind.lower else .upper
  let bound ← child .typeReference b.type
  return ⟨lead, kind, bound⟩

def wildcardType (lead : Trivia) (pair : Pair) : Built TypeTree := pair.walk source do
  let _ ← token .question
  let bound ← whenFound (nextIf .wildcardBound) (wildcardBound source b)
  return ⟨lead, .wildcard bound, none, [], none⟩

def typeArgument (lead : Trivia) (pair : Pair) : Built TypeTree :=
  match pair.rule with
  | .typeReference => b.type lead pair
  | .wildcardType => wildcardType source b lead pair
  | _ => pair.unexpected "a type argument"

def typeArguments (lead : Trivia) (pair : Pair) : Built (Delimited TypeTree) :=
  pair.walk source do
    let _ ← token .less
    let elements ← elements (nextUnless .greater "a type argument") (typeArgument source b)
    let close ← token .greater
    return ⟨lead, elements, close⟩

def primitive (pair : Pair) : Built Primitive :=
  match Primitive.ofKeyword? (pair.text source) with
  | some p => .ok p
  | none => pair.unexpected "a primitive type"

/-- A type in front of its brackets. A primitive type has its type already. That of a class is found
later. -/
def typeHead : Building (Trivia → List Dimension → TypeTree) := do
  let (_, head) ← expectAny "a type"
  match head.rule with
  | .primitiveType =>
    let p ← primitive source head
    return fun lead dimensions => primitiveArray lead p dimensions
  | .qualifiedName =>
    let name ← qualifiedName source head
    let arguments ← perhaps .typeArguments (typeArguments source b)
    return fun lead dimensions => ⟨lead, .named name, arguments, dimensions, none⟩
  | _ => head.unexpected "a type"

def typeReference (lead : Trivia) (pair : Pair) : Built TypeTree := pair.walk source do
  let head ← typeHead source b
  let dimensions ← dimensions source
  return head lead dimensions

end Build

end LosslessJava.Grammar
