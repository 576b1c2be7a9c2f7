import LosslessJava.Tree.Keyword
import LosslessJava.Tree.Separated
import LosslessJava.Type.JavaType

/-!
# Types as written

`int`, `java.util.List<String>[]` and `? extends T`, with their trivia.
-/

namespace LosslessJava

/-- A pair of brackets. -/
structure Dimension where
  lead : Trivia
  /-- The trivia in front of the closing bracket. -/
  inner : Trivia
deriving DecidableEq

mutual

/-- A type as written, with the type that attribution found for it. -/
structure TypeTree where
  lead : Trivia
  kind : TypeTreeKind
  arguments : Option (Delimited TypeTree)
  dimensions : List Dimension
  type : Option JavaType

inductive TypeTreeKind where
  | primitive (primitive : Primitive)
  | named (name : QualifiedName)
  | wildcard (bound : Option WildcardBound)

/-- The bound of a wildcard, such as `extends T`. -/
structure WildcardBound where
  lead : Trivia
  kind : BoundKind
  bound : TypeTree

end

/-- The types of an `extends`, `implements` or `throws` clause. -/
structure TypeList where
  /-- The trivia in front of the keyword. -/
  lead : Trivia
  types : List (Padded TypeTree)

namespace TypeTree

def withLead (lead : Trivia) (t : TypeTree) : TypeTree := { t with lead }

def ofPrimitive (p : Primitive) : TypeTree :=
  ⟨.empty, .primitive p, none, [], some (.primitive p)⟩

def ofName (name : QualifiedName) : TypeTree := ⟨.empty, .named name, none, [], none⟩

/-- The written name of a type that is neither primitive nor a wildcard. -/
def name? (t : TypeTree) : Option QualifiedName :=
  match t.kind with
  | .named name => some name
  | _ => none

end TypeTree

/-! ## Equality -/

mutual

def TypeTree.same : TypeTree → TypeTree → Bool
  | ⟨lead, kind, arguments, dimensions, type⟩, ⟨lead', kind', arguments', dimensions', type'⟩ =>
    lead == lead' && TypeTreeKind.same kind kind' && TypeTree.sameArguments arguments arguments' &&
      dimensions == dimensions' && type == type'

def TypeTree.sameArguments : Option (Delimited TypeTree) → Option (Delimited TypeTree) → Bool
  | none, none => true
  | some ⟨before, elements, close⟩, some ⟨before', elements', close'⟩ =>
    before == before' && TypeTree.sameElements elements elements' && close == close'
  | _, _ => false

def TypeTree.sameElements : List (Padded TypeTree) → List (Padded TypeTree) → Bool
  | [], [] => true
  | ⟨t, after⟩ :: ts, ⟨t', after'⟩ :: ts' =>
    TypeTree.same t t' && after == after' && TypeTree.sameElements ts ts'
  | _, _ => false

def TypeTreeKind.same : TypeTreeKind → TypeTreeKind → Bool
  | .primitive p, .primitive q => p == q
  | .named n, .named m => n == m
  | .wildcard none, .wildcard none => true
  | .wildcard (some ⟨lead, kind, bound⟩), .wildcard (some ⟨lead', kind', bound'⟩) =>
    lead == lead' && kind == kind' && TypeTree.same bound bound'
  | _, _ => false

end

instance : BEq TypeTree := ⟨TypeTree.same⟩

instance : BEq TypeList :=
  ⟨fun a b => a.lead == b.lead && TypeTree.sameElements a.types b.types⟩

end LosslessJava
