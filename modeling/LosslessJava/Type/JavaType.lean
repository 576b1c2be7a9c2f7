import LosslessJava.Type.ClassType
import LosslessJava.Type.Primitive

/-!
# Types of nodes

The types that attribution attaches to nodes of a tree.
-/

namespace LosslessJava

inductive JavaType where
  | primitive (primitive : Primitive)
  | ofClass (type : ClassType)
  | array (element : JavaType)
  | parameterized (type : ClassType) (arguments : List JavaType)

namespace JavaType

/-- The class of the type, without its arguments. -/
def asClass? : JavaType → Option ClassType
  | ofClass c => some c
  | parameterized c _ => some c
  | primitive _ => none
  | array _ => none

def asPrimitive? : JavaType → Option Primitive
  | primitive p => some p
  | _ => none

def qualifiedName? (t : JavaType) : Option QualifiedName := t.asClass?.map ClassType.name

/-- The type in `dimensions` levels of arrays. -/
def arrayOf (t : JavaType) : Nat → JavaType
  | 0 => t
  | n + 1 => array (t.arrayOf n)

mutual

/-- The type as it is written in a report. -/
def text : JavaType → String
  | primitive p => p.keyword
  | ofClass c => c.name.text
  | array t => t.text ++ "[]"
  | parameterized c arguments => c.name.text ++ "<" ++ textList arguments ++ ">"

/-- The types with commas between them. -/
def textList : List JavaType → String
  | [] => ""
  | [t] => t.text
  | t :: u :: rest => t.text ++ ", " ++ textList (u :: rest)

end

/-! ## Equality -/

mutual

def same : JavaType → JavaType → Bool
  | primitive p, primitive q => p == q
  | ofClass c, ofClass d => c == d
  | array t, array u => same t u
  | parameterized c ts, parameterized d us => c == d && sameList ts us
  | _, _ => false

def sameList : List JavaType → List JavaType → Bool
  | [], [] => true
  | t :: ts, u :: us => same t u && sameList ts us
  | _, _ => false

end

instance : BEq JavaType := ⟨same⟩

mutual

theorem same_iff : ∀ t u : JavaType, same t u = true ↔ t = u
  | primitive _, u => by cases u <;> simp [same]
  | ofClass _, u => by cases u <;> simp [same]
  | array t, u => by cases u <;> simp [same, same_iff t]
  | parameterized _ ts, u => by cases u <;> simp [same, sameList_iff ts]

theorem sameList_iff : ∀ ts us : List JavaType, sameList ts us = true ↔ ts = us
  | [], us => by cases us <;> simp [sameList]
  | t :: ts, us => by cases us <;> simp [sameList, same_iff t, sameList_iff ts]

end

instance : LawfulBEq JavaType where
  eq_of_beq h := (same_iff _ _).mp h
  rfl := (same_iff _ _).mpr rfl

end JavaType

end LosslessJava
