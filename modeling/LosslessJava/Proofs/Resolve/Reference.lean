import LosslessJava.Proofs.Resolve.Alike
import LosslessJava.Proofs.Resolve.Imports
import LosslessJava.Proofs.Resolve.Surroundings
import LosslessJava.Proofs.Tree.Path
import LosslessJava.Tree.Access

/-!
# References and the classes that they denote

A reference is a node with a name that attribution looks up: a type, an annotation, or an expression
that is a dotted name and looks like that of a class. The name that is written is the end of the
fully qualified name that it denotes, since every stage of resolution finds a class by its simple
name, or takes the whole name.

* `Scope.suffix_of_resolve`: what is written ends the name that it denotes.
* `Node.reference?`, `Node.headClass?`: the name that is written at a node, and the class in the
  type that is attached there.
* `Node.headClass?_attributed`: attribution attaches to a reference what its name denotes.
* `suffix_of_reference`: so the name of a reference ends the name of its class, in every unit.
-/

namespace LosslessJava

/-! ## Resolution -/

namespace Scope

variable {s : Scope} {name : String} {n : QualifiedName} {c : ClassType}

theorem simpleName_of_imported {i : Import} (h : s.imported name i = some c) :
    c.simpleName = name := by
  have hname := (imported_eq_some h).2
  unfold imported at h
  split at h
  · cases h
  · rename_i hi
    simp only [Bool.not_eq_true, Bool.or_eq_false_iff, bne_eq_false_iff_eq] at hi
    rw [ClassType.simpleName, hname, hi.2]

/-- At every stage a simple name finds a class of that name. -/
theorem simpleName_of_resolveSimple (h : s.resolveSimple name = some c) : c.simpleName = name := by
  rcases resolveSimple_cases h with h | h | ⟨i, -, h⟩ | ⟨i, -, h⟩ | h
  · obtain ⟨owner, -, h⟩ := List.exists_of_findSome?_eq_some h
    split at h
    · rename_i hname
      cases h
      exact hname
    · split at h
      · cases h
        exact owner.simpleName_nested name
      · cases h
  · rw [fromPackage_eq_some h, ClassType.simpleName_topLevel]
  · exact simpleName_of_imported h
  · rw [ClassType.simpleName, (importedOnDemand_eq_some h).2, QualifiedName.simpleName_push]
  · rw [fromLanguage_eq_some h, ClassType.simpleName_topLevel]

/-- A name that is taken as fully qualified is the name of what it denotes. -/
theorem segments_of_resolveIndexed {length : Nat} (h : s.resolveIndexed n length = some c) :
    c.name.segments = n.segments := by
  induction length with
  | zero => cases h
  | succ length ih =>
    rw [resolveIndexed] at h
    split at h
    · rename_i known hknown
      cases h
      obtain ⟨m, hm, hfind⟩ := Option.bind_eq_some_iff.mp hknown
      have htake := (QualifiedName.take?_eq_some_iff.mp hm).2
      rw [ClassType.segments_nestedAlong, TypeIndex.name_of_find? hfind, htake,
        List.take_append_drop]
    · exact ih h

theorem name_of_resolveConventional (h : resolveConventional n = some c) : c.name = n := by
  simp only [resolveConventional] at h
  split at h
  · cases h
    rfl
  · cases h

/-- What is written ends the name of the class that it denotes. -/
theorem suffix_of_resolve (h : s.resolve n = some c) : n.segments <:+ c.name.segments := by
  unfold resolve at h
  split at h
  · rename_i first hfirst
    cases h
    have hhead := simpleName_of_resolveSimple hfirst
    refine ⟨first.name.segments.dropLast, ?_⟩
    calc first.name.segments.dropLast ++ n.segments
        = first.name.segments.dropLast ++ [first.simpleName] ++ n.segments.tail := by
          rw [hhead, List.append_assoc, List.singleton_append, List.cons_head_tail]
      _ = first.name.segments ++ n.segments.tail := by
          rw [ClassType.simpleName, QualifiedName.dropLast_append_simpleName]
      _ = (first.nestedAlong n.segments.tail).name.segments :=
          (first.segments_nestedAlong _).symm
  · rcases Option.or_eq_some_iff.mp h with h | ⟨-, h⟩
    · exact ⟨[], (segments_of_resolveIndexed h).symm⟩
    · exact ⟨[], congrArg QualifiedName.segments (name_of_resolveConventional h).symm⟩

end Scope

/-! ## Nodes with a name -/

namespace JavaType

/-- The class of the type, without its arguments and of an array that of its elements. -/
def headClass? : JavaType → Option ClassType
  | primitive _ => none
  | ofClass c => some c
  | array t => t.headClass?
  | parameterized c _ => some c

@[simp] theorem headClass?_ofClass (c : ClassType) : (ofClass c).headClass? = some c := rfl

@[simp] theorem headClass?_arrayOf (t : JavaType) (dimensions : Nat) :
    (t.arrayOf dimensions).headClass? = t.headClass? := by
  induction dimensions with
  | zero => rfl
  | succ dimensions ih => exact ih

@[simp] theorem headClass?_withArguments (c : ClassType)
    (arguments : Option (Delimited TypeTree)) :
    (c.withArguments arguments).headClass? = some c := by
  unfold ClassType.withArguments
  split
  · split <;> rfl
  · rfl

end JavaType

namespace Node

/-- The name that attribution looks up at the node. -/
def reference? : Node → Option QualifiedName
  | typeTree t => t.name?
  | modifier (.annotated _ _ name _ _) => some name
  | expression e => e.dottedName?.filter Scope.isClassLike
  | _ => none

/-- The class in the type that is attached to a type, an annotation or an expression. -/
def headClass? : Node → Option ClassType
  | typeTree t => t.type.bind JavaType.headClass?
  | modifier (.annotated _ _ _ _ type) => type.bind JavaType.headClass?
  | expression e => e.type?.bind JavaType.headClass?
  | _ => none

variable {n : Node} {name : QualifiedName}

theorem reference?_attributed (p : Surroundings) (n : Node) :
    (n.attributed p).reference? = n.reference? := by
  cases n with
  | typeTree t =>
    obtain ⟨lead, kind, arguments, dimensions, type⟩ := t
    rcases kind with _ | _ | (_ | ⟨_, _, _⟩) <;> rfl
  | modifier m =>
    cases m with
    | keyword => rfl
    | annotated _ _ _ arguments _ => cases arguments <;> rfl
  | expression e =>
    rw [attributed, reference?, reference?, Expression.dottedName?_attributed]
  | _ => rfl

/-- Attribution attaches to a reference what its name denotes at that place. -/
theorem headClass?_attributed (p : Surroundings) (h : n.reference? = some name) :
    (n.attributed p).headClass? = p.scope.resolve name := by
  have hclass : ((p.scope.resolve name).map .ofClass).bind JavaType.headClass? =
      p.scope.resolve name := by
    cases p.scope.resolve name <;> rfl
  cases n with
  | typeTree t =>
    obtain ⟨lead, kind, arguments, dimensions, type⟩ := t
    cases kind with
    | named m =>
      obtain rfl : m = name := Option.some.inj h
      rw [attributed, headClass?, TypeTree.attributed]
      cases p.scope.resolve m <;> simp
    | primitive => cases h
    | wildcard => cases h
  | modifier m =>
    cases m with
    | keyword => cases h
    | annotated lead nameLead m arguments type =>
      obtain rfl : m = name := Option.some.inj h
      cases arguments <;> exact hclass
  | expression e =>
    have hreference :
        p.scope.classReference e.dottedName? = (p.scope.resolve name).map .ofClass := by
      rw [Scope.classReference, show e.dottedName?.filter Scope.isClassLike = some name from h,
        Option.bind_some]
    rw [← hclass, ← hreference]
    cases e with
    | identifier => rfl
    | fieldAccess => rfl
    | _ => cases h
  | _ => cases h

end Node

/-! ## Units -/

/-- What a name denotes in a unit ends with that name and has a class name in it. The same holds
of every type, annotation and name of a class in the unit and of the class that attribution attaches
to it, at any depth of classes. -/
theorem suffix_of_reference (u : CompilationUnit) (index : TypeIndex) (implicitLanguage : Bool) :
    (∀ n c, u.resolve index implicitLanguage n = some c →
      n.segments <:+ c.name.segments ∧ c.classSegments ≠ []) ∧
    ∀ m, Node.Within m (.unit (u.attributed index implicitLanguage)) →
      ∀ n c, m.reference? = some n → m.headClass? = some c →
        n.segments <:+ c.name.segments ∧ c.classSegments ≠ [] := by
  refine ⟨fun n c h => ⟨Scope.suffix_of_resolve h, c.classSegments_ne_nil⟩, ?_⟩
  intro m hm n c hn hc
  have hunit : Node.unit (u.attributed index implicitLanguage) =
      (Node.unit u).attributed ⟨.ofUnit index implicitLanguage u, none⟩ := rfl
  rw [hunit] at hm
  obtain ⟨q, m₀, -, rfl⟩ := Node.within_attributed_iff.mp hm
  rw [Node.reference?_attributed] at hn
  rw [Node.headClass?_attributed q hn] at hc
  exact ⟨Scope.suffix_of_resolve hc, c.classSegments_ne_nil⟩

/-- A class that is nested in an imported one, in the type of a field. -/
theorem suffix_of_reference_nested :
    ∃ (u : CompilationUnit) (m : Node) (n : QualifiedName) (c : ClassType),
      Node.Within m (.unit (u.attributed .empty true)) ∧ m.reference? = some n ∧
      m.headClass? = some c ∧ n.segments = ["Outer", "Inner"] ∧
      c.name.segments = ["q", "Outer", "Inner"] ∧
      n.segments <:+ c.name.segments ∧ c.classSegments ≠ [] := by
  let n : QualifiedName := ⟨["Outer", "Inner"], by simp⟩
  let c : ClassType := .fromConvention ⟨["q", "Outer", "Inner"], by simp⟩
  let type : TypeTree := ⟨.empty, .named n, none, [⟨.empty, .empty⟩], none⟩
  let body : ClassBody := ⟨.space, [.field ⟨.space, [], type, [], some .empty⟩], .space⟩
  let d : ClassDeclaration :=
    ⟨.space, [], .empty, .ordinary, ⟨.space, "A", none⟩, none, none, body, none⟩
  let u : CompilationUnit :=
    ⟨none, none, [.build ⟨["q", "Outer"], by simp⟩ false false], [d], .empty⟩
  obtain ⟨m, hm⟩ : ∃ m, (Node.unit (u.attributed .empty true)).at? [1, 1, 0, 0, 0] = some m :=
    ⟨_, rfl⟩
  have hn : m.reference? = some n := by cases hm; rfl
  have hc : m.headClass? = some c := by cases hm; decide +kernel
  have hwithin := Node.within_iff_at?.mpr ⟨_, hm⟩
  exact ⟨u, m, n, c, hwithin, hn, hc, rfl, rfl,
    (suffix_of_reference u .empty true).2 m hwithin n c hn hc⟩

end LosslessJava
