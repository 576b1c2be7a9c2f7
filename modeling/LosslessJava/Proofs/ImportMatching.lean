import LosslessJava.Imports
import LosslessJava.Proofs.Type.ClassType
import Mathlib.Data.List.TakeWhile

/-!
# The classes that an import matches

An import of a whole package matches by the package of a class, so it treats a class and the classes
nested in it alike. Every other import matches the one class that it is of. A dotted text says which
class is meant, but not where its package ends; by convention that is where the lower-case segments
end.

* `Import.isFromClass_of_package`, `Import.isFromClass_of_class`: the two kinds of imports.
* `isFromClass_iff`: what an import matches, among classes and among dotted texts.
-/

namespace LosslessJava

/-! ## The package of a dotted text -/

namespace QualifiedName

variable {n : QualifiedName}

theorem conventionalPackageLength_lt_iff :
    n.conventionalPackageLength < n.segments.length ↔
      ∃ w ∈ n.segments, isPackageLike w = false := by
  have hle := (List.takeWhile_prefix isPackageLike (l := n.segments)).length_le
  have hall : n.conventionalPackageLength = n.segments.length ↔
      ∀ w ∈ n.segments, isPackageLike w = true := by
    rw [conventionalPackageLength, ← List.takeWhile_eq_self_iff]
    exact ⟨(List.takeWhile_prefix _).eq_of_length, congrArg List.length⟩
  rw [Nat.lt_iff_le_and_ne, ne_eq, hall]
  simp only [not_forall, Bool.not_eq_true, exists_prop]
  exact and_iff_right hle

/-- A name with a class in it keeps the package that it has by convention. -/
theorem packageLength_fromConvention (h : ∃ w ∈ n.segments, isPackageLike w = false) :
    (ClassType.fromConvention n).packageLength = n.conventionalPackageLength := by
  have hlt := conventionalPackageLength_lt_iff.mpr h
  exact Nat.min_eq_left (by omega)

end QualifiedName

namespace Import

variable {i : Import} {c : ClassType} {n : QualifiedName} {text : String}

/-! ## Imports of packages and of classes -/

/-- The import is of all classes of a package. -/
def OfPackage (i : Import) : Prop := i.isStatic = false ∧ i.wildcard = true

theorem typeName?_of_package (h : i.OfPackage) : i.typeName? = none := by
  simp [typeName?, h.1, h.2]

/-- An import of a package matches the classes in it. -/
theorem isFromClass_of_package (h : i.OfPackage) :
    i.isFromClass c = true ↔ c.packageName = some i.name := by
  rw [ClassType.packageName_eq_some_iff, ClassType.packageSegments, isFromClass, bringsIntoScope,
    h.1, h.2]
  simp only [c.packageLength_lt, decide_true, Bool.true_and, beq_iff_eq]
  exact eq_comm

/-- Any other import matches by the name alone. -/
theorem bringsIntoScope_of_class (h : ¬ i.OfPackage) (packageLength : Nat) :
    i.bringsIntoScope n packageLength = true ↔ i.typeName? = some n := by
  unfold OfPackage at h
  unfold bringsIntoScope typeName?
  cases hstatic : i.isStatic <;> cases hwildcard : i.wildcard <;> simp_all

theorem isFromClass_of_class (h : ¬ i.OfPackage) :
    i.isFromClass c = true ↔ i.typeName? = some c.name :=
  bringsIntoScope_of_class h c.packageLength

/-- Classes of one package are matched by the same imports of packages. -/
theorem isFromClass_congr {d : ClassType} (h : i.OfPackage) (hcd : c.packageName = d.packageName) :
    i.isFromClass c = i.isFromClass d := by
  rw [Bool.eq_iff_iff, isFromClass_of_package h, isFromClass_of_package h, hcd]

/-- An import that matches a class by its name matches none that is nested in it. -/
theorem isFromClass_nestedAlong (h : ¬ i.OfPackage) (hc : i.isFromClass c = true)
    {path : List String} (hpath : path ≠ []) : i.isFromClass (c.nestedAlong path) = false := by
  rw [Bool.eq_false_iff]
  intro hnested
  rw [isFromClass_of_class h] at hc hnested
  have hname : c.name = (c.nestedAlong path).name := Option.some.inj (hc.symm.trans hnested)
  have hsegments := congrArg QualifiedName.segments hname
  rw [ClassType.segments_nestedAlong, List.self_eq_append_right] at hsegments
  exact hpath hsegments

/-! ## Dotted texts -/

theorem isFromType_eq (i : Import) (text : String) :
    i.isFromType text = (QualifiedName.parse text).map fun n =>
      i.bringsIntoScope n n.conventionalPackageLength := by
  unfold isFromType
  cases QualifiedName.parse text <;> rfl

theorem isFromType_of_ok (h : QualifiedName.parse text = .ok n) :
    i.isFromType text = .ok (i.bringsIntoScope n n.conventionalPackageLength) := by
  rw [isFromType_eq, h]
  rfl

/-- Without a segment that looks like a class, a text is of no class of a package. -/
theorem bringsIntoScope_of_packageLike (h : i.OfPackage)
    (hn : ∀ w ∈ n.segments, QualifiedName.isPackageLike w = true) :
    i.bringsIntoScope n n.conventionalPackageLength = false := by
  have hlength : ¬ n.conventionalPackageLength < n.segments.length := by
    rw [QualifiedName.conventionalPackageLength_lt_iff]
    rintro ⟨w, hw, hlike⟩
    rw [hn w hw] at hlike
    cases hlike
  simp [bringsIntoScope, h.1, h.2, hlength]

end Import

/-- An import matches the class that it is of, or the classes of the package that it is of. So one
of a package treats a class like its outermost class and like the classes nested in it, and one of a
class that matches a class matches none nested in it. A dotted text is matched as the class of that
name is, with its package by convention; it must be a name, and an import of a package matches no
text without a segment that looks like a class. -/
theorem isFromClass_iff (i : Import) :
    (∀ c : ClassType, i.isFromClass c = true ↔
      i.typeName? = some c.name ∨ i.OfPackage ∧ c.packageName = some i.name) ∧
    (i.OfPackage → ∀ c : ClassType, i.isFromClass c.outermost = i.isFromClass c ∧
      ∀ path, i.isFromClass (c.nestedAlong path) = i.isFromClass c) ∧
    (¬ i.OfPackage → ∀ c : ClassType, i.isFromClass c = true →
      ∀ path, path ≠ [] → i.isFromClass (c.nestedAlong path) = false) ∧
    ∀ text, (∀ e, QualifiedName.parse text = .error e → i.isFromType text = .error e) ∧
      ∀ n, QualifiedName.parse text = .ok n →
        ((∃ w ∈ n.segments, QualifiedName.isPackageLike w = false) →
          i.isFromType text = .ok (i.isFromClass (.fromConvention n))) ∧
        ((∀ w ∈ n.segments, QualifiedName.isPackageLike w = true) → i.OfPackage →
          i.isFromType text = .ok false) := by
  refine ⟨fun c => ?_, fun h c => ⟨?_, fun path => ?_⟩, fun h c hc path hpath => ?_, fun text =>
    ⟨fun e he => ?_, fun n hn => ⟨fun hclass => ?_, fun hlike h => ?_⟩⟩⟩
  · by_cases h : i.OfPackage
    · simp [Import.isFromClass_of_package h, Import.typeName?_of_package h, h]
    · simp [Import.isFromClass_of_class h, h]
  · exact Import.isFromClass_congr h c.packageName_outermost
  · exact Import.isFromClass_congr h (c.packageName_nestedAlong path)
  · exact Import.isFromClass_nestedAlong h hc hpath
  · rw [Import.isFromType_eq, he]
    rfl
  · rw [Import.isFromType_of_ok hn, Import.isFromClass,
      QualifiedName.packageLength_fromConvention hclass]
    rfl
  · rw [Import.isFromType_of_ok hn, Import.bringsIntoScope_of_packageLike h hlike]

/-- The classes of a package, and a text whose package is not where its lower-case segments end. -/
theorem isFromClass_iff_nested :
    ∃ (i j : Import) (c : ClassType) (n : QualifiedName), i.OfPackage ∧ ¬ j.OfPackage ∧
      i.isFromClass c = true ∧ i.isFromClass (c.nestedAlong ["Part", "piece"]) = true ∧
      j.isFromClass c = true ∧ j.isFromClass (c.nestedAlong ["Part", "piece"]) = false ∧
      QualifiedName.parse "p.Lib.item" = .ok n ∧ i.isFromType "p.Lib.item" = .ok false ∧
      j.isFromType "p..item" = .error (.invalidSegment "p..item" "") := by
  let p : QualifiedName := ⟨["p", "Lib"], by simp⟩
  let n : QualifiedName := ⟨["p", "Lib", "item"], by simp⟩
  let i : Import := .build p false true
  let j : Import := .build (n.push "make") true false
  let c : ClassType := ⟨n, 2, by simp [n]⟩
  have hi : i.OfPackage := ⟨rfl, rfl⟩
  have hj : ¬ j.OfPackage := fun h => Bool.noConfusion h.2
  obtain ⟨hmatch, hnested, -, htext⟩ := isFromClass_iff i
  obtain ⟨hmatch', -, hnested', htext'⟩ := isFromClass_iff j
  have hci : i.isFromClass c = true := (hmatch c).mpr (.inr ⟨hi, by decide⟩)
  have hcj : j.isFromClass c = true := (hmatch' c).mpr (.inl (by decide))
  have hn : QualifiedName.parse "p.Lib.item" = .ok n := by decide +kernel
  have hclass : ∃ w ∈ n.segments, QualifiedName.isPackageLike w = false :=
    ⟨"Lib", by decide, by decide +kernel⟩
  have hconvention : i.isFromClass (.fromConvention n) = false := by decide +kernel
  refine ⟨i, j, c, n, hi, hj, hci, ?_, hcj, hnested' hj c hcj _ (by simp), hn, ?_, ?_⟩
  · rw [(hnested hi c).2, hci]
  · rw [((htext _).2 n hn).1 hclass, hconvention]
  · exact (htext' _).1 _ (by decide +kernel)

end LosslessJava
