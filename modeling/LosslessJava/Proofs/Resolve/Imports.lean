import LosslessJava.Imports
import LosslessJava.Proofs.Resolve.TypeIndex
import LosslessJava.Proofs.Type.ClassType
import LosslessJava.Resolve.Attribution

/-!
# Imports and the classes that simple names denote

Whether an import matches a class is said by comparing names. Which class a simple name denotes is
found by looking up candidates. Both agree on classes that are not nested.

* `resolve_single_cases`: all ways in which a name of one segment denotes a class outside other
  classes.
* `resolve_single_iff_imported`: a class of another package is found through an import that matches
  it, and a class that an import matches makes its simple name denote something.
-/

namespace LosslessJava

/-! ## Imports as stages of resolution -/

namespace Scope

variable {s : Scope} {name : String} {c : ClassType} {i : Import}

theorem imported_eq_some (h : s.imported name i = some c) : i.wildcard = false ∧ c.name = i.name := by
  unfold imported at h
  split at h
  · cases h
  · rename_i hi
    simp only [Bool.or_eq_true, not_or, Bool.not_eq_true] at hi
    refine ⟨hi.1, ?_⟩
    split at h
    · rename_i known hknown
      cases h
      exact TypeIndex.name_of_find? hknown
    · split at h
      · cases h
      · cases h
        rfl

theorem importedOnDemand_eq_some (h : s.importedOnDemand name i = some c) :
    i.wildcard = true ∧ c.name = i.name.push name := by
  unfold importedOnDemand at h
  split at h
  · rename_i hi
    exact ⟨hi, TypeIndex.name_of_find? h⟩
  · cases h

theorem fromPackage_eq_some (h : s.fromPackage name = some c) :
    c = .topLevel s.package name := by
  simp only [fromPackage] at h
  split at h
  · exact (Option.some.inj h).symm
  · cases h

theorem fromLanguage_eq_some (h : s.fromLanguage name = some c) :
    c = .topLevel (some languagePackage) name := by
  simp only [fromLanguage] at h
  split at h
  · exact (Option.some.inj h).symm
  · cases h

/-- The stages at which a simple name can find a class. -/
theorem resolveSimple_cases (h : s.resolveSimple name = some c) :
    s.fromEnclosing name = some c ∨ s.fromPackage name = some c ∨
      (∃ i ∈ s.imports, s.imported name i = some c) ∨
      (∃ i ∈ s.imports, s.importedOnDemand name i = some c) ∨ s.fromLanguage name = some c := by
  rcases Option.or_eq_some_iff.mp h with h | ⟨-, h⟩
  · exact Or.inl h
  rcases Option.or_eq_some_iff.mp h with h | ⟨-, h⟩
  · exact Or.inr (Or.inl h)
  rcases Option.or_eq_some_iff.mp h with h | ⟨-, h⟩
  · exact Or.inr (Or.inr (Or.inl (List.exists_of_findSome?_eq_some h)))
  rcases Option.or_eq_some_iff.mp h with h | ⟨-, h⟩
  · exact Or.inr (Or.inr (Or.inr (Or.inl (List.exists_of_findSome?_eq_some h))))
  · exact Or.inr (Or.inr (Or.inr (Or.inr h)))

/-- One import that finds a class is enough for the name to find one. -/
theorem isSome_resolveSimple_of_import (hi : i ∈ s.imports)
    (h : (s.imported name i).isSome ∨ (s.importedOnDemand name i).isSome) :
    (s.resolveSimple name).isSome := by
  have hsome : (s.imports.findSome? (s.imported name)).isSome ∨
      (s.imports.findSome? (s.importedOnDemand name)).isSome := by
    simp only [List.findSome?_isSome_iff]
    exact h.imp (fun h => ⟨i, hi, h⟩) fun h => ⟨i, hi, h⟩
  rw [resolveSimple]
  rcases hsome with hsome | hsome <;> simp [Option.isSome_or, hsome]

/-- A name of one segment is only looked up as a simple name and as a fully qualified one. -/
theorem resolve_single (s : Scope) (name : String) :
    s.resolve (.single name) = (s.resolveSimple name).or (s.index.find? (.single name)) := by
  have hindexed : s.resolveIndexed (.single name) 1 = s.index.find? (.single name) := by
    have htake : (QualifiedName.single name).take? 1 = some (.single name) := rfl
    simp only [resolveIndexed, htake, Option.bind_some]
    cases s.index.find? (.single name) <;> rfl
  have hconventional : resolveConventional (.single name) = none := by
    have hlength : (QualifiedName.single name).segments.length = 1 := rfl
    rw [resolveConventional, hlength, if_neg]
    omega
  rw [resolve, show (QualifiedName.single name).segments.length = 1 from rfl, hindexed,
    hconventional, Option.or_none]
  have hhead :
      (QualifiedName.single name).segments.head (QualifiedName.single name).segments_ne_nil = name :=
    rfl
  rw [hhead]
  cases s.resolveSimple name <;> rfl

end Scope

/-! ## Agreement -/

namespace CompilationUnit

variable {u : CompilationUnit} {index : TypeIndex} {implicitLanguage : Bool} {name : String}
  {c : ClassType}

/-- A name of one segment denotes a class of the package, a class that an import brings in, a class
of the implicitly imported package, or else a class of the unnamed package. -/
theorem resolve_single_cases (h : u.resolve index implicitLanguage (.single name) = some c) :
    c = .topLevel u.packageName name ∨
      (∃ i ∈ u.imports, i.wildcard = false ∧ c.name = i.name) ∨
      (∃ i ∈ u.imports, i.wildcard = true ∧ c.name = i.name.push name) ∨
      c = .topLevel (some languagePackage) name ∨ c.name = .single name := by
  rw [resolve, Scope.resolve_single] at h
  rcases Option.or_eq_some_iff.mp h with h | ⟨-, h⟩
  · rcases Scope.resolveSimple_cases h with h | h | ⟨i, hi, h⟩ | ⟨i, hi, h⟩ | h
    · cases h
    · exact Or.inl (Scope.fromPackage_eq_some h)
    · exact Or.inr (Or.inl ⟨i, hi, Scope.imported_eq_some h⟩)
    · exact Or.inr (Or.inr (Or.inl ⟨i, hi, Scope.importedOnDemand_eq_some h⟩))
    · exact Or.inr (Or.inr (Or.inr (Or.inl (Scope.fromLanguage_eq_some h))))
  · exact Or.inr (Or.inr (Or.inr (Or.inr (TypeIndex.name_of_find? h))))

end CompilationUnit

namespace Import

variable {i : Import} {c : ClassType}

/-- An import of a class matches that class. -/
theorem isFromClass_of_name (hs : i.isStatic = false) (hw : i.wildcard = false)
    (h : c.name = i.name) : i.isFromClass c = true := by
  simp [isFromClass, bringsIntoScope, hs, hw, h]

/-- An import on demand matches the classes of its package. -/
theorem isFromClass_of_push {name : String} (hs : i.isStatic = false) (hw : i.wildcard = true)
    (hc : c.isNested = false) (h : c.name = i.name.push name) : i.isFromClass c = true := by
  have hlength := c.length_of_not_isNested hc
  have htake : c.name.segments.take c.packageLength = i.name.segments := by
    have hpackage : c.packageLength = i.name.segments.length := by
      simp only [h, QualifiedName.push, List.length_append, List.length_cons,
        List.length_nil] at hlength
      omega
    rw [hpackage, h, QualifiedName.push, List.take_left]
  simp [isFromClass, bringsIntoScope, hs, hw, htake, c.packageLength_lt]

/-- What an import that matches a class looks up under the simple name of the class. -/
theorem candidate_of_isFromClass (hs : i.isStatic = false) (hc : c.isNested = false)
    (h : i.isFromClass c = true) :
    i.wildcard = false ∧ i.name = c.name ∨ i.wildcard = true ∧ i.name.push c.simpleName = c.name := by
  unfold isFromClass bringsIntoScope at h
  rw [hs] at h
  cases hw : i.wildcard with
  | false =>
    simp only [hw, beq_iff_eq] at h
    exact Or.inl ⟨rfl, h⟩
  | true =>
    simp only [hw, Bool.and_eq_true, beq_iff_eq] at h
    refine Or.inr ⟨rfl, ?_⟩
    have hsegments := c.segments_of_not_isNested hc
    rw [ClassType.packageSegments, h.2] at hsegments
    cases hname : c.name
    simp only [hname] at hsegments
    simp [QualifiedName.push, hsegments]

end Import

/-- Without static imports, resolution and the imports agree on classes that are not nested. A class
of a package other than the unit's own and the implicitly imported one is found only where an import
matches it. And where an import matches a class of the index, its simple name denotes a class. -/
theorem resolve_single_iff_imported {u : CompilationUnit}
    (hu : ∀ i ∈ u.imports, i.isStatic = false) (index : TypeIndex) (implicitLanguage : Bool)
    (name : String) :
    (∀ c p, u.resolve index implicitLanguage (.single name) = some c → c.isNested = false →
      c.packageName = some p → u.packageName ≠ some p → p ≠ languagePackage →
        ∃ i ∈ u.imports, i.isFromClass c = true) ∧
    (∀ c ∈ index.types, c.isNested = false → c.simpleName = name →
      (∃ i ∈ u.imports, i.isFromClass c = true) →
        (u.resolve index implicitLanguage (.single name)).isSome) := by
  constructor
  · intro c p h hc hp hown hlanguage
    rcases CompilationUnit.resolve_single_cases h with rfl | ⟨i, hi, hw, hname⟩ |
      ⟨i, hi, hw, hname⟩ | rfl | hname
    · rw [ClassType.packageName_topLevel] at hp
      exact absurd hp hown
    · exact ⟨i, hi, Import.isFromClass_of_name (hu i hi) hw hname⟩
    · exact ⟨i, hi, Import.isFromClass_of_push (hu i hi) hw hc hname⟩
    · rw [ClassType.packageName_topLevel] at hp
      exact absurd (Option.some.inj hp).symm hlanguage
    · rw [ClassType.packageName_eq_none_of_single hname] at hp
      cases hp
  · rintro c hmem hc rfl ⟨i, hi, h⟩
    have hknown := TypeIndex.isSome_find?_of_mem hmem
    rw [CompilationUnit.resolve, Scope.resolve_single, Option.isSome_or, Bool.or_eq_true]
    refine Or.inl (Scope.isSome_resolveSimple_of_import hi ?_)
    rcases Import.candidate_of_isFromClass (hu i hi) hc h with ⟨hw, hname⟩ | ⟨hw, hname⟩
    · obtain ⟨known, hknown⟩ := Option.isSome_iff_exists.mp hknown
      left
      simp [Scope.imported, Scope.ofUnit, hw, hname, hknown, ClassType.simpleName]
    · right
      simpa [Scope.importedOnDemand, Scope.ofUnit, hw, hname] using hknown

/-- An import on demand brings in an indexed class, past an import of another class. -/
theorem resolve_single_iff_imported_onDemand :
    ∃ (u : CompilationUnit) (index : TypeIndex) (c : ClassType),
      (∀ i ∈ u.imports, i.isStatic = false) ∧ c ∈ index.types ∧ c.isNested = false ∧
      u.resolve index true (.single "List") = some c ∧
      (∃ i ∈ u.imports, i.isFromClass c = true) ∧
      (u.resolve index true (.single "List")).isSome := by
  let javaUtil : QualifiedName := ⟨["java", "util"], by simp⟩
  let u : CompilationUnit := ⟨none, some (.build (.single "app")),
    [.build ⟨["app", "model", "Item"], by simp⟩ false false, .build javaUtil false true], [],
    .empty⟩
  let c : ClassType := .topLevel (some javaUtil) "List"
  have hu : ∀ i ∈ u.imports, i.isStatic = false := by decide
  have hfound : u.resolve ⟨[c]⟩ true (.single "List") = some c := by decide +kernel
  obtain ⟨hsound, hcomplete⟩ := resolve_single_iff_imported hu ⟨[c]⟩ true "List"
  have himport := hsound c javaUtil hfound (by decide) (by decide) (by decide) (by decide)
  exact ⟨u, ⟨[c]⟩, c, hu, List.mem_singleton_self c, by decide, hfound, himport,
    hcomplete c (List.mem_singleton_self c) (by decide) rfl himport⟩

end LosslessJava
