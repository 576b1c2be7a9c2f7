import LosslessJava.Proofs.Resolve.Places
import LosslessJava.Proofs.Resolve.Reference

/-!
# Imports that are added to a unit

A simple name is looked up in the classes around a place, in the package, in single imports and in
imports on demand, in this order. So imports that are added to a unit take no reference away from
what comes before them.

* `Scope.Binds`, `Import.Brings`: a class around a place or in the package has the name, or one is
  brought in by an import.
* `Scope.resolveSimple_of_binds`, `Scope.resolveSimple_of_brings`: what the name denotes with other
  imports.
* `keepsClass_added_imports`: the references of a unit keep their classes.
-/

namespace LosslessJava

/-! ## Simple names -/

/-- The import brings in a class of the name: it is an import of a class of this name, which is
indexed unless the import is not static, or it is on demand and an indexed class lies there. -/
def Import.Brings (index : TypeIndex) (name : String) (i : Import) : Prop :=
  i.wildcard = false ∧ i.name.simpleName = name ∧
      (i.isStatic = false ∨ index.contains i.name = true) ∨
    i.wildcard = true ∧ index.contains (i.name.push name) = true

namespace Scope

variable {s : Scope} {name : String}

/-- The name is that of a class around the place, of an indexed member class of one, or of an
indexed class of the package. -/
def Binds (s : Scope) (name : String) : Prop :=
  (∃ owner ∈ s.enclosing,
      owner.simpleName = name ∨ s.index.contains (owner.nested name).name = true) ∨
    s.index.contains (ClassType.topLevel s.package name).name = true

theorem isSome_local_iff :
    ((s.fromEnclosing name).or (s.fromPackage name)).isSome = true ↔ s.Binds name := by
  have howner : ∀ owner : ClassType, (if owner.simpleName = name then some owner
      else if s.index.contains (owner.nested name).name = true then some (owner.nested name)
      else none).isSome = true ↔
        owner.simpleName = name ∨ s.index.contains (owner.nested name).name = true := by
    intro owner
    by_cases hname : owner.simpleName = name
    · simp [hname]
    · by_cases hindexed : s.index.contains (owner.nested name).name = true <;>
        simp [hname, hindexed]
  rw [Option.isSome_or, Bool.or_eq_true, Binds, fromEnclosing, List.findSome?_isSome_iff]
  simp only [howner]
  refine or_congr_right ?_
  simp [fromPackage]

theorem isSome_imported_iff {i : Import} :
    (s.imported name i).isSome = true ∨ (s.importedOnDemand name i).isSome = true ↔
      i.Brings s.index name := by
  cases hw : i.wildcard with
  | true => simp [imported, importedOnDemand, Import.Brings, hw, TypeIndex.contains_eq]
  | false =>
    by_cases hname : i.name.simpleName = name
    · cases hfind : s.index.find? i.name <;>
        simp [imported, importedOnDemand, Import.Brings, hw, hname, TypeIndex.contains_eq, hfind]
    · simp [imported, importedOnDemand, Import.Brings, hw, hname]

theorem resolveSimple_eq (s : Scope) (name : String) : s.resolveSimple name =
    ((s.fromEnclosing name).or (s.fromPackage name)).or
      ((s.imports.findSome? (s.imported name)).or
        ((s.imports.findSome? (s.importedOnDemand name)).or (s.fromLanguage name))) :=
  (Option.or_assoc ..).symm

/-- A class around the place or in the package is found before any import. -/
theorem resolveSimple_of_binds (h : s.Binds name) (imports : List Import) :
    ∃ c, s.resolveSimple name = some c ∧ resolveSimple { s with imports } name = some c := by
  obtain ⟨c, hc⟩ := Option.isSome_iff_exists.mp (isSome_local_iff.mpr h)
  refine ⟨c, ?_, ?_⟩
  · rw [resolveSimple_eq, hc, Option.some_or]
  · have hlocal : (fromEnclosing { s with imports } name).or (fromPackage { s with imports } name) =
        (s.fromEnclosing name).or (s.fromPackage name) := rfl
    rw [resolveSimple_eq, hlocal, hc, Option.some_or]

/-- What an import brings in is found before what is imported on demand behind it. -/
theorem resolveSimple_of_brings (h : ∃ i ∈ s.imports, i.Brings s.index name)
    {added : List Import} (hadded : ∀ i ∈ added, i.wildcard = true) :
    ∃ c, s.resolveSimple name = some c ∧
      resolveSimple { s with imports := s.imports ++ added } name = some c := by
  have hsome : ((s.imports.findSome? (s.imported name)).or
      (s.imports.findSome? (s.importedOnDemand name))).isSome = true := by
    obtain ⟨i, hi, h⟩ := h
    rw [Option.isSome_or, Bool.or_eq_true, List.findSome?_isSome_iff, List.findSome?_isSome_iff]
    exact (isSome_imported_iff.mpr h).imp (fun h => ⟨i, hi, h⟩) fun h => ⟨i, hi, h⟩
  have hnone : added.findSome? (s.imported name) = none :=
    List.findSome?_eq_none_iff.mpr fun i hi => by simp [imported, hadded i hi]
  have hfound : (((s.fromEnclosing name).or (s.fromPackage name)).or
      ((s.imports.findSome? (s.imported name)).or
        (s.imports.findSome? (s.importedOnDemand name)))).isSome = true := by
    rw [Option.isSome_or, hsome, Bool.or_true]
  obtain ⟨c, hc⟩ := Option.isSome_iff_exists.mp hfound
  -- whatever is looked up behind the imports of the scope
  have hstages : ∀ last : Option ClassType,
      ((s.fromEnclosing name).or (s.fromPackage name)).or
        ((s.imports.findSome? (s.imported name)).or
          ((s.imports.findSome? (s.importedOnDemand name)).or last)) = some c := by
    intro last
    have hassoc := congrArg (Option.or · last) hc
    simpa only [Option.or_assoc, Option.some_or] using hassoc
  refine ⟨c, by rw [resolveSimple_eq, hstages], ?_⟩
  have hadded := hstages ((added.findSome? (s.importedOnDemand name)).or (s.fromLanguage name))
  rw [resolveSimple_eq, ← hadded, List.findSome?_append, List.findSome?_append]
  show ((s.fromEnclosing name).or (s.fromPackage name)).or
    (((s.imports.findSome? (s.imported name)).or (added.findSome? (s.imported name))).or
      (((s.imports.findSome? (s.importedOnDemand name)).or
        (added.findSome? (s.importedOnDemand name))).or (s.fromLanguage name))) = _
  simp only [hnone, Option.or_none, Option.or_assoc]

theorem resolve_of_resolveSimple {n : QualifiedName} {c : ClassType}
    (h : s.resolveSimple (n.segments.head n.segments_ne_nil) = some c) :
    s.resolve n = some (c.nestedAlong n.segments.tail) := by
  rw [resolve, h]

end Scope

/-! ## References -/

/-- The other node is there: the same reference, with the same class. -/
def Node.KeepsClass (m : Node) (o : Option Node) : Prop :=
  ∃ m' c, o = some m' ∧ m'.untyped = m.untyped ∧ m.headClass? = some c ∧ m'.headClass? = some c

namespace CompilationUnit

variable {u : CompilationUnit} {index : TypeIndex} {implicitLanguage : Bool} {i : Nat}
  {path : List Nat} {m : Node} {n : QualifiedName}

/-- A reference keeps its class with imports with which its first segment denotes the same. -/
theorem keepsClass_of_resolveSimple {imports : List Import}
    (hm : (u.attributed index implicitLanguage).at? i path = some m) (hn : m.reference? = some n)
    (h : ∃ c, (u.scopeAt index implicitLanguage i path).resolveSimple
        (n.segments.head n.segments_ne_nil) = some c ∧
      Scope.resolveSimple { u.scopeAt index implicitLanguage i path with imports }
        (n.segments.head n.segments_ne_nil) = some c) :
    m.KeepsClass (({ u with imports }.attributed index implicitLanguage).at? i path) := by
  obtain ⟨c, hbefore, hafter⟩ := h
  obtain ⟨m₀, ⟨given, rfl⟩, hothers⟩ := exists_of_at?_attributed hm
  obtain ⟨given', hm'⟩ := hothers imports
  rw [Node.reference?_attributed] at hn
  refine ⟨_, c.nestedAlong n.segments.tail, hm', ?_, ?_, ?_⟩
  · rw [Node.untyped_attributed, Node.untyped_attributed]
  · rw [Node.headClass?_attributed _ hn]
    exact Scope.resolve_of_resolveSimple hbefore
  · rw [Node.headClass?_attributed _ hn]
    exact Scope.resolve_of_resolveSimple hafter

end CompilationUnit

/-- A reference keeps its class in a unit with other imports, whatever they are, when its first
segment is the name of a class around it, of an indexed member class of one or of an indexed class
of the package. In a unit with further imports on demand behind the others, it also keeps the class
when an import brings in its first segment. -/
theorem keepsClass_added_imports {u : CompilationUnit} {index : TypeIndex}
    {implicitLanguage : Bool} {i : Nat} {path : List Nat} {m : Node} {n : QualifiedName}
    (hm : (u.attributed index implicitLanguage).at? i path = some m)
    (hn : m.reference? = some n) :
    (∀ imports,
      (u.scopeAt index implicitLanguage i path).Binds (n.segments.head n.segments_ne_nil) →
        m.KeepsClass (({ u with imports }.attributed index implicitLanguage).at? i path)) ∧
    (∀ added, (∀ j ∈ added, j.wildcard = true) →
      (u.scopeAt index implicitLanguage i path).Binds (n.segments.head n.segments_ne_nil) ∨
        (∃ j ∈ u.imports, j.Brings index (n.segments.head n.segments_ne_nil)) →
      m.KeepsClass (({ u with imports := u.imports ++ added }.attributed index
        implicitLanguage).at? i path)) := by
  constructor
  · intro imports hbinds
    exact CompilationUnit.keepsClass_of_resolveSimple hm hn
      (Scope.resolveSimple_of_binds hbinds imports)
  · rintro added hadded (hbinds | hbrings)
    · exact CompilationUnit.keepsClass_of_resolveSimple hm hn
        (Scope.resolveSimple_of_binds hbinds _)
    · exact CompilationUnit.keepsClass_of_resolveSimple hm hn
        (Scope.resolveSimple_of_brings (s := u.scopeAt index implicitLanguage i path)
          hbrings hadded)

/-- A field with the type of its class, in front of an import of another class of that name, and a
field with the type of an imported class that is not indexed, in front of an import on demand that
has an indexed class of that name. -/
theorem keepsClass_added_imports_fields :
    ∃ (u : CompilationUnit) (index : TypeIndex) (m k : Node),
      (u.attributed index true).at? 0 [1, 0, 0, 0] = some m ∧
      (u.attributed index true).at? 0 [1, 1, 0, 0] = some k ∧
      index.contains ⟨["r", "List"], by simp⟩ = true ∧
      m.KeepsClass (({ u with
          imports := [Import.build ⟨["q", "A"], by simp⟩ false false] }.attributed
        index true).at? 0 [1, 0, 0, 0]) ∧
      k.KeepsClass (({ u with
          imports := u.imports ++ [Import.build (.single "r") false true] }.attributed
        index true).at? 0 [1, 1, 0, 0]) := by
  let field (name : String) : Member :=
    .field ⟨.space, [], .ofName (.single name), [], some .empty⟩
  let d : ClassDeclaration := ⟨.space, [], .empty, .ordinary, ⟨.space, "A", none⟩, none, none,
    ⟨.space, [field "A", field "List"], .space⟩, none⟩
  let u : CompilationUnit :=
    ⟨none, none, [.build ⟨["q", "List"], by simp⟩ false false], [d], .empty⟩
  let index : TypeIndex := ⟨[.topLevel (some (.single "r")) "List"]⟩
  obtain ⟨m, hm⟩ : ∃ m, (u.attributed index true).at? 0 [1, 0, 0, 0] = some m := ⟨_, rfl⟩
  obtain ⟨k, hk⟩ : ∃ k, (u.attributed index true).at? 0 [1, 1, 0, 0] = some k := ⟨_, rfl⟩
  have hmName : m.reference? = some (.single "A") := by cases hm; rfl
  have hkName : k.reference? = some (.single "List") := by cases hk; rfl
  have hbinds : (u.scopeAt index true 0 [1, 0, 0, 0]).Binds "A" :=
    .inl ⟨.topLevel none "A", List.mem_singleton_self _, .inl rfl⟩
  have hbrings : ∃ j ∈ u.imports, j.Brings index "List" :=
    ⟨_, List.mem_singleton_self _, .inl ⟨rfl, rfl, .inl rfl⟩⟩
  exact ⟨u, index, m, k, hm, hk, by decide +kernel,
    (keepsClass_added_imports hm hmName).1 _ hbinds,
    (keepsClass_added_imports hk hkName).2 _ (by decide) (.inr hbrings)⟩

end LosslessJava
