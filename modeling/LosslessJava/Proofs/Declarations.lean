import LosslessJava.Proofs.Batch
import LosslessJava.Proofs.Resolve.Surroundings

/-!
# Declared classes

The index of a batch is filled by a walk over the classes of its units, and the declarations get
their types by another one that carries a scope. Both name a class by its package and by the classes
around it.

* `CompilationUnit.HasClass`: a class of a unit with its path of class names.
* `CompilationUnit.exists_declares_iff`: the first walk meets these classes.
* `CompilationUnit.HasClass.of_attributed`: the second one does, too.
* `parseEach_declares`: so the index knows the names that the declarations have as types.
-/

namespace LosslessJava

namespace CompilationUnit

/-- The segments of the unit's package, none for the unnamed one. -/
def packageSegments (u : CompilationUnit) : List String :=
  match u.packageName with
  | some p => p.segments
  | none => []

/-- The unit has this class: one of its own, or a member class of a class that it has. The names
are those of the classes from the outside in. -/
inductive HasClass (u : CompilationUnit) : List String → ClassDeclaration → Prop
  | topLevel {d : ClassDeclaration} (hd : d ∈ u.classes) : HasClass u [d.name.name] d
  | member {names : List String} {d e : ClassDeclaration} (h : HasClass u names d)
    (he : .nested e ∈ d.body.members) : HasClass u (names ++ [e.name.name]) e

end CompilationUnit

/-! ## Paths of classes -/

namespace ClassType

/-- The class at the end of these class names in a package. -/
structure IsAt (c : ClassType) (package names : List String) : Prop where
  segments : c.name.segments = package ++ names
  packageLength : c.packageLength = package.length

variable {c : ClassType} {package names : List String}

theorem isAt_topLevel (u : CompilationUnit) (name : String) :
    (topLevel u.packageName name).IsAt u.packageSegments [name] := by
  unfold CompilationUnit.packageSegments
  cases u.packageName with
  | none => exact ⟨rfl, rfl⟩
  | some p => exact ⟨rfl, rfl⟩

theorem IsAt.nested (h : c.IsAt package names) (name : String) :
    (c.nested name).IsAt package (names ++ [name]) :=
  ⟨by simp [ClassType.nested, QualifiedName.push, h.segments], h.packageLength⟩

end ClassType

namespace CompilationUnit

variable {u : CompilationUnit} {names : List String} {d : ClassDeclaration}

/-! ## The classes that go into the index -/

/-- What a class of the unit declares, the unit declares. -/
theorem HasClass.declares (h : u.HasClass names d) :
    ∃ type : ClassType, type.IsAt u.packageSegments names ∧
      ∀ c, d.Declares type c → u.Declares c := by
  induction h with
  | @topLevel d hd => exact ⟨_, ClassType.isAt_topLevel u _, fun c hc => ⟨d, hd, hc⟩⟩
  | @member names d e _ he ih =>
    obtain ⟨type, hat, hdeclares⟩ := ih
    exact ⟨_, hat.nested _, fun c hc => hdeclares c (.member he hc)⟩

theorem HasClass.of_declares {type c : ClassType} (h : d.Declares type c) {names : List String}
    (hd : u.HasClass names d) (hat : type.IsAt u.packageSegments names) :
    ∃ names' d', u.HasClass names' d' ∧ c.IsAt u.packageSegments names' := by
  induction h generalizing names with
  | self => exact ⟨names, _, hd, hat⟩
  | member he _ ih => exact ih (hd.member he) (hat.nested _)

/-- The names of the declared classes are those of the classes that the unit has. -/
theorem exists_declares_iff {name : QualifiedName} :
    (∃ c, u.Declares c ∧ c.name = name) ↔
      ∃ names d, u.HasClass names d ∧ name.segments = u.packageSegments ++ names := by
  constructor
  · rintro ⟨c, ⟨d, hd, hc⟩, rfl⟩
    obtain ⟨names, d', h, hat⟩ :=
      HasClass.of_declares hc (.topLevel hd) (ClassType.isAt_topLevel u _)
    exact ⟨names, d', h, hat.segments⟩
  · rintro ⟨names, d, h, hname⟩
    obtain ⟨type, hat, hdeclares⟩ := h.declares
    refine ⟨type, hdeclares type (.self type d), ?_⟩
    cases name
    cases hname
    cases type with
    | mk name _ _ =>
      cases name
      cases hat.segments
      rfl

/-! ## The classes of an attributed unit -/

/-- A class of an attributed unit was attributed in a scope in which its type is that of its
path. -/
theorem HasClass.of_attributed {index : TypeIndex} {implicitLanguage : Bool}
    (h : (u.attributed index implicitLanguage).HasClass names d) :
    ∃ s d₀, u.HasClass names d₀ ∧ d = d₀.attributed s ∧
      (s.declare d₀.name.name).IsAt u.packageSegments names := by
  induction h with
  | @topLevel d hd =>
    obtain ⟨d₀, hd₀, rfl⟩ := List.mem_map.mp hd
    rw [ClassDeclaration.name_attributed]
    exact ⟨_, d₀, .topLevel hd₀, rfl, ClassType.isAt_topLevel u _⟩
  | @member names d e _ he ih =>
    obtain ⟨s, d₀, hd₀, rfl, hat⟩ := ih
    rw [ClassDeclaration.body_attributed] at he
    obtain ⟨e₀, he₀, rfl⟩ := ClassBody.exists_nested_of_attributed he
    rw [ClassDeclaration.name_attributed]
    exact ⟨_, e₀, hd₀.member he₀, rfl, hat.nested _⟩

end CompilationUnit

/-! ## Batches -/

namespace Batch

variable {config : Config} {sources dependencies : List SourceText}

/-- The index has the names of the classes that the units of the batch have. -/
theorem mem_names_index_iff {name : QualifiedName} :
    name ∈ (index sources dependencies).names ↔
      ∃ s ∈ sources ++ dependencies, ∃ u, s.parse = .ok u ∧
        ∃ names d, u.HasClass names d ∧ name.segments = u.packageSegments ++ names := by
  rw [index_eq, TypeIndex.mem_names_addAll]
  simp only [SourceText.mem_declared, ← CompilationUnit.exists_declares_iff]
  constructor
  · rintro ⟨c, ⟨s, hs, u, hu, hc⟩, hname⟩
    exact ⟨s, hs, u, hu, c, hc, hname⟩
  · rintro ⟨s, hs, u, hu, c, hc, hname⟩
    exact ⟨c, ⟨s, hs, u, hu, hc⟩, hname⟩

theorem nodup_names_index (sources dependencies : List SourceText) :
    (index sources dependencies).names.Nodup := by
  rw [index_eq]
  exact TypeIndex.nodup_names_addAll TypeIndex.nodup_names_empty _

/-- The declarations have types of these names. -/
theorem Returns.type_of_hasClass {u : CompilationUnit} (h : Returns config sources dependencies u)
    {names : List String} {d : ClassDeclaration} (hd : u.HasClass names d) :
    ∃ c, d.type = some c ∧ d.name.type = some (.ofClass c) ∧ c.IsAt u.packageSegments names ∧
      c.name ∈ (index sources dependencies).names := by
  obtain ⟨s, hs, v, hv, rfl⟩ := h.exists_source
  obtain ⟨scope, d₀, hd₀, rfl, hat⟩ := hd.of_attributed
  exact ⟨scope.declare d₀.name.name, by simp, by simp, hat, mem_names_index_iff.mpr
    ⟨s, List.mem_append_left _ hs, v, hv, names, d₀, hd₀, hat.segments⟩⟩

end Batch

open Batch in
/-- The index of a batch has the name of each class that its units declare, member classes included,
and no other. In an attributed source these classes have types of these names. -/
theorem parseEach_declares {config : Config} {sources dependencies : List SourceText}
    {results : List (Except ParseError CompilationUnit)}
    (h : parseEach config sources dependencies = .ok results) :
    results = sources.map (result config (index sources dependencies)) ∧
    (index sources dependencies).names.Nodup ∧
    (∀ name, name ∈ (index sources dependencies).names ↔
      ∃ s ∈ sources ++ dependencies, ∃ u, s.parse = .ok u ∧
        ∃ names d, u.HasClass names d ∧ name.segments = u.packageSegments ++ names) ∧
    ∀ u, .ok u ∈ results → ∀ names d, u.HasClass names d →
      ∃ c, d.type = some c ∧ d.name.type = some (.ofClass c) ∧
        c.name.segments = u.packageSegments ++ names ∧
        c.packageLength = u.packageSegments.length ∧
        c.name ∈ (index sources dependencies).names := by
  obtain ⟨-, hresults⟩ := parseEach_eq_ok_iff.mp h
  refine ⟨hresults, nodup_names_index _ _, fun _ => mem_names_index_iff, fun u hu names d hd => ?_⟩
  obtain ⟨c, htype, hname, hat, hmem⟩ := (Returns.each h hu).type_of_hasClass hd
  exact ⟨c, htype, hname, hat.segments, hat.packageLength, hmem⟩

/-- A class in a class in a class of a package, and another class of the outermost one's simple
name. -/
theorem parseEach_declares_nested :
    ∃ results, Batch.parseEach .standard
        [⟨none, "package p; class A \x7b class B \x7b class C \x7b \x7d \x7d \x7d"⟩]
        [⟨none, "class A \x7b \x7d"⟩] = .ok results ∧
      (∃ s ∈ [SourceText.mk none
            "package p; class A \x7b class B \x7b class C \x7b \x7d \x7d \x7d",
          ⟨none, "class A \x7b \x7d"⟩],
        ∃ u, s.parse = .ok u ∧ ∃ names d, u.HasClass names d ∧
          ["p", "A", "B", "C"] = u.packageSegments ++ names) ∧
      ∀ u, .ok u ∈ results → ∀ names d, u.HasClass names d →
        ∃ c, d.type = some c ∧ c.name.segments = u.packageSegments ++ names := by
  obtain ⟨results, hresults, -⟩ := exists_ok (x := Batch.parseEach .standard
    [⟨none, "package p; class A \x7b class B \x7b class C \x7b \x7d \x7d \x7d"⟩]
    [⟨none, "class A \x7b \x7d"⟩]) (p := fun _ => true) (by decide +kernel)
  obtain ⟨-, -, hnames, htypes⟩ := parseEach_declares hresults
  refine ⟨results, hresults, (hnames ⟨["p", "A", "B", "C"], by simp⟩).mp (by decide +kernel), ?_⟩
  intro u hu names d hd
  obtain ⟨c, hc, -, hname, -⟩ := htypes u hu names d hd
  exact ⟨c, hc, hname⟩

end LosslessJava
