import LosslessJava.Proofs.Parsed
import LosslessJava.Proofs.Resolve.Alike
import LosslessJava.Proofs.Resolve.TypeIndex
import Mathlib.Data.List.FinRange

/-!
# The order of sources

The index of a batch is filled in the order of its sources, and a later class replaces an earlier
one of the same name. Between classes of one name only their packages can differ, so where they do
not, any order gives the same look-ups.

* `Batch.parseEach_eq`: the result of each source is a function of that source and of the index.
* `Batch.find?_index_perm`: the look-ups do not depend on the order.
* `parseEach_reordered`: so the results do not depend on it either.
-/

namespace LosslessJava

namespace SourceText

/-- The units of the sources that parse. -/
def units (sources : List SourceText) : List CompilationUnit :=
  Batch.successes (sources.map SourceText.parse)

theorem mem_units {sources : List SourceText} {u : CompilationUnit} :
    u ∈ units sources ↔ ∃ s ∈ sources, s.parse = .ok u := by
  simp only [units, Batch.successes, List.mem_filterMap, List.mem_map]
  constructor
  · rintro ⟨_, ⟨s, hs, rfl⟩, h⟩
    refine ⟨s, hs, ?_⟩
    cases hp : s.parse with
    | ok v =>
      rw [hp] at h
      cases h
      rfl
    | error e =>
      rw [hp] at h
      cases h
  · rintro ⟨s, hs, h⟩
    exact ⟨_, ⟨s, hs, rfl⟩, by rw [h]⟩

theorem units_append (ss ts : List SourceText) : units (ss ++ ts) = units ss ++ units ts := by
  simp only [units, Batch.successes, List.map_append, List.filterMap_append]

theorem units_perm {ss ts : List SourceText} (h : ss.Perm ts) : (units ss).Perm (units ts) :=
  (h.map _).filterMap _

/-- Of the classes that the sources declare, outside other classes or as member classes, no two have
the same name and packages of different lengths. -/
def Consistent (sources : List SourceText) : Prop :=
  ∀ s ∈ sources, ∀ t ∈ sources, ∀ u v, s.parse = .ok u → t.parse = .ok v →
    ∀ c d, u.Declares c → v.Declares d → c.name = d.name → c.packageLength = d.packageLength

/-- The classes that the sources declare. -/
def declared (sources : List SourceText) : List ClassType :=
  (units sources).flatMap CompilationUnit.declared

theorem mem_declared {sources : List SourceText} {c : ClassType} :
    c ∈ declared sources ↔ ∃ s ∈ sources, ∃ u, s.parse = .ok u ∧ u.Declares c := by
  simp only [declared, List.mem_flatMap, mem_units, CompilationUnit.mem_declared_iff]
  constructor
  · rintro ⟨u, ⟨s, hs, hu⟩, hc⟩
    exact ⟨s, hs, u, hu, hc⟩
  · rintro ⟨s, hs, u, hu, hc⟩
    exact ⟨u, ⟨s, hs, hu⟩, hc⟩

theorem consistent_iff {sources : List SourceText} :
    Consistent sources ↔ TypeIndex.Consistent (declared sources) := by
  constructor
  · intro h c hc d hd
    obtain ⟨s, hs, u, hu, hc⟩ := mem_declared.mp hc
    obtain ⟨t, ht, v, hv, hd⟩ := mem_declared.mp hd
    exact h s hs t ht u v hu hv c d hc hd
  · intro h s hs t ht u v hu hv c d hc hd
    exact h c (mem_declared.mpr ⟨s, hs, u, hu, hc⟩) d (mem_declared.mpr ⟨t, ht, v, hv, hd⟩)

end SourceText

namespace Batch

open SourceText (units declared)

variable {config : Config} {sources dependencies : List SourceText}

/-- The index of a batch. -/
def index (sources dependencies : List SourceText) : TypeIndex :=
  .ofUnits (units (sources ++ dependencies))

theorem index_eq (sources dependencies : List SourceText) :
    index sources dependencies = TypeIndex.empty.addAll (declared (sources ++ dependencies)) :=
  TypeIndex.ofUnits_eq _

/-- The result of a source that is attributed against an index. -/
def result (config : Config) (index : TypeIndex) (s : SourceText) :
    Except ParseError CompilationUnit :=
  s.parse.map (·.attributed index config.implicitLanguage)

/-- Dependencies end a batch only where the policy says so and one of them does not parse. -/
theorem parseDependencies_eq
    (h : config.errorPolicy = .keepGoing ∨ ∀ d ∈ dependencies, ∃ u, d.parse = .ok u) :
    parseDependencies config dependencies = .ok (units dependencies) := by
  unfold parseDependencies
  cases hpolicy : config.errorPolicy with
  | keepGoing => rfl
  | failFast =>
    have hparse : ∀ d ∈ dependencies, ∃ u, d.parse = .ok u := by
      rcases h with h | h
      · rw [hpolicy] at h
        cases h
      · exact h
    refine collect_eq_ok.mpr ?_
    clear hpolicy h
    induction dependencies with
    | nil => rfl
    | cons d ds ih =>
      obtain ⟨u, hu⟩ := hparse d List.mem_cons_self
      have := ih fun d hd => hparse d (List.mem_cons_of_mem _ hd)
      simp only [units, successes, List.map_cons, hu, List.filterMap_cons] at this ⊢
      rw [← this]

/-- Every source has its own result, against the index of the batch. -/
theorem parseEach_eq
    (h : config.errorPolicy = .keepGoing ∨ ∀ d ∈ dependencies, ∃ u, d.parse = .ok u) :
    parseEach config sources dependencies =
      .ok (sources.map (result config (index sources dependencies))) := by
  unfold parseEach
  rw [parseDependencies_eq h, index, SourceText.units_append]
  show Except.ok _ = _
  rw [List.map_map]
  rfl

/-- The look-ups of a consistent batch do not depend on the order of its sources and
dependencies. -/
theorem find?_index_perm {sources' dependencies' : List SourceText}
    (h : SourceText.Consistent (sources ++ dependencies)) (hs : sources.Perm sources')
    (hd : dependencies.Perm dependencies') (name : QualifiedName) :
    (index sources' dependencies').find? name = (index sources dependencies).find? name := by
  have hdeclared : (declared (sources ++ dependencies)).Perm
      (declared (sources' ++ dependencies')) :=
    (SourceText.units_perm (hs.append hd)).flatMap_right _
  rw [index_eq, index_eq,
    TypeIndex.find?_addAll_perm (SourceText.consistent_iff.mp h) hdeclared]

theorem result_congr {i j : TypeIndex} (h : ∀ name, i.find? name = j.find? name)
    (s : SourceText) : result config i s = result config j s := by
  unfold result
  cases s.parse with
  | error e => rfl
  | ok u => exact congrArg Except.ok (u.attributed_congr h _)

end Batch

/-- In a consistent batch that no dependency ends, the sources and the dependencies can stand in any
order: every source keeps its result, its error or its tree with all types. -/
theorem parseEach_reordered {config : Config} {n : Nat} (sources : Fin n → SourceText)
    (dependencies : List SourceText)
    (hpolicy : config.errorPolicy = .keepGoing ∨ ∀ d ∈ dependencies, ∃ u, d.parse = .ok u)
    (hconsistent : SourceText.Consistent (List.ofFn sources ++ dependencies)) :
    ∃ results : Fin n → Except ParseError CompilationUnit,
      Batch.parseEach config (List.ofFn sources) dependencies = .ok (List.ofFn results) ∧
      ∀ (σ : Equiv.Perm (Fin n)) (dependencies' : List SourceText),
        dependencies.Perm dependencies' →
          Batch.parseEach config (List.ofFn (sources ∘ σ)) dependencies' =
            .ok (List.ofFn (results ∘ σ)) := by
  refine ⟨Batch.result config (Batch.index (List.ofFn sources) dependencies) ∘ sources, ?_, ?_⟩
  · rw [Batch.parseEach_eq hpolicy, List.map_ofFn]
  · intro σ dependencies' hd
    have hpolicy' : config.errorPolicy = .keepGoing ∨ ∀ d ∈ dependencies', ∃ u, d.parse = .ok u :=
      hpolicy.imp_right fun h d hmem => h d (hd.mem_iff.mpr hmem)
    have hfind := Batch.find?_index_perm hconsistent (σ.ofFn_comp_perm sources).symm hd
    rw [Batch.parseEach_eq hpolicy', List.map_ofFn]
    congr 2
    funext i
    exact Batch.result_congr hfind _

/-- Two sources that declare a class of the same name, and dependencies of which one is broken. -/
theorem parseEach_reordered_swap :
    ∃ results : Fin 2 → Except ParseError CompilationUnit,
      Batch.parseEach ⟨.keepGoing, true⟩
        [⟨none, "package p; class A \x7b B b; C c; \x7d"⟩,
          ⟨none, "package p; class B \x7b \x7d class A \x7b \x7d"⟩]
        [⟨none, "package p; class C \x7b \x7d"⟩, ⟨none, "class"⟩] = .ok [results 0, results 1] ∧
      Batch.parseEach ⟨.keepGoing, true⟩
        [⟨none, "package p; class B \x7b \x7d class A \x7b \x7d"⟩,
          ⟨none, "package p; class A \x7b B b; C c; \x7d"⟩]
        [⟨none, "class"⟩, ⟨none, "package p; class C \x7b \x7d"⟩] = .ok [results 1, results 0] := by
  let sources : Fin 2 → SourceText := fun i =>
    if i = 0 then ⟨none, "package p; class A \x7b B b; C c; \x7d"⟩
    else ⟨none, "package p; class B \x7b \x7d class A \x7b \x7d"⟩
  let dependencies : List SourceText := [⟨none, "package p; class C \x7b \x7d"⟩, ⟨none, "class"⟩]
  have hconsistent : SourceText.Consistent (List.ofFn sources ++ dependencies) := by
    rw [SourceText.consistent_iff, TypeIndex.Consistent]
    decide +kernel
  obtain ⟨results, h, hswap⟩ :=
    @parseEach_reordered ⟨.keepGoing, true⟩ 2 sources dependencies (Or.inl rfl) hconsistent
  exact ⟨results, h, hswap (Equiv.swap 0 1) _ (.swap _ _ [])⟩

end LosslessJava
