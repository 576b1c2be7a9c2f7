import LosslessJava.Proofs.Batch

/-!
# Failures in a batch

A text that does not parse declares nothing, so it changes nothing for the others.

* `SourceText.units_filter_parsesAlone`: leaving such texts out leaves the units as they are, and
  with them the index.
* `parseEach_isolates`: in a batch every text fails or succeeds as it does alone, and the results of
  the others are those of the batch without it.
-/

namespace LosslessJava

namespace Batch

/-! ## Texts on their own -/

/-- What a text gives as a batch of its own. -/
def alone (config : Config) (s : SourceText) : Except ParseError (List CompilationUnit) :=
  parseAll config [s] []

def parsesAlone (config : Config) (s : SourceText) : Bool := (alone config s).isOk

/-- The error of the first text that fails on its own. -/
def firstFailure (config : Config) (ss : List SourceText) : Option ParseError :=
  firstError (ss.map (alone config))

variable {config : Config} {sources dependencies : List SourceText}

theorem alone_eq (config : Config) (s : SourceText) :
    alone config s = collect [result config (index [s] []) s] := by
  rw [alone, parseAll, parseEach_eq (Or.inr (by simp))]
  rfl

theorem alone_eq_error_iff {s : SourceText} {e : ParseError} :
    alone config s = .error e ↔ s.parse = .error e := by
  rw [alone_eq, collect_eq_error, ← @result_eq_error_iff config (index [s] [])]
  cases result config (index [s] []) s <;> simp [firstError]

theorem alone_eq_ok_iff {s : SourceText} {units : List CompilationUnit} :
    alone config s = .ok units ↔
      ∃ v, s.parse = .ok v ∧ units = [v.attributed (index [s] []) config.implicitLanguage] := by
  rw [alone_eq, collect_eq_ok]
  constructor
  · intro h
    obtain ⟨u, rfl⟩ : ∃ u, units = [u] :=
      List.length_eq_one_iff.mp (by simpa using (congrArg List.length h).symm)
    obtain ⟨v, hv, rfl⟩ := result_eq_ok_iff.mp (List.singleton_inj.mp h)
    exact ⟨v, hv, rfl⟩
  · rintro ⟨v, hv, rfl⟩
    rw [result_eq_ok_iff.mpr ⟨v, hv, rfl⟩]
    rfl

theorem parsesAlone_iff {s : SourceText} :
    parsesAlone config s = true ↔ ∃ u, s.parse = .ok u := by
  cases hp : s.parse with
  | error e =>
    rw [parsesAlone, alone_eq_error_iff.mpr hp]
    simp [Except.isOk, Except.toBool]
  | ok u =>
    cases ha : alone config s with
    | error e =>
      rw [alone_eq_error_iff.mp ha] at hp
      cases hp
    | ok us => simp [parsesAlone, ha, Except.isOk, Except.toBool]

theorem firstFailure_eq (config : Config) (ss : List SourceText) :
    firstFailure config ss = firstError (ss.map SourceText.parse) :=
  firstError_map fun _ _ _ => alone_eq_error_iff

theorem isOk_result {index : TypeIndex} {s : SourceText} :
    (result config index s).isOk = parsesAlone config s := by
  rw [Bool.eq_iff_iff, parsesAlone_iff]
  cases h : s.parse <;> simp [result, h, Except.map, Except.isOk, Except.toBool]

/-! ## Leaving out what fails -/

/-- Texts that do not parse have no units. -/
theorem units_filter_parsesAlone (config : Config) (ss : List SourceText) :
    SourceText.units (ss.filter (parsesAlone config)) = SourceText.units ss := by
  induction ss with
  | nil => rfl
  | cons s ss ih =>
    simp only [SourceText.units, successes] at ih ⊢
    cases hp : s.parse with
    | ok u =>
      have hs : parsesAlone config s = true := parsesAlone_iff.mpr ⟨u, hp⟩
      simp [hs, hp, ih]
    | error e =>
      have hs : ¬ parsesAlone config s = true := by simp [parsesAlone_iff, hp]
      simp [hs, hp, ih]

theorem index_filter_sources (config : Config) (sources dependencies : List SourceText) :
    index (sources.filter (parsesAlone config)) dependencies = index sources dependencies := by
  rw [index, index, SourceText.units_append, SourceText.units_append, units_filter_parsesAlone]

theorem index_filter_dependencies (config : Config) (sources dependencies : List SourceText) :
    index sources (dependencies.filter (parsesAlone config)) = index sources dependencies := by
  rw [index, index, SourceText.units_append, SourceText.units_append, units_filter_parsesAlone]

theorem map_result_filter (index : TypeIndex) (ss : List SourceText) :
    (ss.filter (parsesAlone config)).map (result config index) =
      (ss.map (result config index)).filter Except.isOk := by
  rw [List.filter_map]
  congr 2
  funext s
  exact isOk_result.symm

theorem parseEach_filter_sources {results : List (Except ParseError CompilationUnit)}
    (h : parseEach config sources dependencies = .ok results) :
    parseEach config (sources.filter (parsesAlone config)) dependencies =
      .ok (results.filter Except.isOk) := by
  obtain ⟨hpolicy, rfl⟩ := parseEach_eq_ok_iff.mp h
  rw [parseEach_eq hpolicy, index_filter_sources, map_result_filter]

theorem parseEach_filter_dependencies {results : List (Except ParseError CompilationUnit)}
    (h : parseEach config sources dependencies = .ok results) :
    parseEach config sources (dependencies.filter (parsesAlone config)) = .ok results := by
  obtain ⟨-, rfl⟩ := parseEach_eq_ok_iff.mp h
  have hparse : ∀ d ∈ dependencies.filter (parsesAlone config), ∃ u, d.parse = .ok u :=
    fun d hd => parsesAlone_iff.mp (List.of_mem_filter hd)
  rw [parseEach_eq (Or.inr hparse), index_filter_dependencies]

/-! ## What ends a batch -/

/-- No dependency ends the batch. -/
theorem parseEach_of_firstFailure
    (h : config.errorPolicy = .keepGoing ∨ firstFailure config dependencies = none) :
    parseEach config sources dependencies =
      .ok (sources.map (result config (index sources dependencies))) := by
  refine parseEach_eq (h.imp_right fun h d hd => ?_)
  rw [firstFailure_eq, firstError_eq_none] at h
  exact h _ (List.mem_map_of_mem hd)

theorem firstError_results (index : TypeIndex) :
    firstError (sources.map (result config index)) = firstFailure config sources := by
  rw [firstFailure_eq]
  exact firstError_map fun _ _ _ => result_eq_error_iff

/-- All units of the sources, or the first failure among them. -/
theorem parseAll_of_firstFailure
    (h : config.errorPolicy = .keepGoing ∨ firstFailure config dependencies = none) :
    parseAll config sources dependencies =
      match firstFailure config sources with
      | some e => .error e
      | none => .ok (successes (sources.map (result config (index sources dependencies)))) := by
  rw [parseAll, parseEach_of_firstFailure h]
  show collect _ = _
  rw [collect_eq, firstError_results]
  cases firstFailure config sources <;> rfl

end Batch

open Batch

/-- A text that fails on its own fails in every batch with the same error, and without it the batch
has the other results as they are. Only a dependency can end a batch, and only where the policy says
so; where all sources are wanted, the first one that fails is reported. -/
theorem parseEach_isolates (config : Config) (sources dependencies : List SourceText) :
    (∀ results : List (Except ParseError CompilationUnit),
      parseEach config sources dependencies = .ok results →
      results.length = sources.length ∧
      (∀ (i : Nat) (s : SourceText) (r : Except ParseError CompilationUnit),
        sources[i]? = some s → results[i]? = some r →
          (∀ e, r = .error e ↔ alone config s = .error e) ∧
          ∀ u, r = .ok u → ∃ v, alone config s = .ok [v] ∧ u.untyped = v.untyped) ∧
      parseEach config (sources.filter (parsesAlone config)) dependencies =
        .ok (results.filter Except.isOk) ∧
      parseEach config sources (dependencies.filter (parsesAlone config)) = .ok results ∧
      parseEach config (sources.filter (parsesAlone config))
          (dependencies.filter (parsesAlone config)) = .ok (results.filter Except.isOk)) ∧
    (∀ e, config.errorPolicy = .failFast → firstFailure config dependencies = some e →
      parseEach config sources dependencies = .error e ∧
      parseAll config sources dependencies = .error e) ∧
    (config.errorPolicy = .keepGoing ∨ firstFailure config dependencies = none →
      (∃ results, parseEach config sources dependencies = .ok results) ∧
      (∀ e, firstFailure config sources = some e →
        parseAll config sources dependencies = .error e) ∧
      ((∃ units, parseAll config sources dependencies = .ok units) ↔
        firstFailure config sources = none)) := by
  refine ⟨fun results h => ?_, fun e hpolicy he => ?_, fun hnone => ⟨?_, fun e he => ?_, ?_⟩⟩
  · have hsources := parseEach_filter_sources h
    refine ⟨?_, fun i s r hs hr => ?_, hsources, parseEach_filter_dependencies h,
      parseEach_filter_dependencies hsources⟩
    · obtain ⟨-, rfl⟩ := parseEach_eq_ok_iff.mp h
      exact List.length_map _
    · obtain ⟨-, rfl⟩ := parseEach_eq_ok_iff.mp h
      rw [List.getElem?_map, hs, Option.map_some, Option.some_inj] at hr
      rw [← hr]
      refine ⟨fun e => by rw [result_eq_error_iff, alone_eq_error_iff], fun u hu => ?_⟩
      obtain ⟨v, hv, rfl⟩ := result_eq_ok_iff.mp hu
      refine ⟨_, alone_eq_ok_iff.mpr ⟨v, hv, rfl⟩, ?_⟩
      rw [CompilationUnit.untyped_attributed, CompilationUnit.untyped_attributed]
  · rw [firstFailure_eq] at he
    have h : parseEach config sources dependencies = .error e :=
      parseEach_eq_error_iff.mpr ⟨hpolicy, he⟩
    refine ⟨h, ?_⟩
    rw [parseAll, h]
    rfl
  · exact ⟨_, parseEach_of_firstFailure hnone⟩
  · rw [parseAll_of_firstFailure hnone, he]
  · rw [parseAll_of_firstFailure hnone]
    cases firstFailure config sources <;> simp

/-- Two sources and a dependency between broken ones, which are skipped or end the batch. -/
theorem parseEach_isolates_broken :
    (∃ results, parseEach ⟨.keepGoing, true⟩
        [⟨none, "import p.*; class A \x7b B b; C c; \x7d"⟩, ⟨none, "class A \x7b"⟩,
          ⟨none, "class C \x7b \x7d"⟩]
        [⟨none, "class"⟩, ⟨none, "package p; class B \x7b \x7d"⟩] = .ok results ∧
      results.length = 3 ∧
      parseEach ⟨.keepGoing, true⟩
        [⟨none, "import p.*; class A \x7b B b; C c; \x7d"⟩, ⟨none, "class C \x7b \x7d"⟩]
        [⟨none, "package p; class B \x7b \x7d"⟩] = .ok (results.filter Except.isOk)) ∧
    ∃ e, alone .standard ⟨none, "class"⟩ = .error e ∧
      parseAll .standard [⟨none, "class A \x7b"⟩]
        [⟨none, "class B \x7b \x7d"⟩, ⟨none, "class"⟩, ⟨none, "class \x7b"⟩] = .error e := by
  constructor
  · obtain ⟨hok, -, hnone⟩ := parseEach_isolates ⟨.keepGoing, true⟩
      [⟨none, "import p.*; class A \x7b B b; C c; \x7d"⟩, ⟨none, "class A \x7b"⟩,
        ⟨none, "class C \x7b \x7d"⟩]
      [⟨none, "class"⟩, ⟨none, "package p; class B \x7b \x7d"⟩]
    obtain ⟨⟨results, hresults⟩, -⟩ := hnone (Or.inl rfl)
    obtain ⟨hlength, -, -, -, hkept⟩ := hok results hresults
    refine ⟨results, hresults, hlength, ?_⟩
    rw [← hkept]
    congr 1 <;> decide +kernel
  · obtain ⟨-, herror, -⟩ := parseEach_isolates .standard [⟨none, "class A \x7b"⟩]
      [⟨none, "class B \x7b \x7d"⟩, ⟨none, "class"⟩, ⟨none, "class \x7b"⟩]
    obtain ⟨units, hb, -⟩ := exists_ok (x := alone .standard ⟨none, "class B \x7b \x7d"⟩)
      (p := fun _ => true) (by decide +kernel)
    cases he : alone .standard ⟨none, "class"⟩ with
    | ok units =>
      have hfails : parsesAlone .standard ⟨none, "class"⟩ = false := by decide +kernel
      rw [parsesAlone, he] at hfails
      cases hfails
    | error e =>
      refine ⟨e, rfl, (herror e rfl ?_).2⟩
      show firstError [alone .standard _, alone .standard _, _] = some e
      rw [hb, he]
      rfl

end LosslessJava
