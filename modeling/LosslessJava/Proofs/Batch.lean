import LosslessJava.Proofs.SourceOrder

/-!
# What a batch answers

A batch ends with an error of a dependency or with one result for each source. All results are
attributed against one index, which knows the units of the batch and nothing else.

* `Batch.collect_eq`: collecting results gives their first error or all their values.
* `Batch.parseEach_eq_error_iff`, `Batch.parseEach_eq_ok_iff`: when a batch ends early, and what it
  answers otherwise.
* `Batch.Returns`: the units that a batch hands out, in whichever way it is run.
-/

namespace LosslessJava

namespace Batch

/-! ## First errors -/

section

variable {ε α β : Type}

/-- The first error among the results. -/
def firstError (results : List (Except ε α)) : Option ε :=
  results.findSome? fun
    | .ok _ => none
    | .error e => some e

theorem collect_eq (results : List (Except ε α)) :
    collect results =
      match firstError results with
      | some e => .error e
      | none => .ok (successes results) := by
  induction results with
  | nil => rfl
  | cons r rs ih =>
    cases r with
    | error e => rfl
    | ok a =>
      have hfirst : firstError (.ok a :: rs) = firstError rs := rfl
      rw [collect, ih, hfirst]
      cases firstError rs <;> rfl

theorem collect_eq_error {results : List (Except ε α)} {e : ε} :
    collect results = .error e ↔ firstError results = some e := by
  rw [collect_eq]
  cases firstError results <;> simp

theorem firstError_eq_none {results : List (Except ε α)} :
    firstError results = none ↔ ∀ r ∈ results, ∃ a, r = .ok a := by
  rw [firstError, List.findSome?_eq_none_iff]
  refine forall₂_congr fun r _ => ?_
  cases r <;> simp

/-- Only the errors of the results count. -/
theorem firstError_map {γ : Type} {f : γ → Except ε α} {g : γ → Except ε β} {cs : List γ}
    (h : ∀ c ∈ cs, ∀ e, f c = .error e ↔ g c = .error e) :
    firstError (cs.map f) = firstError (cs.map g) := by
  induction cs with
  | nil => rfl
  | cons c cs ih =>
    have ih := ih fun d hd => h d (List.mem_cons_of_mem c hd)
    have hc := h c List.mem_cons_self
    simp only [firstError, List.map_cons, List.findSome?_cons] at ih ⊢
    rw [ih]
    cases hf : f c with
    | error e => rw [(hc e).mp hf]
    | ok a =>
      cases hg : g c with
      | error e =>
        rw [(hc e).mpr hg] at hf
        cases hf
      | ok b => rfl

end

/-! ## Batches -/

variable {config : Config} {sources dependencies : List SourceText}

theorem parseDependencies_eq_error_iff {e : ParseError} :
    parseDependencies config dependencies = .error e ↔
      config.errorPolicy = .failFast ∧ firstError (dependencies.map SourceText.parse) = some e := by
  unfold parseDependencies
  cases config.errorPolicy with
  | keepGoing => simp
  | failFast => simp [collect_eq_error]

/-- A batch ends early where the policy says so and some dependency does not parse. -/
theorem parseEach_eq_error_iff {e : ParseError} :
    parseEach config sources dependencies = .error e ↔
      config.errorPolicy = .failFast ∧ firstError (dependencies.map SourceText.parse) = some e := by
  rw [← parseDependencies_eq_error_iff, parseEach]
  cases parseDependencies config dependencies with
  | error e' => simp [bind, Except.bind]
  | ok units => simp [bind, Except.bind, pure, Except.pure]

/-- Otherwise it has one result for each source. -/
theorem parseEach_eq_ok_iff {results : List (Except ParseError CompilationUnit)} :
    parseEach config sources dependencies = .ok results ↔
      (config.errorPolicy = .keepGoing ∨ ∀ d ∈ dependencies, ∃ u, d.parse = .ok u) ∧
        results = sources.map (result config (index sources dependencies)) := by
  constructor
  · intro h
    have hpolicy : config.errorPolicy = .keepGoing ∨ ∀ d ∈ dependencies, ∃ u, d.parse = .ok u := by
      by_cases hfail : config.errorPolicy = .failFast
      · right
        cases hfirst : firstError (dependencies.map SourceText.parse) with
        | some e =>
          rw [parseEach_eq_error_iff.mpr ⟨hfail, hfirst⟩] at h
          cases h
        | none => simpa using firstError_eq_none.mp hfirst
      · left
        cases hp : config.errorPolicy with
        | failFast => exact absurd hp hfail
        | keepGoing => rfl
    rw [parseEach_eq hpolicy] at h
    exact ⟨hpolicy, (Except.ok.inj h).symm⟩
  · rintro ⟨hpolicy, rfl⟩
    exact parseEach_eq hpolicy

/-- Attribution neither adds nor drops an error. -/
theorem result_eq_error_iff {index : TypeIndex} {s : SourceText} {e : ParseError} :
    result config index s = .error e ↔ s.parse = .error e := by
  unfold result
  cases s.parse <;> simp [Except.map]

theorem result_eq_ok_iff {index : TypeIndex} {s : SourceText} {u : CompilationUnit} :
    result config index s = .ok u ↔
      ∃ v, s.parse = .ok v ∧ u = v.attributed index config.implicitLanguage := by
  unfold result
  cases s.parse <;> simp [Except.map, eq_comm]

/-! ## Units -/

/-- A single source is a batch of its own. -/
theorem parseAttributed_eq (config : Config) (s : SourceText) :
    s.parseAttributed config = result config (index [s] []) s := by
  unfold SourceText.parseAttributed result index SourceText.units
  cases h : s.parse with
  | error e => rfl
  | ok u =>
    simp [successes, h, Except.map, bind, Except.bind, pure, Except.pure]

/-- The units that come out of a batch, whichever way it is run. -/
inductive Returns (config : Config) : List SourceText → List SourceText → CompilationUnit → Prop
  | each {sources dependencies : List SourceText}
    {results : List (Except ParseError CompilationUnit)} {u : CompilationUnit}
    (h : parseEach config sources dependencies = .ok results) (hu : .ok u ∈ results) :
    Returns config sources dependencies u
  /-- A unit of a batch without errors. -/
  | all {sources dependencies : List SourceText} {units : List CompilationUnit}
    {u : CompilationUnit} (h : parseAll config sources dependencies = .ok units) (hu : u ∈ units) :
    Returns config sources dependencies u
  /-- A unit of a single source. -/
  | single {s : SourceText} {u : CompilationUnit} (h : s.parseAttributed config = .ok u) :
    Returns config [s] [] u

/-- Every unit is that of a source, attributed against the index of the batch. -/
theorem Returns.exists_source {u : CompilationUnit} (h : Returns config sources dependencies u) :
    ∃ s ∈ sources, ∃ v, s.parse = .ok v ∧
      u = v.attributed (index sources dependencies) config.implicitLanguage := by
  cases h with
  | each h hu =>
    obtain ⟨-, rfl⟩ := parseEach_eq_ok_iff.mp h
    obtain ⟨s, hs, hresult⟩ := List.mem_map.mp hu
    exact ⟨s, hs, result_eq_ok_iff.mp hresult⟩
  | all h hu =>
    obtain ⟨-, hresults⟩ := parseEach_eq_ok_iff.mp (parseAll_eq_ok h)
    have hu := List.mem_map_of_mem (f := Except.ok (ε := ParseError)) hu
    rw [hresults] at hu
    obtain ⟨s, hs, hresult⟩ := List.mem_map.mp hu
    exact ⟨s, hs, result_eq_ok_iff.mp hresult⟩
  | @single s u h =>
    rw [parseAttributed_eq] at h
    exact ⟨s, List.mem_singleton_self s, result_eq_ok_iff.mp h⟩

end Batch

end LosslessJava
