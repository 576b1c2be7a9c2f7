import LosslessJava.Batch
import LosslessJava.Proofs.Grammar.Build.Text
import LosslessJava.Proofs.Resolve.Attribution

/-!
# Parsed trees

* `Parsed`: the trees that come out of the parsers, for all texts, all configurations and all
  batches.
* `Parsed.all_tidy`: all nodes in them are tidy.
* `isGap_of_parsed`: every trivia of a parsed tree is white space and complete comments. A line
  comment in it has its line break in it as well, except at the end of a unit.
* `Batch.parseEach_getElem`: what a batch says about one of its sources.
-/

namespace LosslessJava

/-! ## Batches -/

namespace Batch

variable {config : Config} {sources dependencies : List SourceText}

/-- A batch parses every source for itself and attributes it against one index. -/
theorem parseEach_eq_ok {results : List (Except ParseError CompilationUnit)}
    (h : parseEach config sources dependencies = .ok results) :
    ∃ index, results = (sources.map SourceText.parse).map fun r =>
      r.map (·.attributed index config.implicitLanguage) := by
  unfold parseEach at h
  cases hd : parseDependencies config dependencies with
  | error e =>
    rw [hd] at h
    cases h
  | ok units =>
    rw [hd] at h
    cases h
    exact ⟨_, rfl⟩

theorem parseEach_getElem {results : List (Except ParseError CompilationUnit)}
    (h : parseEach config sources dependencies = .ok results) {i : Nat} {u : CompilationUnit}
    (hu : results[i]? = some (.ok u)) :
    ∃ s v index, sources[i]? = some s ∧ s.parse = .ok v ∧
      u = v.attributed index config.implicitLanguage := by
  obtain ⟨index, rfl⟩ := parseEach_eq_ok h
  rw [List.getElem?_map, List.getElem?_map, Option.map_eq_some_iff] at hu
  obtain ⟨result, hresult, heq⟩ := hu
  obtain ⟨s, hs, rfl⟩ := Option.map_eq_some_iff.mp hresult
  cases hv : s.parse with
  | error e =>
    rw [hv] at heq
    cases heq
  | ok v =>
    rw [hv] at heq
    cases heq
    exact ⟨s, v, index, hs, hv, rfl⟩

theorem collect_eq_ok {ε α : Type} {results : List (Except ε α)} {as : List α} :
    collect results = .ok as ↔ results = as.map .ok := by
  induction results generalizing as with
  | nil =>
    cases as <;> simp [collect]
  | cons r rs ih =>
    cases r with
    | error e => cases as <;> simp [collect]
    | ok a =>
      simp only [collect]
      cases hc : collect rs with
      | error e =>
        cases as with
        | nil => simp [Except.map]
        | cons b bs =>
          simp only [Except.map, List.map_cons, List.cons.injEq, reduceCtorEq, false_iff, not_and]
          intro _ hrs
          have := ih.mpr hrs
          rw [hc] at this
          cases this
      | ok cs =>
        cases as with
        | nil => simp [Except.map]
        | cons b bs =>
          have := @ih bs
          rw [hc] at this
          simp [Except.map, ← this]

/-- All units of a batch are its results. -/
theorem parseAll_eq_ok {units : List CompilationUnit}
    (h : parseAll config sources dependencies = .ok units) :
    parseEach config sources dependencies = .ok (units.map .ok) := by
  unfold parseAll at h
  cases hr : parseEach config sources dependencies with
  | error e =>
    rw [hr] at h
    cases h
  | ok results =>
    rw [hr] at h
    rw [collect_eq_ok.mp h]

end Batch

theorem SourceText.parseAttributed_eq_ok {config : Config} {s : SourceText} {u : CompilationUnit}
    (h : s.parseAttributed config = .ok u) :
    ∃ v index, s.parse = .ok v ∧ u = v.attributed index config.implicitLanguage := by
  unfold parseAttributed at h
  cases hv : s.parse with
  | error e =>
    rw [hv] at h
    cases h
  | ok v =>
    rw [hv] at h
    cases h
    exact ⟨v, _, rfl, rfl⟩

/-- Whether a text is accepted can be computed. -/
theorem exists_ok {ε α : Type} {x : Except ε α} {p : α → Bool} (h : x.toOption.any p = true) :
    ∃ a, x = .ok a ∧ p a = true := by
  cases x with
  | error e => cases h
  | ok a => exact ⟨a, rfl, h⟩

/-! ## Trees -/

/-- The trees that come out of the parsers. -/
inductive Parsed : Node → Prop
  | unit {path : Option String} {source : String} {u : CompilationUnit}
    (h : parseUnit path source = .ok u) : Parsed (.unit u)
  /-- A unit of a single source. -/
  | single {config : Config} {s : SourceText} {u : CompilationUnit}
    (h : s.parseAttributed config = .ok u) : Parsed (.unit u)
  /-- A result of a batch. -/
  | each {config : Config} {sources dependencies : List SourceText}
    {results : List (Except ParseError CompilationUnit)} {u : CompilationUnit}
    (h : Batch.parseEach config sources dependencies = .ok results) (hu : .ok u ∈ results) :
    Parsed (.unit u)
  /-- A unit of a batch without errors. -/
  | all {config : Config} {sources dependencies : List SourceText} {units : List CompilationUnit}
    {u : CompilationUnit} (h : Batch.parseAll config sources dependencies = .ok units)
    (hu : u ∈ units) : Parsed (.unit u)
  | statement {source : String} {s : Statement} (h : parseStatement source = .ok s) :
    Parsed (.statement s)
  | expression {source : String} {e : Expression} (h : parseExpression source = .ok e) :
    Parsed (.expression e)

theorem all_tidy_attributed {u : CompilationUnit} (h : (Node.unit u).All Node.Tidy)
    (index : TypeIndex) (implicitLanguage : Bool) :
    (Node.unit (u.attributed index implicitLanguage)).All Node.Tidy := by
  refine Node.All.of_untyped (fun _ _ => Node.Tidy.of_untyped) h ?_
  rw [Node.untyped, Node.untyped, CompilationUnit.untyped_attributed]

theorem SourceText.all_tidy_of_parse {s : SourceText} {u : CompilationUnit}
    (h : s.parse = .ok u) (index : TypeIndex) (implicitLanguage : Bool) :
    (Node.unit (u.attributed index implicitLanguage)).All Node.Tidy :=
  all_tidy_attributed (parseUnit_reads h).2 index implicitLanguage

theorem Batch.all_tidy_of_parseEach {config : Config} {sources dependencies : List SourceText}
    {results : List (Except ParseError CompilationUnit)} {u : CompilationUnit}
    (h : Batch.parseEach config sources dependencies = .ok results) (hu : .ok u ∈ results) :
    (Node.unit u).All Node.Tidy := by
  obtain ⟨i, hi⟩ := List.mem_iff_getElem?.mp hu
  obtain ⟨s, v, index, -, hv, rfl⟩ := parseEach_getElem h hi
  exact SourceText.all_tidy_of_parse hv index _

/-- Every node of a parsed tree is tidy. -/
theorem Parsed.all_tidy {n : Node} (h : Parsed n) : n.All Node.Tidy := by
  cases h with
  | unit h => exact (parseUnit_reads h).2
  | single h =>
    obtain ⟨v, index, hv, rfl⟩ := SourceText.parseAttributed_eq_ok h
    exact SourceText.all_tidy_of_parse hv index _
  | each h hu => exact Batch.all_tidy_of_parseEach h hu
  | all h hu =>
    exact Batch.all_tidy_of_parseEach (Batch.parseAll_eq_ok h) (List.mem_map.mpr ⟨_, hu, rfl⟩)
  | statement h =>
    obtain ⟨xs, t, -, hs, -⟩ := parseStatement_reads h
    exact hs.1.tidy
  | expression h =>
    obtain ⟨xs, t, -, he, -⟩ := parseExpression_reads h
    exact he.tidy

/-- Trivia at any depth of a parsed tree hides no token. -/
theorem isGap_of_parsed {root n : Node} {t : Trivia} (hroot : Parsed root)
    (hn : Node.Within n root) (ht : t ∈ n.trivia) : Lex.IsGap (n.form == .unit) t.toList :=
  (hroot.all_tidy n hn).gaps t ht

/-- A comment in front of a semicolon. -/
theorem isGap_of_parsed_comment : ∃ s t, parseStatement "throw e /* c */ ;" = .ok s ∧
    t ∈ (Node.statement s).trivia ∧ t.text = " /* c */ " ∧ Lex.IsGap false t.toList := by
  obtain ⟨s, h, hs⟩ := exists_ok (x := parseStatement "throw e /* c */ ;")
    (p := fun s => (Node.statement s).trivia.any (·.text == " /* c */ ")) (by decide +kernel)
  obtain ⟨t, ht, htext⟩ := List.any_eq_true.mp hs
  exact ⟨s, t, h, ht, beq_iff_eq.mp htext, isGap_of_parsed (.statement h) (.refl _) ht⟩

end LosslessJava
