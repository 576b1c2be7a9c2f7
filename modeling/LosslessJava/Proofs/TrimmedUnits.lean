import LosslessJava.Proofs.Parsed

/-!
# Trimmed prints of units

A trimmed print leaves out the white space at its end. It leaves out a final semicolon as well, but
only one that is the last thing written, so that white space behind the semicolon keeps it.

* `CompilationUnit.lastTerminator?`: the semicolon that ends a unit without classes.
* `CompilationUnit.endsWith_bodySteps`: the steps of a unit end with a token or with that semicolon.
* `printTrimmed_tail_iff`: white space at the end of a unit leaves its trimmed print as it is when
  the unit does not end with a semicolon, and keeps the semicolon otherwise.
* `not_printTrimmed_tail`: a package declaration and a line feed.
-/

namespace LosslessJava

open Printer (AtToken)

/-! ## Steps that end with a semicolon -/

theorem Closes.atToken {ss : List Step} (h : Closes ss) :
    AtToken (ss.foldl Printer.step (Printer.new .trimmed)) := by
  obtain ⟨init, s, rfl, hs⟩ := h
  exact .foldl_token init hs.last

/-- The steps end with a token, or with a semicolon behind a token, or there are none. -/
inductive EndsWith : Option Trivia → List Step → Prop
  | nothing : EndsWith none []
  | token {ss : List Step} (h : Closes ss) : EndsWith none ss
  | terminator {ss : List Step} (h : Closes ss) (t : Trivia) :
    EndsWith (some t) (ss ++ [.terminator t])

theorem Framed.endsWith {lead t : Trivia} {s : Step} {front steps : List Step}
    (h : Framed lead steps) (hsteps : steps = s :: front ++ [.terminator t]) :
    EndsWith (some t) steps := by
  cases h with
  | whole h =>
    obtain ⟨init, w, heq, -⟩ := h.closes
    cases (List.append_singleton_inj.mp (hsteps.symm.trans heq)).2
  | ended h heq _ =>
    obtain ⟨-, hterminator⟩ := List.append_singleton_inj.mp (hsteps.symm.trans heq)
    rw [heq, ← Step.terminator.inj hterminator]
    exact .terminator h.closes t
  | lone heq _ => simp [hsteps] at heq

theorem EndsWith.append {last : Option Trivia} {ts : List Step} (h : EndsWith last ts)
    (hne : ts ≠ []) (ss : List Step) : EndsWith last (ss ++ ts) := by
  cases h with
  | nothing => exact absurd rfl hne
  | token h => exact .token (h.append ss)
  | terminator h t =>
    rw [← List.append_assoc]
    exact .terminator (h.append ss) t

/-- The trimmed print of steps with white space behind them is the same for all white space, unless
the steps end with a semicolon. Then any white space keeps the semicolon. -/
theorem EndsWith.render_trimmed {last : Option Trivia} {ss : List Step} (h : EndsWith last ss) :
    ∃ out : String, (∀ cs, out.toList ≠ cs ++ [';']) ∧
      ∀ w : Trivia, (∀ c ∈ w.toList, isBlank c = true) →
        (w = .empty ∨ last = none → Step.render .trimmed (ss ++ [.trivia w]) = out) ∧
        ∀ t, last = some t → w ≠ .empty →
          Step.render .trimmed (ss ++ [.trivia w]) = out ++ t.text ++ ";" := by
  cases h with
  | nothing => exact ⟨"", by simp, fun w _ => ⟨fun _ => rfl, fun t ht => by cases ht⟩⟩
  | token h =>
    refine ⟨(ss.foldl Printer.step (.new .trimmed)).out, h.atToken.not_semicolon, fun w hw => ?_⟩
    refine ⟨fun _ => ?_, fun t ht => by cases ht⟩
    rw [Step.render, List.foldl_append]
    exact h.atToken.finish_trivia hw
  | @terminator ss h t =>
    refine ⟨(ss.foldl Printer.step (.new .trimmed)).out, h.atToken.not_semicolon, fun w hw => ?_⟩
    rw [Step.render, List.foldl_append, List.foldl_append, List.foldl_cons, List.foldl_nil,
      List.foldl_cons, List.foldl_nil]
    refine ⟨fun hempty => ?_, fun u hu hne => ?_⟩
    · obtain rfl : w = .empty := hempty.resolve_right (by simp)
      rw [Printer.step_empty]
      exact h.atToken.finish_terminator t
    · obtain rfl : t = u := Option.some.inj hu
      exact h.atToken.finish_terminator_trivia t hw hne

namespace CompilationUnit

/-- The trivia in front of the semicolon that ends the unit, when its last part is an import or the
package declaration. -/
def lastTerminator? (u : CompilationUnit) : Option Trivia :=
  if u.classes.isEmpty then
    (u.imports.getLast?.map (·.terminator)).or (u.package.map (·.terminator))
  else none

/-- The steps of a unit in front of the trivia at its end. -/
def bodySteps (u : CompilationUnit) : List Step :=
  (u.package.map PackageDeclaration.steps).getD [] ++ u.imports.flatMap Import.steps ++
    u.classes.flatMap ClassDeclaration.steps

theorem endsWith_bodySteps {u : CompilationUnit} (h : (Node.unit u).All Node.Tidy) :
    EndsWith u.lastTerminator? u.bodySteps := by
  obtain ⟨path, package, imports, classes, tail⟩ := u
  have hshaped := fun n hn => (h.child (k := n) hn).self.shaped
  rcases List.eq_nil_or_concat classes with rfl | ⟨classes, c, rfl⟩
  · rcases List.eq_nil_or_concat imports with rfl | ⟨imports, i, rfl⟩
    · cases package with
      | none => exact .nothing
      | some d =>
        have hd : Framed d.lead d.steps := hshaped (.package d) (by simp [Node.children])
        simpa [bodySteps, lastTerminator?] using hd.endsWith rfl
    · have hi : Framed i.lead i.steps := hshaped (.importDeclaration i) (by simp [Node.children])
      have hends := (hi.endsWith rfl).append (by simp [Import.steps, spaced])
        ((package.map PackageDeclaration.steps).getD [] ++ imports.flatMap Import.steps)
      simpa [bodySteps, lastTerminator?] using hends
  · have hc : Whole c.lead c.steps := hshaped (.classDeclaration c) (by simp [Node.children])
    have hends := EndsWith.token (hc.closes.append
      ((package.map PackageDeclaration.steps).getD [] ++ imports.flatMap Import.steps ++
        classes.flatMap ClassDeclaration.steps))
    simpa [bodySteps, lastTerminator?] using hends

end CompilationUnit

/-- White space at the end of a parsed unit does not show in its trimmed print, if the unit ends
with a class or is empty. If it ends with a package declaration or an import, the print leaves out
its semicolon only where nothing at all stands behind it, and any white space keeps the semicolon
and the trivia in front of that. -/
theorem printTrimmed_tail_iff {u : CompilationUnit} (h : Parsed (.unit u)) {w : Trivia}
    (hw : ∀ c ∈ w.toList, isBlank c = true) :
    (printTrimmed { u with tail := w } = printTrimmed { u with tail := .empty } ↔
      w = .empty ∨ u.lastTerminator? = none) ∧
    (∀ t, u.lastTerminator? = some t → w ≠ .empty →
      printTrimmed { u with tail := w } =
        printTrimmed { u with tail := .empty } ++ t.text ++ ";") ∧
    ∀ cs, (printTrimmed { u with tail := .empty }).toList ≠ cs ++ [';'] := by
  obtain ⟨out, hout, hprint⟩ := (CompilationUnit.endsWith_bodySteps h.all_tidy).render_trimmed
  have hempty : printTrimmed { u with tail := .empty } = out :=
    (hprint .empty (by simp)).1 (.inl rfl)
  rw [hempty]
  obtain ⟨hsame, hkept⟩ := hprint w hw
  refine ⟨⟨fun heq => ?_, hsame⟩, hkept, hout⟩
  by_contra hne
  obtain ⟨hwne, hlast⟩ := not_or.mp hne
  obtain ⟨t, ht⟩ := Option.ne_none_iff_exists'.mp hlast
  -- The print would end with a semicolon.
  have hsemicolon := (hkept t ht hwne).symm.trans heq
  refine hout (out ++ t.text).toList ?_
  rw [← congrArg String.toList hsemicolon, String.toList_append]
  rfl

/-- A class behind an import, and an import with a comment in front of its semicolon. -/
theorem printTrimmed_tail_iff_import : ∃ u v,
    parseUnit none "import a; class A \x7b ; \x7d" = .ok u ∧
    parseUnit none "import a /* b */ ;" = .ok v ∧
    printTrimmed { u with tail := ⟨"\t\n"⟩ } = printTrimmed { u with tail := .empty } ∧
    printTrimmed { v with tail := ⟨"\t\n"⟩ } =
      printTrimmed { v with tail := .empty } ++ " /* b */ " ++ ";" := by
  obtain ⟨u, hu, hlast⟩ := exists_ok (x := parseUnit none "import a; class A \x7b ; \x7d")
    (p := fun u => u.lastTerminator? = none) (by decide +kernel)
  obtain ⟨v, hv, hlast'⟩ := exists_ok (x := parseUnit none "import a /* b */ ;")
    (p := fun v => v.lastTerminator? = some ⟨" /* b */ "⟩) (by decide +kernel)
  have hblank : ∀ c ∈ (Trivia.mk "\t\n").toList, isBlank c = true :=
    List.all_eq_true.mp (by decide)
  obtain ⟨hiff, -⟩ := printTrimmed_tail_iff (.unit hu) hblank
  obtain ⟨-, hkept, -⟩ := printTrimmed_tail_iff (.unit hv) hblank
  exact ⟨u, v, hu, hv, hiff.mpr (.inr (of_decide_eq_true hlast)),
    hkept _ (of_decide_eq_true hlast') (by decide)⟩

/-- The line feed behind a package declaration keeps its semicolon in the trimmed print. -/
theorem not_printTrimmed_tail : ∃ u, parseUnit none "package p;\n" = .ok u ∧
    (∀ c ∈ u.tail.toList, isBlank c = true) ∧
    printTrimmed { u with tail := u.tail } = "package p;" ∧
    printTrimmed { u with tail := .empty } = "package p" := by
  obtain ⟨u, hu, h⟩ := exists_ok (x := parseUnit none "package p;\n")
    (p := fun u => u.tail.toList.all isBlank = true ∧
      printTrimmed { u with tail := u.tail } = "package p;" ∧
      printTrimmed { u with tail := .empty } = "package p")
    (by decide +kernel)
  obtain ⟨hblank, hprints⟩ := of_decide_eq_true h
  exact ⟨u, hu, List.all_eq_true.mp hblank, hprints⟩

end LosslessJava
