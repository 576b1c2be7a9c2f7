import LosslessJava.Imports
import LosslessJava.Proofs.Grammar.Header
import LosslessJava.Proofs.Lossless

/-!
# Imports in another order

A parsed unit with its imports in another order prints as a text that is read as that very unit.
Each import takes along the trivia in front of it, and a comment in it that runs to the end of a
line is ended inside of it, so the imports fit behind one another in every order.

* `parse_compilationUnit`: a unit is its package, its imports, its classes and the end.
* `parse_reordered`: the lexemes of a unit with other imports, from those of the unit.
* `Reparses`, `reparses_reordered`: the theorem for every way to parse a unit.
-/

namespace LosslessJava

open Grammar Grammar.Parser
open Lexeme (Relexed textOf ofText)

/-! ## Parts of a unit -/

namespace Grammar

variable {ls m : List Lexeme} {u : CompilationUnit}

/-- A unit is its package, its imports, its classes and the end. -/
theorem parse_compilationUnit {r : Rules} :
    (compilationUnit r).parse ls = some (u, m) ↔ u.path = none ∧ ∃ behind rest,
      (optional (packageDeclaration r.bound)).parse ls = some (u.package, behind) ∧
      parseMany (importDeclaration r.bound) r.bound behind = (u.imports, rest) ∧
      parseMany (classDeclaration r) r.bound rest = (u.classes, ⟨u.tail, .finish⟩ :: m) := by
  constructor
  · intro h
    obtain ⟨_, t, last, hall, hlast, rfl⟩ := parse_seq_eq_some.mp h
    obtain ⟨_, cs, rest, hhead, hclasses, rfl⟩ := parse_seq_eq_some.mp hall
    obtain ⟨_, is, behind, hfirst, himports, rfl⟩ := parse_seq_eq_some.mp hhead
    obtain ⟨o, hpackage, rfl⟩ := parse_map_eq_some.mp hfirst
    obtain rfl := parse_endOfInput.mp hlast
    exact ⟨rfl, behind, rest, hpackage, Option.some.inj himports, Option.some.inj hclasses⟩
  · obtain ⟨path, o, is, cs, t⟩ := u
    rintro ⟨rfl, behind, rest, hpackage, himports, hclasses⟩
    refine parse_seq_eq_some.mpr ⟨_, t, _, ?_, parse_endOfInput.mpr rfl, rfl⟩
    refine parse_seq_eq_some.mpr ⟨_, cs, rest, ?_, congrArg some hclasses, rfl⟩
    refine parse_seq_eq_some.mpr ⟨_, is, behind, ?_, congrArg some himports, rfl⟩
    exact parse_map_eq_some.mpr ⟨o, hpackage, rfl⟩

variable {xs ys rest : List Lexeme} {o : Option PackageDeclaration} {is : List Import} {d : Nat}

theorem perhaps_package (hls : Lexed ls) (hd : ls.length ≤ d)
    (h : (optional (packageDeclaration d)).parse ls = some (o, m)) :
    ∃ xs, ls = xs ++ m ∧ Perhaps (Portable packageDeclaration) xs o := by
  rcases parse_optional_eq_some.mp h with ⟨rfl, rfl, -⟩ | ⟨a, rfl, ha⟩
  · exact ⟨[], rfl, .none⟩
  · obtain ⟨xs, rfl, hxs⟩ := exists_portable_package hls hd ha
    exact ⟨xs, rfl, .some hxs⟩

/-- The package is read in front of other imports. Without a package, there must be imports in both
places or in none of them. -/
theorem parse_package (h : Perhaps (Portable packageDeclaration) xs o) (hd : xs.length ≤ d)
    (hys : Several (Portable importDeclaration) ys is) {zs : List Lexeme}
    (hzs : is = [] → ys ++ rest = zs)
    (hbefore : (optional (packageDeclaration d)).parse (xs ++ zs) = some (o, zs)) :
    (optional (packageDeclaration d)).parse (xs ++ (ys ++ rest)) = some (o, ys ++ rest) := by
  cases h with
  | none =>
    refine parse_optional_eq_some.mpr (.inl ⟨rfl, rfl, ?_⟩)
    cases hys with
    | nil =>
      rw [hzs rfl]
      rcases parse_optional_eq_some.mp hbefore with ⟨-, -, hnone⟩ | ⟨a, heq, -⟩
      · exact hnone
      · cases heq
    | cons hi _ =>
      rw [List.nil_append, List.append_assoc]
      exact parse_package_import hi
  | some ha => exact parse_optional_eq_some.mpr (.inr ⟨_, rfl, ha.parse d _ hd⟩)

theorem relexed_package (h : Perhaps (Portable packageDeclaration) xs o) : Relexed xs := by
  cases h with
  | none => exact fun _ => rfl
  | some ha => exact ha.relexed

theorem valid_package (h : Perhaps (Portable packageDeclaration) xs o) : ∀ l ∈ xs, l.Valid := by
  cases h with
  | none => simp
  | some ha => exact ha.valid

theorem text_package (h : Perhaps (Portable packageDeclaration) xs o) :
    textOf xs = Step.text ((o.map PackageDeclaration.steps).getD []) := by
  cases h with
  | none => rfl
  | some ha => exact ha.text

/-- From the lexemes of a unit to those of the unit with its imports in another order. -/
theorem parse_reordered (hls : Lexed ls) (htext : textOf ls = Step.text u.steps)
    (hd : ls.length ≤ d) (h : (compilationUnit (rules (d + 1))).parse ls = some (u, m))
    (his : is.Perm u.imports) :
    ∃ ls', Lexed ls' ∧ ls'.length = ls.length ∧
      textOf ls' = Step.text { u with imports := is }.steps ∧
      (compilationUnit (rules (d + 1))).parse ls' = some ({ u with imports := is }, m) := by
  obtain ⟨hpath, behind, rest, hpackage, himports, hclasses⟩ := parse_compilationUnit.mp h
  obtain ⟨xs, rfl, hxs⟩ := perhaps_package hls (Nat.le_succ_of_le hd) hpackage
  have hbehind := hls.right (relexed_package hxs)
  rw [List.length_append] at hd
  obtain ⟨ys, rfl, hys⟩ := several_imports hbehind (show behind.length ≤ d + 1 by omega) himports
  have hnone : (importDeclaration (d + 1)).parse rest = none :=
    parse_import_of_parseMany hbehind (by omega) (Nat.lt_succ_of_le (by omega)) himports
  obtain ⟨zs, hzs, hperm⟩ := hys.perm his.symm
  rw [List.length_append, hperm.length_eq] at hd
  have hrest := hbehind.right (hys.relexed fun _ _ h => h.relexed)
  refine ⟨xs ++ (zs ++ rest), ?_, by simp [hperm.length_eq], ?_, ?_⟩
  · exact .append (relexed_package hxs) (valid_package hxs) <|
      .append (hzs.relexed fun _ _ h => h.relexed) (hzs.valid fun _ _ h => h.valid) hrest
  · -- The text of the classes is what is left of that of the unit.
    have hys' : textOf ys = Step.text (u.imports.flatMap Import.steps) :=
      hys.text fun _ _ h => h.text
    have hzs' : textOf zs = Step.text (is.flatMap Import.steps) := hzs.text fun _ _ h => h.text
    simp only [CompilationUnit.steps, Lexeme.textOf_append, Step.text_append, text_package hxs,
      hys', hzs', List.append_assoc, List.append_cancel_left_eq] at htext ⊢
    exact htext
  · refine parse_compilationUnit.mpr ⟨hpath, zs ++ rest, rest, ?_, ?_, hclasses⟩
    · refine parse_package hxs (show xs.length ≤ d + 1 by omega) hzs ?_ hpackage
      rintro rfl
      rw [List.nil_perm.mp his] at hys
      cases hzs
      cases hys
      rfl
    · exact parseMany_imports hnone hzs (show zs.length ≤ d + 1 by omega)
        (show zs.length ≤ d + 1 by omega)

end Grammar

/-! ## Whole units -/

section

variable {path : Option String} {source : String} {u v : CompilationUnit} {is : List Import}

theorem parseUnit_eq_ok :
    parseUnit path source = .ok u ↔ u.path = path ∧ (∀ l ∈ ofText source.toList, l.Valid) ∧
      ∃ rest, (compilationUnit (rules ((ofText source.toList).length + 1))).parse
        (ofText source.toList) = some ({ u with path := none }, rest) := by
  unfold parseUnit
  constructor
  · intro h
    cases hv : read path .compilationUnit compilationUnit Build.compilationUnit source with
    | error e =>
      rw [hv] at h
      cases h
    | ok v =>
      rw [hv] at h
      cases h
      obtain ⟨⟨rest, hparse⟩, hvalid⟩ := (read_eq_ok buildsText_unit).mp hv
      refine ⟨rfl, firstInvalid_eq_none.mp hvalid, rest, ?_⟩
      obtain ⟨path, o, is, cs, t⟩ := v
      obtain rfl : path = none := (parse_compilationUnit.mp hparse).1
      exact hparse
  · rintro ⟨rfl, hvalid, hparse⟩
    rw [(read_eq_ok buildsText_unit).mpr ⟨hparse, firstInvalid_eq_none.mpr hvalid⟩]
    rfl

theorem parseUnit_reordered (h : parseUnit path source = .ok u) (his : is.Perm u.imports) :
    parseUnit path (print { u with imports := is }) = .ok { u with imports := is } := by
  obtain ⟨rfl, hvalid, rest, hparse⟩ := parseUnit_eq_ok.mp h
  have htext : textOf (ofText source.toList) = Step.text u.steps := by
    rw [Lexeme.textOf_ofText, (parseUnit_reads h).1]
  obtain ⟨ls, hls, hlength, hprint, hread⟩ :=
    parse_reordered (u := { u with path := none }) (lexed_ofText hvalid) htext (Nat.le_refl _)
      hparse his
  have hofText : ofText (print { u with imports := is }).toList = ls := by
    rw [toList_print, ← hls.ofText]
    exact congrArg ofText hprint.symm
  rw [parseUnit_eq_ok, hofText]
  refine ⟨rfl, hls.valid, rest, ?_⟩
  rw [hlength]
  exact hread

theorem print_eq_of_untyped (h : u.untyped = v.untyped) : print u = print v := by
  have hu := (Node.unit u).steps_untyped
  have hv := (Node.unit v).steps_untyped
  rw [Node.untyped, h] at hu
  exact congrArg (Step.render .verbatim) (hu.symm.trans hv)

/-! ## Every way to parse -/

/-- The print of the unit is read as the unit, up to the types of its attribution: by itself, as a
single source, and as a source of a batch. -/
structure Reparses (u : CompilationUnit) : Prop where
  parse : ∃ v, parseUnit u.path (print u) = .ok v ∧ v.untyped = u.untyped
  single : ∀ config, ∃ v, SourceText.parseAttributed config ⟨u.path, print u⟩ = .ok v ∧
    v.untyped = u.untyped
  each : ∀ config sources dependencies results,
    Batch.parseEach config sources dependencies = .ok results →
      ∀ i : Nat, sources[i]? = some ⟨u.path, print u⟩ →
        ∃ v, results[i]? = some (.ok v) ∧ v.untyped = u.untyped

theorem reparses_of_parse (h : parseUnit v.path (print v) = .ok v) (huv : u.untyped = v.untyped) :
    Reparses u := by
  have hpath : u.path = v.path := (congrArg CompilationUnit.path huv :)
  have hsource : SourceText.parse ⟨u.path, print u⟩ = .ok v := by
    rw [hpath, print_eq_of_untyped huv]
    exact h
  refine ⟨⟨v, hsource, huv.symm⟩, fun config => ?_, ?_⟩
  · refine ⟨v.attributed (.ofUnits [v]) config.implicitLanguage, ?_, ?_⟩
    · simp only [SourceText.parseAttributed, hsource, bind, Except.bind, pure, Except.pure]
    · rw [CompilationUnit.untyped_attributed, huv]
  · intro config sources dependencies results hresults i hi
    obtain ⟨index, rfl⟩ := Batch.parseEach_eq_ok hresults
    refine ⟨v.attributed index config.implicitLanguage, ?_, ?_⟩
    · simp [hi, hsource, Except.map]
    · rw [CompilationUnit.untyped_attributed, huv]

/-- Every parsed unit comes from an unattributed one. -/
theorem Parsed.exists_parseUnit (h : Parsed (.unit u)) :
    ∃ path source v, parseUnit path source = .ok v ∧ u.untyped = v.untyped := by
  have hattributed : ∀ (s : SourceText) (w : CompilationUnit) index implicitLanguage,
      s.parse = .ok w → u = w.attributed index implicitLanguage →
      ∃ path source v, parseUnit path source = .ok v ∧ u.untyped = v.untyped := by
    rintro s w index implicitLanguage hw rfl
    exact ⟨s.path, s.text, w, hw, w.untyped_attributed index implicitLanguage⟩
  cases h with
  | unit h => exact ⟨_, _, u, h, rfl⟩
  | single h =>
    obtain ⟨w, index, hw, heq⟩ := SourceText.parseAttributed_eq_ok h
    exact hattributed _ w index _ hw heq
  | each h hu =>
    obtain ⟨i, hi⟩ := List.mem_iff_getElem?.mp hu
    obtain ⟨s, w, index, -, hw, heq⟩ := Batch.parseEach_getElem h hi
    exact hattributed s w index _ hw heq
  | all h hu =>
    have hmem := List.mem_map_of_mem (f := Except.ok (ε := ParseError)) hu
    obtain ⟨i, hi⟩ := List.mem_iff_getElem?.mp hmem
    obtain ⟨s, w, index, -, hw, heq⟩ := Batch.parseEach_getElem (Batch.parseAll_eq_ok h) hi
    exact hattributed s w index _ hw heq

/-- A parsed unit with its imports in any order, such as the sorted one, prints as a text that is
read as that unit. -/
theorem reparses_reordered (h : Parsed (.unit u)) :
    (∀ is, is.Perm u.imports → Reparses { u with imports := is }) ∧ Reparses u.sortImports := by
  have hall : ∀ is, is.Perm u.imports → Reparses { u with imports := is } := by
    intro is his
    obtain ⟨path, source, v, hv, huv⟩ := h.exists_parseUnit
    have himports : u.imports = v.imports := (congrArg CompilationUnit.imports huv :)
    have hread := parseUnit_reordered hv (himports ▸ his)
    have hpath : v.path = path := (parseUnit_eq_ok.mp hv).1
    rw [← hpath] at hread
    exact reparses_of_parse hread (congrArg (fun w => { w with imports := is }) huv)
  exact ⟨hall, hall _ (List.mergeSort_perm _ _)⟩

/-- Three imports on two lines, with comments at the seams. -/
theorem reparses_reordered_comments :
    ∃ u, parseUnit none "package p; import b.B; // c\nimport static a.A.*;/* d */import a.C;" =
        .ok u ∧
      u.imports.length = 3 ∧ Import.isSorted u.imports = false ∧
      Reparses { u with imports := u.imports.reverse } ∧ Reparses u.sortImports := by
  obtain ⟨u, h, hu⟩ := exists_ok
    (x := parseUnit none "package p; import b.B; // c\nimport static a.A.*;/* d */import a.C;")
    (p := fun u => u.imports.length == 3 && !Import.isSorted u.imports) (by decide +kernel)
  rw [Bool.and_eq_true, beq_iff_eq, Bool.not_eq_true'] at hu
  obtain ⟨hperm, hsorted⟩ := reparses_reordered (.unit h)
  exact ⟨u, h, hu.1, hu.2, hperm _ (List.reverse_perm _), hsorted⟩

end

end LosslessJava
