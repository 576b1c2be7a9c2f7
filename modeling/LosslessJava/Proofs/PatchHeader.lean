import LosslessJava.Proofs.Diff.Patch
import LosslessJava.Proofs.Diff.Path
import LosslessJava.Proofs.Parsed

/-!
# The header of a patch

A patch starts with three lines that name a file, by a path that can be made relative to a base.

* `Diff.Path.IsRelative`: the name of a path relative to a base.
* `Change.diffRelativeTo_names`: the three lines have the same name in them, and what is behind them
  does not depend on the base. The name is that of the new unit, or else of the old one, except for
  a new unit without a path.
* `Change.not_diff_names_before`: a new unit without a path is called `partial`, although the old
  one has a path.
-/

namespace LosslessJava

namespace Diff.Path

/-- The name of a path relative to a base: what is left of it behind the components of the base, as
written, or the whole path if it does not lie below the base. -/
def IsRelative (base : Option String) (path name : String) : Prop :=
  match base with
  | none => name = path
  | some base =>
    if components base.toList <+: components path.toList then
      components path.toList = components base.toList ++ components name.toList ∧
        name.toList <:+: path.toList
    else name = path

theorem isRelative_relativeTo (base : Option String) (path : String) :
    IsRelative base path (relativeTo base path) := by
  cases base with
  | none => rfl
  | some base =>
    rw [IsRelative, relativeTo, Option.bind_some]
    cases h : below? path base with
    | none => exact (if_neg (below?_eq_none_iff.mp h)).mpr rfl
    | some name =>
      have hcomponents := components_of_below? h
      rw [if_pos (hcomponents.1 ▸ List.prefix_append _ _)]
      exact hcomponents

end Diff.Path

namespace Change

open Diff

/-- The path of the new unit, or else that of the old one. -/
def sourcePath (c : Change) : String :=
  ((c.after.bind (·.path)).or (c.before.bind (·.path))).getD "partial"

/-- There is a new unit, and it has no path although the old one has one. -/
def LosesPath (c : Change) : Prop :=
  c.after.isSome = true ∧ c.after.bind (·.path) = none ∧ c.before.bind (·.path) ≠ none

instance (c : Change) : Decidable c.LosesPath := inferInstanceAs (Decidable (_ ∧ _ ∧ _))

theorem path_eq (c : Change) : c.path = if c.LosesPath then "partial" else c.sourcePath := by
  obtain ⟨before, after, visitors⟩ := c
  rw [path, sourcePath]
  cases after with
  | none => rfl
  | some v =>
    rw [Option.some_or]
    cases hafter : (some v).bind (·.path) with
    | some path =>
      rw [if_neg fun hloses => Option.some_ne_none path (hafter.symm.trans hloses.2.1)]
      rfl
    | none =>
      cases hbefore : before.bind (·.path) with
      | some path =>
        rw [if_pos ⟨rfl, hafter, fun hnone => Option.some_ne_none path (hbefore.symm.trans hnone)⟩]
        rfl
      | none =>
        rw [if_neg fun hloses => hloses.2.2 hbefore]
        rfl

/-- A patch that is not empty starts with three lines that name the file. It is the same name in all
of them, and what is behind them is the same for every base. The name is the path of the new unit,
or else that of the old one, or else `partial`, relative to the base. Only a new unit without a path
is always called `partial`. -/
theorem diffRelativeTo_names {c : Change} (h : sourceOf c.before ≠ sourceOf c.after) :
    let path := if c.LosesPath then "partial" else c.sourcePath
    ∃ body, c.diff = String.join ((Patch.fileLines path).map (· ++ "\n")) ++ body ∧
      ∀ base, ∃ name, Path.IsRelative base path name ∧
        c.diffRelativeTo base = String.join ((Patch.fileLines name).map (· ++ "\n")) ++ body := by
  intro path
  have hpath : c.path = path := c.path_eq
  have hdiff : ∃ body, ∀ base,
      c.diffRelativeTo base = header (Path.relativeTo base path) ++ body := by
    rw [← hpath]
    exact ⟨_, fun base => if_neg h⟩
  obtain ⟨body, hbody⟩ := hdiff
  simp only [header_eq] at hbody
  exact ⟨body, hbody none, fun base => ⟨_, Path.isRelative_relativeTo base path, hbody base⟩⟩

/-- A path with separators and `.` in it that count for nothing, and a base with one at its end. -/
theorem diffRelativeTo_names_base :
    ∃ u v body name, parseUnit (some "/repo//src/./A.java") "class A \x7b\x7d\n" = .ok u ∧
      parseUnit none "class B \x7b\x7d\n" = .ok v ∧
      (Change.mk (some v) (some u) []).diffRelativeTo (some "/repo/") =
        String.join ((Patch.fileLines name).map (· ++ "\n")) ++ body ∧
      Path.components name.toList = [.name "src".toList, .name "A.java".toList] := by
  obtain ⟨u, hu, h⟩ := exists_ok
    (x := parseUnit (some "/repo//src/./A.java") "class A \x7b\x7d\n")
    (p := fun u => (parseUnit none "class B \x7b\x7d\n").toOption.any fun v =>
      sourceOf (some v) ≠ sourceOf (some u) ∧ u.path = some "/repo//src/./A.java")
    (by decide +kernel)
  obtain ⟨v, hv, h⟩ := exists_ok h
  obtain ⟨hne, hpath⟩ := of_decide_eq_true h
  obtain ⟨body, -, hnames⟩ := diffRelativeTo_names (c := ⟨some v, some u, []⟩) hne
  obtain ⟨name, hname, hdiff⟩ := hnames (some "/repo/")
  have hpath : (Change.mk (some v) (some u) []).path = "/repo//src/./A.java" := by
    rw [Change.path, Option.some_or, Option.bind_some, hpath, Option.getD_some]
  have hbase : Path.components "/repo/".toList = [.root, .name "repo".toList] := by
    decide +kernel
  have hcomponents : Path.components "/repo//src/./A.java".toList =
      [.root, .name "repo".toList] ++ [.name "src".toList, .name "A.java".toList] := by
    decide +kernel
  rw [← path_eq, hpath, Path.IsRelative, hbase, hcomponents, if_pos (List.prefix_append _ _)]
    at hname
  exact ⟨u, v, body, name, hu, hv, hdiff, (List.append_cancel_left hname.1).symm⟩

/-- The old unit has a path, and the header does not name it. -/
theorem not_diff_names_before :
    ∃ u v, parseUnit (some "A.java") "class A \x7b\x7d\n" = .ok u ∧
      parseUnit none "class B \x7b\x7d\n" = .ok v ∧
      (Change.mk (some u) (some v) []).sourcePath = "A.java" ∧
      ¬ "diff --git a/A.java b/A.java\n".toList <+:
        (Change.mk (some u) (some v) []).diff.toList ∧
      "diff --git a/partial b/partial\n".toList <+:
        (Change.mk (some u) (some v) []).diff.toList := by
  obtain ⟨u, hu, h⟩ := exists_ok (x := parseUnit (some "A.java") "class A \x7b\x7d\n")
    (p := fun u => (parseUnit none "class B \x7b\x7d\n").toOption.any fun v =>
      (Change.mk (some u) (some v) []).sourcePath = "A.java" ∧
      ¬ "diff --git a/A.java b/A.java\n".toList <+:
        (Change.mk (some u) (some v) []).diff.toList ∧
      "diff --git a/partial b/partial\n".toList <+:
        (Change.mk (some u) (some v) []).diff.toList)
    (by decide +kernel)
  obtain ⟨v, hv, h⟩ := exists_ok h
  exact ⟨u, v, hu, hv, of_decide_eq_true h⟩

end Change

end LosslessJava
