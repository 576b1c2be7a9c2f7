import LosslessJava.Proofs.Name.Qualified
import LosslessJava.Resolve.Scope

/-!
# Names and packages of classes

* `ClassType.eq_of_segments`: a class is its package and its class names.
* `ClassType.owner?_eq_some_iff`: the owner of a class has its class names but the last.
* `ClassType.segments_of_not_isNested`: the name of a class outside other classes is its package and
  its simple name.
* `ClassType.segments_nestedAlong`, `ClassType.packageName_nestedAlong`: a class that is nested in
  another one, at any depth, is named behind it and lies in its package.
-/

namespace LosslessJava

namespace ClassType

variable (c : ClassType)

@[simp] theorem simpleName_nested (name : String) : (c.nested name).simpleName = name :=
  c.name.simpleName_push name

@[simp] theorem simpleName_topLevel (package : Option QualifiedName) (name : String) :
    (topLevel package name).simpleName = name := by
  cases package with
  | none => rfl
  | some p => exact p.simpleName_push name

/-- A class has a class name behind its package. -/
theorem classSegments_ne_nil : c.classSegments ≠ [] := by
  have hlt := c.packageLength_lt
  rw [classSegments, ← List.length_pos_iff, List.length_drop]
  omega

/-! ## Packages and class names -/

theorem packageSegments_append : c.packageSegments ++ c.classSegments = c.name.segments :=
  List.take_append_drop c.packageLength c.name.segments

theorem length_packageSegments : c.packageSegments.length = c.packageLength :=
  List.length_take_of_le (Nat.le_of_lt c.packageLength_lt)

/-- A class is its package and its class names. -/
theorem eq_of_segments {c d : ClassType} (hpackage : c.packageSegments = d.packageSegments)
    (hclasses : c.classSegments = d.classSegments) : c = d := by
  have hname : c.name = d.name := by
    apply QualifiedName.eq_of_segments
    rw [← c.packageSegments_append, ← d.packageSegments_append, hpackage, hclasses]
  have hlength : c.packageLength = d.packageLength := by
    rw [← c.length_packageSegments, ← d.length_packageSegments, hpackage]
  cases c
  cases d
  cases hname
  cases hlength
  rfl

@[simp] theorem packageSegments_nested (name : String) :
    (c.nested name).packageSegments = c.packageSegments :=
  List.take_append_of_le_length (Nat.le_of_lt c.packageLength_lt)

@[simp] theorem classSegments_nested (name : String) :
    (c.nested name).classSegments = c.classSegments ++ [name] :=
  List.drop_append_of_le_length (Nat.le_of_lt c.packageLength_lt)

@[simp] theorem packageSegments_outermost : c.outermost.packageSegments = c.packageSegments := by
  simp [packageSegments, outermost, List.take_take]

@[simp] theorem classSegments_outermost : c.outermost.classSegments = c.classSegments.take 1 := by
  simp [classSegments, outermost, List.drop_take]

theorem owner?_eq_none_iff {c : ClassType} : c.owner? = none ↔ c.classSegments.length = 1 := by
  have hpos := List.length_pos_iff.mpr c.classSegments_ne_nil
  rw [owner?, dite_eq_right_iff]
  simp only [reduceCtorEq, imp_false]
  omega

theorem segments_of_owner? {c o : ClassType} (h : c.owner? = some o) :
    o.packageSegments = c.packageSegments ∧ o.classSegments = c.classSegments.dropLast := by
  have hlt := c.packageLength_lt
  unfold owner? at h
  split at h
  · cases h
    constructor
    · simp only [packageSegments, List.dropLast_eq_take, List.take_take]
      congr 1
      omega
    · simp only [classSegments, List.dropLast_eq_take, List.drop_take, List.length_drop]
      congr 1
      omega
  · cases h

/-- The owner of a class is in its package, and has its class names but the last. -/
theorem owner?_eq_some_iff {c o : ClassType} :
    c.owner? = some o ↔
      o.packageSegments = c.packageSegments ∧ o.classSegments = c.classSegments.dropLast := by
  refine ⟨segments_of_owner?, fun ⟨hpackage, hclasses⟩ => ?_⟩
  have hpos := List.length_pos_iff.mpr o.classSegments_ne_nil
  rw [hclasses, List.length_dropLast] at hpos
  cases howner : c.owner? with
  | none =>
    rw [owner?_eq_none_iff.mp howner] at hpos
    cases hpos
  | some d =>
    obtain ⟨hpackage', hclasses'⟩ := segments_of_owner? howner
    rw [eq_of_segments (hpackage'.trans hpackage.symm) (hclasses'.trans hclasses.symm)]

theorem owner?_nested (name : String) : (c.nested name).owner? = some c :=
  owner?_eq_some_iff.mpr ⟨(c.packageSegments_nested name).symm, by
    rw [classSegments_nested, List.dropLast_concat]⟩

theorem owner?_topLevel (package : Option QualifiedName) (name : String) :
    (topLevel package name).owner? = none := by
  rw [owner?_eq_none_iff]
  cases package <;> simp [topLevel, classSegments, QualifiedName.push, QualifiedName.single]

theorem outermost_of_owner? {c o : ClassType} (h : c.owner? = some o) :
    o.outermost = c.outermost := by
  obtain ⟨hpackage, hclasses⟩ := owner?_eq_some_iff.mp h
  have hpos := List.length_pos_iff.mpr o.classSegments_ne_nil
  refine eq_of_segments (by simpa using hpackage) ?_
  rw [hclasses, List.length_dropLast] at hpos
  rw [classSegments_outermost, classSegments_outermost, hclasses, List.dropLast_eq_take,
    List.take_take, Nat.min_eq_left (by omega)]

theorem outermost_nested (name : String) : (c.nested name).outermost = c.outermost :=
  (outermost_of_owner? (c.owner?_nested name)).symm

theorem outermost_outermost : c.outermost.outermost = c.outermost :=
  eq_of_segments c.outermost.packageSegments_outermost (by simp [List.take_take])

/-! ## Classes that are not nested -/

section

variable {c}

theorem length_of_not_isNested (h : c.isNested = false) :
    c.name.segments.length = c.packageLength + 1 := by
  have hlt := c.packageLength_lt
  simp only [isNested, classSegments, List.length_drop, decide_eq_false_iff_not] at h
  omega

/-- The name of a class that is not nested is its package and its simple name. -/
theorem segments_of_not_isNested (h : c.isNested = false) :
    c.name.segments = c.packageSegments ++ [c.simpleName] := by
  have hpackage : c.packageSegments = c.name.segments.dropLast := by
    rw [List.dropLast_eq_take, length_of_not_isNested h, Nat.add_sub_cancel, packageSegments]
  rw [hpackage, simpleName, QualifiedName.dropLast_append_simpleName]

theorem packageName_topLevel (package : Option QualifiedName) (name : String) :
    (topLevel package name).packageName = package := by
  cases package with
  | none => rfl
  | some p => simp [packageName, topLevel, QualifiedName.take?, QualifiedName.push, p.length_pos]

theorem packageName_eq_none_of_single {name : String} (h : c.name = .single name) :
    c.packageName = none := by
  have hlt := c.packageLength_lt
  simp only [h, QualifiedName.single, List.length_cons, List.length_nil] at hlt
  have hzero : c.packageLength = 0 := by omega
  simp [packageName, QualifiedName.take?, hzero]

end

/-! ## Nested classes -/

theorem length_nested (name : String) :
    (c.nested name).name.segments.length = c.name.segments.length + 1 := by
  simp [nested, QualifiedName.push]

theorem segments_nestedAlong (path : List String) :
    (c.nestedAlong path).name.segments = c.name.segments ++ path := by
  induction path generalizing c with
  | nil => simp [nestedAlong]
  | cons w path ih =>
    have hnested : (c.nested w).name.segments = c.name.segments ++ [w] := rfl
    rw [nestedAlong, List.foldl_cons, ← nestedAlong, ih, hnested, List.append_assoc,
      List.singleton_append]

@[simp] theorem packageLength_nestedAlong (path : List String) :
    (c.nestedAlong path).packageLength = c.packageLength := by
  induction path generalizing c with
  | nil => rfl
  | cons w path ih => exact ih (c.nested w)

theorem packageName_eq_some_iff {c : ClassType} {p : QualifiedName} :
    c.packageName = some p ↔ p.segments = c.packageSegments := by
  rw [packageName, QualifiedName.take?_eq_some_iff, packageSegments]
  exact and_iff_right (Nat.le_of_lt c.packageLength_lt)

/-- Classes with the same segments in front of their class names are in the same package. -/
theorem packageName_congr {c d : ClassType} (h : c.packageSegments = d.packageSegments) :
    c.packageName = d.packageName :=
  Option.ext fun p => by rw [packageName_eq_some_iff, packageName_eq_some_iff, h]

/-- A nested class is in the package of the classes around it. -/
theorem packageName_nestedAlong (path : List String) :
    (c.nestedAlong path).packageName = c.packageName := by
  induction path generalizing c with
  | nil => rfl
  | cons w path ih => exact (ih (c.nested w)).trans (packageName_congr (c.packageSegments_nested w))

theorem packageName_outermost : c.outermost.packageName = c.packageName :=
  packageName_congr c.packageSegments_outermost

end ClassType

end LosslessJava
