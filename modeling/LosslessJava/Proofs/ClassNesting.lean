import LosslessJava.Proofs.Type.ClassType

/-!
# Going outwards from a class

A class keeps its package and its outermost class, however one goes to the classes in it and around
it.

* `ClassType.ownerAfter`: the class so many steps outwards.
* `ClassType.ownerAfter_last_iff`: where going outwards ends.
* `ClassType.Reaches.keeps`: what all classes have in common that are reached from one.
* `ClassType.coherent_boundary`: these facts together.
-/

namespace LosslessJava

namespace ClassType

/-! ## Classes around a class -/

/-- The class so many steps outwards, `none` where there are not so many classes around. -/
def ownerAfter (c : ClassType) : Nat → Option ClassType
  | 0 => some c
  | count + 1 => (c.ownerAfter count).bind owner?

/-- Each step outwards takes the last class name away. -/
theorem segments_of_ownerAfter {c d : ClassType} {count : Nat} (h : c.ownerAfter count = some d) :
    d.packageSegments = c.packageSegments ∧
      d.classSegments = c.classSegments.take (c.classSegments.length - count) := by
  induction count generalizing d with
  | zero =>
    obtain rfl : c = d := Option.some.inj h
    exact ⟨rfl, by rw [Nat.sub_zero, List.take_length]⟩
  | succ count ih =>
    obtain ⟨o, ho, hd⟩ := Option.bind_eq_some_iff.mp h
    obtain ⟨hpackage, hclasses⟩ := ih ho
    obtain ⟨hpackage', hclasses'⟩ := owner?_eq_some_iff.mp hd
    refine ⟨hpackage'.trans hpackage, ?_⟩
    rw [hclasses', hclasses, List.dropLast_eq_take, List.take_take, List.length_take]
    congr 1
    omega

/-- There is a step outwards as long as there is another class name. -/
theorem exists_ownerAfter (c : ClassType) {count : Nat} (h : count < c.classSegments.length) :
    ∃ d, c.ownerAfter count = some d := by
  induction count with
  | zero => exact ⟨c, rfl⟩
  | succ count ih =>
    obtain ⟨o, ho⟩ := ih (by omega)
    have hlength := congrArg List.length (segments_of_ownerAfter ho).2
    rw [List.length_take] at hlength
    rw [ownerAfter, ho, Option.bind_some, ← Option.ne_none_iff_exists', ne_eq, owner?_eq_none_iff]
    omega

/-- Going outwards ends at the class that is in no other one, after as many steps as there are
class names in front of the last one. -/
theorem ownerAfter_last_iff {c d : ClassType} {count : Nat} :
    c.ownerAfter count = some d ∧ d.owner? = none ↔
      count + 1 = c.classSegments.length ∧ d = c.outermost := by
  have hpos := List.length_pos_iff.mpr c.classSegments_ne_nil
  constructor
  · rintro ⟨h, hlast⟩
    obtain ⟨hpackage, hclasses⟩ := segments_of_ownerAfter h
    have hlength := congrArg List.length hclasses
    rw [owner?_eq_none_iff.mp hlast, List.length_take] at hlength
    refine ⟨by omega, eq_of_segments (by rw [hpackage, packageSegments_outermost]) ?_⟩
    rw [hclasses, classSegments_outermost]
    congr 1
    omega
  · rintro ⟨hcount, rfl⟩
    obtain ⟨d, hd⟩ := @exists_ownerAfter c count (by omega)
    obtain ⟨hpackage, hclasses⟩ := segments_of_ownerAfter hd
    have hone : c.classSegments.length - count = 1 := by omega
    obtain rfl : d = c.outermost := eq_of_segments (by rw [hpackage, packageSegments_outermost])
      (by rw [hclasses, classSegments_outermost, hone])
    refine ⟨hd, owner?_eq_none_iff.mpr ?_⟩
    rw [hclasses, List.length_take]
    omega

/-! ## Classes in and around a class -/

/-- The classes that are reached from a class by nesting others in it and by going outwards. -/
inductive Reaches (c : ClassType) : ClassType → Prop
  | refl : Reaches c c
  | nested {d : ClassType} (h : Reaches c d) (name : String) : Reaches c (d.nested name)
  | owner {d o : ClassType} (h : Reaches c d) (ho : d.owner? = some o) : Reaches c o
  | outermost {d : ClassType} (h : Reaches c d) : Reaches c d.outermost

theorem Reaches.keeps {c d : ClassType} (h : c.Reaches d) :
    d.packageSegments = c.packageSegments ∧ d.outermost = c.outermost := by
  induction h with
  | refl => exact ⟨rfl, rfl⟩
  | @nested d _ name ih =>
    exact ⟨(d.packageSegments_nested name).trans ih.1, (d.outermost_nested name).trans ih.2⟩
  | owner _ ho ih =>
    exact ⟨(owner?_eq_some_iff.mp ho).1.trans ih.1, (outermost_of_owner? ho).trans ih.2⟩
  | @outermost d _ ih =>
    exact ⟨d.packageSegments_outermost.trans ih.1, d.outermost_outermost.trans ih.2⟩

/-- However a class is made, there is a class name behind its package, and the two are its name. All
classes that are reached from one have its package and its outermost class. A class is the owner of
the classes nested in it, and going from owner to owner ends at the outermost class, as many steps
outwards as there are class names in front of the last one. -/
theorem coherent_boundary (c : ClassType) :
    (∀ d, c.Reaches d → d.classSegments ≠ [] ∧
      d.packageSegments ++ d.classSegments = d.name.segments ∧
      d.packageSegments = c.packageSegments ∧ d.outermost = c.outermost) ∧
    (∀ name, (c.nested name).owner? = some c) ∧
    (∀ o, c.owner? = some o → o.packageName = c.packageName ∧ o.outermost = c.outermost) ∧
    (∀ count d, c.ownerAfter count = some d ∧ d.owner? = none ↔
      count + 1 = c.classSegments.length ∧ d = c.outermost) ∧
    c.outermost.owner? = none := by
  refine ⟨fun d hd => ⟨d.classSegments_ne_nil, d.packageSegments_append, hd.keeps⟩,
    c.owner?_nested, fun o ho => ?_, fun _ _ => ownerAfter_last_iff, ?_⟩
  · have hreached := Reaches.owner .refl ho
    exact ⟨packageName_congr hreached.keeps.1, hreached.keeps.2⟩
  · have hpos := List.length_pos_iff.mpr c.classSegments_ne_nil
    exact (ownerAfter_last_iff.mpr ⟨Nat.sub_add_cancel hpos, rfl⟩).2

/-- The class `java.util.Map.Entry` is in `java.util.Map`, which has no owner. From it one reaches
the class `java.util.Map.View.Node`. -/
theorem coherent_boundary_entry :
    let map := topLevel (some ⟨["java", "util"], by decide⟩) "Map"
    let node := (map.nested "View").nested "Node"
    (map.nested "Entry").owner? = some map ∧ map.owner? = none ∧
      (map.nested "Entry").Reaches node ∧
      node.packageSegments = ["java", "util"] ∧ node.classSegments = ["Map", "View", "Node"] ∧
      node.packageSegments ++ node.classSegments = node.name.segments ∧
      node.outermost = (map.nested "Entry").outermost ∧
      map.packageName = (map.nested "Entry").packageName ∧
      map = (map.nested "Entry").outermost := by
  intro map node
  obtain ⟨hreached, -, howner, hlast, -⟩ := coherent_boundary (map.nested "Entry")
  have ho : (map.nested "Entry").owner? = some map := by decide
  have hnode : (map.nested "Entry").Reaches node := ((Reaches.owner .refl ho).nested _).nested _
  obtain ⟨-, hmap⟩ := (hlast 1 map).mp ⟨by decide, by decide⟩
  exact ⟨ho, by decide, hnode, by decide, by decide, (hreached node hnode).2.1,
    (hreached node hnode).2.2.2, (howner map ho).1, hmap⟩

end ClassType

end LosslessJava
