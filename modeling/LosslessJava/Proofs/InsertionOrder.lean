import LosslessJava.Proofs.Parsed
import LosslessJava.Proofs.Resolve.TypeIndex
import LosslessJava.Proofs.Type.ClassType
import Mathlib.Data.Finset.Card

/-!
# Type indexes as ordered maps

An index is a map from fully qualified names to classes that keeps its names in the order in which
they were first added, whether classes are added one by one or with a whole unit.

* `TypeIndex.Addition`: a class or a unit that is added to an index.
* `TypeIndex.put`: the map with keys of its own that an index stands for, and `entries_addAll`: in
  it every class is under its own name.
* `TypeIndex.IsLatest`: the class that was added last under its name.
* `TypeIndex.pairwise_names_addAll`: the order of the names.
* `CompilationUnit.ownersFollow_declared`: a unit adds nested classes in front of their owners.
* `TypeIndex.insertion_ordered`: these facts together, for all sequences of additions.
-/

namespace LosslessJava

namespace TypeIndex

variable {index : TypeIndex} {c : ClassType}

/-! ## Additions -/

/-- What is added to an index in one call. -/
inductive Addition where
  | insert (c : ClassType)
  | addUnit (u : CompilationUnit)

/-- The classes that are added, in this order. -/
def Addition.classes : Addition → List ClassType
  | insert c => [c]
  | addUnit u => u.declared

def add (index : TypeIndex) : Addition → TypeIndex
  | .insert c => index.insert c
  | .addUnit u => index.addUnit u

/-- The index behind a sequence of additions. -/
def ofAdditions (additions : List Addition) : TypeIndex := additions.foldl add empty

theorem add_eq (index : TypeIndex) (a : Addition) : index.add a = index.addAll a.classes := by
  cases a <;> rfl

theorem ofAdditions_eq (additions : List Addition) :
    ofAdditions additions = empty.addAll (additions.flatMap Addition.classes) := by
  rw [ofAdditions, addAll, List.foldl_flatMap]
  congr 1
  funext index a
  exact index.add_eq a

/-! ## Keys -/

/-- Puts a class under a key: in the place of the class that is there, or at the end where the key
is new. -/
def put (key : QualifiedName) (c : ClassType) :
    List (QualifiedName × ClassType) → List (QualifiedName × ClassType)
  | [] => [(key, c)]
  | e :: es => if e.1 = key then (key, c) :: es else e :: put key c es

/-- The index as a map with keys of its own. -/
def entries (index : TypeIndex) : List (QualifiedName × ClassType) :=
  index.types.map fun c => (c.name, c)

theorem types_insert_cons {d : ClassType} {ds : List ClassType} (h : d.name ≠ c.name) :
    (insert ⟨d :: ds⟩ c).types = d :: (insert ⟨ds⟩ c).types := by
  have hcontains : contains ⟨d :: ds⟩ c.name = contains ⟨ds⟩ c.name := by
    simp [contains, find?, h]
  rw [insert, insert, hcontains]
  split <;> simp [h]

/-- A class in the place of the only one of its name. -/
theorem types_insert_cons_self {d : ClassType} {ds : List ClassType} (h : d.name = c.name)
    (hds : d.name ∉ ds.map ClassType.name) : (insert ⟨d :: ds⟩ c).types = c :: ds := by
  have hcontains : contains ⟨d :: ds⟩ c.name = true := by simp [contains, find?, h]
  have hrest : ∀ e ∈ ds, (if e.name == c.name then c else e) = e := by
    intro e he
    have hne : e.name ≠ c.name := fun heq =>
      hds (List.mem_map.mpr ⟨e, he, heq.trans h.symm⟩)
    simp [hne]
  rw [insert, if_pos hcontains, List.map_cons, List.map_congr_left hrest, List.map_id']
  simp [h]

theorem entries_insert (h : index.names.Nodup) (c : ClassType) :
    (index.insert c).entries = put c.name c index.entries := by
  obtain ⟨types⟩ := index
  induction types with
  | nil => rfl
  | cons d ds ih =>
    obtain ⟨hd, hds⟩ := List.nodup_cons.mp h
    by_cases hname : d.name = c.name
    · simp [entries, types_insert_cons_self hname hd, put, hname]
    · rw [entries, types_insert_cons hname, List.map_cons, ← entries, ih hds]
      simp [entries, put, hname]

/-- Adding classes to an index puts each of them under its own name. -/
theorem entries_addAll (h : index.names.Nodup) (cs : List ClassType) :
    (index.addAll cs).entries = cs.foldl (fun es c => put c.name c es) index.entries := by
  induction cs generalizing index with
  | nil => rfl
  | cons c cs ih =>
    rw [addAll, List.foldl_cons, ← addAll, ih (nodup_names_insert h c), entries_insert h,
      List.foldl_cons]

/-! ## The class of a name -/

/-- The class is the last one of its name among the classes. -/
def IsLatest (c : ClassType) (cs : List ClassType) : Prop :=
  ∃ before after, cs = before ++ c :: after ∧ ∀ d ∈ after, d.name ≠ c.name

theorem find?_addAll_eq_some_iff {cs : List ClassType} {name : QualifiedName} :
    (empty.addAll cs).find? name = some c ↔ c.name = name ∧ IsLatest c cs := by
  rw [find?_addAll, find?_empty, Option.or_none, List.find?_eq_some_iff_append, beq_iff_eq]
  constructor
  · rintro ⟨rfl, behind, front, hcs, hbehind⟩
    refine ⟨rfl, front.reverse, behind.reverse, ?_, fun d hd => ?_⟩
    · simp [List.reverse_eq_iff.mp hcs]
    · simpa using hbehind d (List.mem_reverse.mp hd)
  · rintro ⟨rfl, front, behind, rfl, hbehind⟩
    refine ⟨rfl, behind.reverse, front.reverse, by simp, fun d hd => ?_⟩
    simpa using hbehind d (List.mem_reverse.mp hd)

theorem mem_types_iff (h : index.names.Nodup) :
    c ∈ index.types ↔ index.find? c.name = some c := by
  refine ⟨fun hc => ?_, List.mem_of_find?_eq_some⟩
  obtain ⟨d, hd⟩ := Option.isSome_iff_exists.mp (isSome_find?_of_mem hc)
  rw [hd, List.inj_on_of_nodup_map h (List.mem_of_find?_eq_some hd) hc (name_of_find? hd)]

/-! ## The order of the names -/

/-- The names are in the order in which they were first added. -/
theorem pairwise_names_addAll (cs : List ClassType) :
    (empty.addAll cs).names.Pairwise fun a b =>
      (cs.map ClassType.name).idxOf a < (cs.map ClassType.name).idxOf b := by
  induction cs using List.reverseRecOn with
  | nil => exact .nil
  | append_singleton cs c ih =>
    have hadded : ∀ a ∈ (empty.addAll cs).names, a ∈ cs.map ClassType.name := fun a ha =>
      List.mem_map.mpr (mem_names_addAll.mp ha)
    rw [addAll_concat, names_insert, List.map_append, List.map_singleton]
    -- the names that were there before stay where they are
    have hkept : (empty.addAll cs).names.Pairwise fun a b =>
        (cs.map ClassType.name ++ [c.name]).idxOf a <
          (cs.map ClassType.name ++ [c.name]).idxOf b := by
      refine ih.imp_of_mem fun ha hb hlt => ?_
      rwa [List.idxOf_append_of_mem (hadded _ ha), List.idxOf_append_of_mem (hadded _ hb)]
    split
    · exact hkept
    · rename_i hnew
      refine List.pairwise_append.mpr ⟨hkept, List.pairwise_singleton _ _, fun a ha b hb => ?_⟩
      obtain rfl := List.mem_singleton.mp hb
      have hnot : c.name ∉ cs.map ClassType.name := fun hmem =>
        hnew (mem_names_addAll.mpr (List.mem_map.mp hmem))
      rw [List.idxOf_append_of_mem (hadded a ha), List.idxOf_append_of_notMem hnot]
      have := List.idxOf_lt_length_of_mem (hadded a ha)
      omega

theorem size_addAll (cs : List ClassType) :
    (empty.addAll cs).size = (cs.map ClassType.name).toFinset.card := by
  have hnames : (empty.addAll cs).names.toFinset = (cs.map ClassType.name).toFinset := by
    ext name
    rw [List.mem_toFinset, List.mem_toFinset, mem_names_addAll, List.mem_map]
  rw [← hnames, List.toFinset_card_of_nodup (nodup_names_addAll nodup_names_empty cs), names,
    List.length_map, size]

end TypeIndex

/-! ## The order within a unit -/

/-- Behind each class that is nested in another one stands the class around it, unless that is
`outer`. -/
def OwnersFollow (outer : Option ClassType) : List ClassType → Prop
  | [] => True
  | c :: cs => (∀ o, c.owner? = some o → o ∈ cs ∨ outer = some o) ∧ OwnersFollow outer cs

namespace OwnersFollow

variable {outer : Option ClassType} {cs ds : List ClassType}

theorem append (hcs : OwnersFollow outer cs) (hds : OwnersFollow outer ds) :
    OwnersFollow outer (cs ++ ds) := by
  induction cs with
  | nil => exact hds
  | cons c cs ih =>
    exact ⟨fun o ho => (hcs.1 o ho).imp_left (List.mem_append_left ds), ih hcs.2⟩

/-- The class around the others closes the list. -/
theorem concat {type : ClassType} (hcs : OwnersFollow (some type) cs) :
    OwnersFollow type.owner? (cs ++ [type]) := by
  induction cs with
  | nil => exact ⟨fun o ho => Or.inr ho, trivial⟩
  | cons c cs ih =>
    refine ⟨fun o ho => Or.inl (List.mem_append.mpr ?_), ih hcs.2⟩
    rcases hcs.1 o ho with hmem | heq
    · exact Or.inl hmem
    · exact Or.inr (List.mem_singleton.mpr (Option.some.inj heq).symm)

end OwnersFollow

mutual

theorem ClassDeclaration.ownersFollow_declared (type : ClassType) :
    ∀ d : ClassDeclaration, OwnersFollow type.owner? (d.declared type)
  | ⟨_, _, _, _, _, _, _, ⟨_, members, _⟩, _⟩ => by
    rw [ClassDeclaration.declared]
    exact (Member.ownersFollow_declaredIn type members).concat

theorem Member.ownersFollow_declaredIn (owner : ClassType) :
    ∀ ms : List Member, OwnersFollow (some owner) (Member.declaredIn owner ms)
  | [] => by
    rw [Member.declaredIn]
    trivial
  | .nested e :: ms => by
    have he := ClassDeclaration.ownersFollow_declared (owner.nested e.name.name) e
    rw [ClassType.owner?_nested] at he
    rw [Member.declaredIn]
    exact he.append (Member.ownersFollow_declaredIn owner ms)
  | .field _ :: ms => by
    rw [Member.declaredIn]
    exact Member.ownersFollow_declaredIn owner ms
  | .method _ :: ms => by
    rw [Member.declaredIn]
    exact Member.ownersFollow_declaredIn owner ms
  | .empty _ :: ms => by
    rw [Member.declaredIn]
    exact Member.ownersFollow_declaredIn owner ms

end

/-- A unit adds nested classes in front of the classes around them. -/
theorem CompilationUnit.ownersFollow_declared (u : CompilationUnit) :
    OwnersFollow none u.declared := by
  rw [declared]
  induction u.classes with
  | nil => trivial
  | cons d ds ih =>
    have hd := d.ownersFollow_declared (.topLevel u.packageName d.name.name)
    rw [ClassType.owner?_topLevel] at hd
    rw [List.flatMap_cons]
    exact hd.append ih

namespace TypeIndex

/-- Behind any sequence of additions the index is the map in which every added class is put under
its own name. Its names differ, and each of them has the class that was added last under it. Names
are in the order in which they were first added, and there are as many as different ones were added.
A unit adds the classes that it declares at any depth, nested ones in front of their owners. -/
theorem insertion_ordered (additions : List Addition) :
    let added := additions.flatMap Addition.classes
    let index := ofAdditions additions
    index.types.map (fun c => (c.name, c)) = added.foldl (fun es c => put c.name c es) [] ∧
    (∀ c ∈ index.types, index.find? c.name = some c) ∧
    index.names.Nodup ∧
    (∀ name c, index.find? name = some c ↔ c.name = name ∧ IsLatest c added) ∧
    (∀ name, index.find? name = none ↔ ∀ c ∈ added, c.name ≠ name) ∧
    (∀ name, index.contains name = true ↔ ∃ c ∈ added, c.name = name) ∧
    (∀ c, c ∈ index.types ↔ IsLatest c added) ∧
    (index.names.Pairwise fun a b =>
      (added.map ClassType.name).idxOf a < (added.map ClassType.name).idxOf b) ∧
    index.size = (added.map ClassType.name).toFinset.card ∧
    ∀ u, (∀ c, c ∈ (Addition.addUnit u).classes ↔ u.Declares c) ∧
      OwnersFollow none (Addition.addUnit u).classes := by
  intro added index
  have hindex : index = empty.addAll added := ofAdditions_eq additions
  have hnodup : index.names.Nodup := by
    rw [hindex]
    exact nodup_names_addAll nodup_names_empty added
  have hfind : ∀ name c, index.find? name = some c ↔ c.name = name ∧ IsLatest c added := by
    intro name c
    rw [hindex, find?_addAll_eq_some_iff]
  have hcontains : ∀ name, index.contains name = true ↔ ∃ c ∈ added, c.name = name := by
    intro name
    rw [contains_eq, ← mem_names_iff, hindex, mem_names_addAll]
  refine ⟨?_, fun c hc => (mem_types_iff hnodup).mp hc, hnodup, hfind, fun name => ?_, hcontains,
    fun c => ?_, ?_, ?_, fun u => ⟨fun c => u.mem_declared_iff, u.ownersFollow_declared⟩⟩
  · rw [hindex]
    exact entries_addAll nodup_names_empty added
  · rw [← Option.not_isSome_iff_eq_none, ← contains_eq, hcontains]
    simp
  · rw [mem_types_iff hnodup, hfind, and_iff_right rfl]
  · rw [hindex]
    exact pairwise_names_addAll added
  · rw [hindex]
    exact size_addAll added

/-- A class that is added again, here with a package, takes the place of the one from a unit. -/
theorem insertion_ordered_replaced :
    let outer := ClassType.topLevel none "A"
    let inner := outer.nested "B"
    let other : ClassType := ⟨inner.name, 1, by decide⟩
    ∃ u, parseUnit none "class A \x7b class B \x7b \x7d \x7d" = .ok u ∧
      let index := ofAdditions [.addUnit u, .insert other]
      index.find? inner.name = some other ∧ inner ∉ index.types ∧
      (index.contains (.single "B")) = false ∧ index.size = 2 ∧ u.Declares inner := by
  intro outer inner other
  obtain ⟨u, hu, hdeclared⟩ := exists_ok
    (x := parseUnit none "class A \x7b class B \x7b \x7d \x7d")
    (p := fun u => u.declared = [inner, outer]) (by decide +kernel)
  have hadded : [Addition.addUnit u, .insert other].flatMap Addition.classes =
      [inner, outer, other] := by
    simp [Addition.classes, of_decide_eq_true hdeclared]
  obtain ⟨-, -, -, hfind, -, hcontains, hmem, -, hsize, hunit⟩ :=
    insertion_ordered [.addUnit u, .insert other]
  rw [hadded] at hfind hcontains hmem hsize
  have hother : IsLatest other [inner, outer, other] := ⟨[inner, outer], [], rfl, by simp⟩
  have hfound := (hfind inner.name other).mpr ⟨rfl, hother⟩
  refine ⟨u, hu, hfound, fun hinner => ?_, ?_, hsize.trans (by decide), ?_⟩
  · have hsame := (hfind inner.name inner).mpr ⟨rfl, (hmem inner).mp hinner⟩
    exact absurd (hsame.symm.trans hfound) (by decide)
  · rw [Bool.eq_false_iff, ne_eq, hcontains]
    decide
  · refine ((hunit u).1 inner).mp ?_
    rw [Addition.classes, of_decide_eq_true hdeclared]
    exact List.mem_cons_self

end TypeIndex

end LosslessJava
