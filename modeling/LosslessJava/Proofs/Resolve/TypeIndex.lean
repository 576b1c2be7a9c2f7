import LosslessJava.Resolve.TypeIndex

/-!
# What an index of types knows

An index is read by name only. The last class that was added under a name is the one that is found
there, so the order of additions matters only between different classes of one name.

* `find?_insert`, `find?_addAll`: look-ups behind one addition and behind many.
* `names_insert`: what an addition does to the list of names.
* `mem_names_addAll`, `nodup_names_addAll`: the names of an index are those of the classes that were
  added, each once.
* `find?_eq_some_iff_of_consistent`: without two classes of one name, a look-up finds what was
  added.
* `CompilationUnit.Declares`, `mem_declared_iff`: the classes that a unit adds are its classes and
  their member classes at any depth.
-/

namespace LosslessJava

namespace TypeIndex

variable {index : TypeIndex} {c : ClassType} {name : QualifiedName}

/-! ## Look-ups -/

@[simp] theorem find?_empty (name : QualifiedName) : empty.find? name = none := rfl

theorem name_of_find? (h : index.find? name = some c) : c.name = name := by
  simpa using List.find?_some h

theorem isSome_find?_of_mem (h : c ∈ index.types) : (index.find? c.name).isSome := by
  rw [find?, List.find?_isSome]
  exact ⟨c, h, beq_self_eq_true _⟩

theorem contains_eq (name : QualifiedName) : index.contains name = (index.find? name).isSome := rfl

/-- A class in the place of the one of its name, where there is one. -/
theorem find?_replaced (hc : (index.find? c.name).isSome) (name : QualifiedName) :
    (index.types.map fun d => if d.name == c.name then c else d).find? (fun d => d.name == name) =
      if c.name = name then some c else index.find? name := by
  -- no name changes, so the same place is found as before
  have hsame : ((fun d => d.name == name) ∘ fun d => if d.name == c.name then c else d) =
      fun d => d.name == name := by
    funext d
    by_cases hd : d.name = c.name <;> simp [hd]
  rw [List.find?_map, hsame, ← find?]
  cases hd : index.find? name with
  | none =>
    have hne : c.name ≠ name := by
      rintro rfl
      rw [hd] at hc
      cases hc
    rw [if_neg hne]
    rfl
  | some d =>
    have hdn := name_of_find? hd
    subst hdn
    by_cases hc : c.name = d.name
    · simp [hc]
    · simp [hc, Ne.symm hc]

/-- The added class is found under its name, and all other names stay what they were. -/
theorem find?_insert (index : TypeIndex) (c : ClassType) (name : QualifiedName) :
    (index.insert c).find? name = if c.name = name then some c else index.find? name := by
  unfold insert
  split
  · rename_i hc
    exact find?_replaced hc name
  · rename_i hc
    have hnone : index.find? c.name = none := by simpa [contains_eq] using hc
    rw [find?, List.find?_append, ← find?, List.find?_singleton]
    by_cases hname : c.name = name
    · rw [← hname, hnone]
      simp
    · simp [hname]

/-- Adds classes one after the other. -/
def addAll (index : TypeIndex) (cs : List ClassType) : TypeIndex := cs.foldl insert index

theorem addAll_concat (index : TypeIndex) (cs : List ClassType) (c : ClassType) :
    index.addAll (cs ++ [c]) = (index.addAll cs).insert c := by
  rw [addAll, List.foldl_append]
  rfl

/-- The class that was added last under a name is found there. -/
theorem find?_addAll (index : TypeIndex) (cs : List ClassType) (name : QualifiedName) :
    (index.addAll cs).find? name =
      (cs.reverse.find? fun c => c.name == name).or (index.find? name) := by
  induction cs generalizing index with
  | nil => rfl
  | cons c cs ih =>
    rw [addAll, List.foldl_cons, ← addAll, ih, find?_insert, List.reverse_cons, List.find?_append,
      Option.or_assoc, List.find?_singleton]
    by_cases hc : c.name = name <;> simp [hc]

/-! ## Names -/

/-- The fully qualified names of the indexed classes. -/
def names (index : TypeIndex) : List QualifiedName := index.types.map ClassType.name

theorem mem_names_iff : name ∈ index.names ↔ (index.find? name).isSome := by
  rw [find?, List.find?_isSome, names, List.mem_map]
  simp

theorem mem_names_addAll {cs : List ClassType} :
    name ∈ (empty.addAll cs).names ↔ ∃ c ∈ cs, c.name = name := by
  rw [mem_names_iff, find?_addAll, find?_empty, Option.or_none, List.find?_isSome]
  simp

/-- A class of a new name is added at the end, and no other name changes its place. -/
theorem names_insert (index : TypeIndex) (c : ClassType) :
    (index.insert c).names =
      if c.name ∈ index.names then index.names else index.names ++ [c.name] := by
  simp only [mem_names_iff, ← contains_eq]
  unfold insert
  split
  · rw [names, names, List.map_map]
    refine List.map_congr_left fun d _ => ?_
    by_cases hd : d.name = c.name <;> simp [hd]
  · simp [names]

theorem nodup_names_empty : empty.names.Nodup := List.nodup_nil

/-- A class that is added is the only one of its name. -/
theorem nodup_names_insert (h : index.names.Nodup) (c : ClassType) :
    (index.insert c).names.Nodup := by
  rw [names_insert]
  split
  · exact h
  · rename_i hc
    rw [List.nodup_append]
    refine ⟨h, by simp, ?_⟩
    rintro a ha b hb rfl
    exact hc (List.mem_singleton.mp hb ▸ ha)

theorem nodup_names_addAll (h : index.names.Nodup) (cs : List ClassType) :
    (index.addAll cs).names.Nodup := by
  induction cs generalizing index with
  | nil => exact h
  | cons c cs ih => exact ih (nodup_names_insert h c)

/-! ## Consistent classes -/

/-- Classes of one name have one package. -/
def Consistent (cs : List ClassType) : Prop :=
  ∀ c ∈ cs, ∀ d ∈ cs, c.name = d.name → c.packageLength = d.packageLength

theorem Consistent.perm {cs ds : List ClassType} (h : Consistent cs) (hp : cs.Perm ds) :
    Consistent ds :=
  fun c hc d hd => h c (hp.mem_iff.mpr hc) d (hp.mem_iff.mpr hd)

/-- Among consistent classes a look-up finds exactly the one of that name, whatever the order. -/
theorem find?_eq_some_iff_of_consistent {cs : List ClassType} (h : Consistent cs) :
    (empty.addAll cs).find? name = some c ↔ c ∈ cs ∧ c.name = name := by
  rw [find?_addAll, find?_empty, Option.or_none]
  constructor
  · intro hc
    exact ⟨List.mem_reverse.mp (List.mem_of_find?_eq_some hc), by simpa using List.find?_some hc⟩
  · rintro ⟨hc, rfl⟩
    have hsome : (cs.reverse.find? fun d => d.name == c.name).isSome :=
      List.find?_isSome.mpr ⟨c, List.mem_reverse.mpr hc, beq_self_eq_true _⟩
    obtain ⟨d, hd⟩ := Option.isSome_iff_exists.mp hsome
    have hmem : d ∈ cs := List.mem_reverse.mp (List.mem_of_find?_eq_some hd)
    have hname : d.name = c.name := by simpa using List.find?_some hd
    have hlength := h d hmem c hc hname
    rw [hd]
    cases c
    cases d
    cases hname
    cases hlength
    rfl

theorem find?_addAll_perm {cs ds : List ClassType} (h : Consistent cs) (hp : cs.Perm ds)
    (name : QualifiedName) : (empty.addAll cs).find? name = (empty.addAll ds).find? name := by
  apply Option.ext
  intro c
  rw [find?_eq_some_iff_of_consistent h, find?_eq_some_iff_of_consistent (h.perm hp), hp.mem_iff]

theorem ofUnits_eq (units : List CompilationUnit) :
    ofUnits units = empty.addAll (units.flatMap CompilationUnit.declared) := by
  rw [ofUnits, addAll, List.foldl_flatMap]
  rfl

end TypeIndex

/-! ## Declared classes -/

/-- A class that is known as `type` declares the class `c`: itself, or a class that one of its
member classes declares. -/
inductive ClassDeclaration.Declares : ClassType → ClassDeclaration → ClassType → Prop
  | self (type : ClassType) (d : ClassDeclaration) : Declares type d type
  | member {type c : ClassType} {d e : ClassDeclaration} (he : .nested e ∈ d.body.members)
    (h : Declares (type.nested e.name.name) e c) : Declares type d c

/-- The unit declares the class, as one of its classes or as a member class at any depth. -/
def CompilationUnit.Declares (u : CompilationUnit) (c : ClassType) : Prop :=
  ∃ d ∈ u.classes, d.Declares (.topLevel u.packageName d.name.name) c

mutual

theorem ClassDeclaration.mem_declared_iff {c : ClassType} (type : ClassType) :
    ∀ d : ClassDeclaration, c ∈ d.declared type ↔ d.Declares type c
  | ⟨_, _, _, _, _, _, _, ⟨_, members, _⟩, _⟩ => by
    rw [ClassDeclaration.declared, List.mem_append, List.mem_singleton,
      Member.mem_declaredIn_iff type members]
    constructor
    · rintro (⟨e, he, h⟩ | rfl)
      · exact .member he h
      · exact .self _ _
    · intro h
      cases h with
      | self => exact Or.inr rfl
      | member he h => exact Or.inl ⟨_, he, h⟩

theorem Member.mem_declaredIn_iff {c : ClassType} (owner : ClassType) : ∀ ms : List Member,
    c ∈ Member.declaredIn owner ms ↔
      ∃ e, .nested e ∈ ms ∧ e.Declares (owner.nested e.name.name) c
  | [] => by simp [Member.declaredIn]
  | .nested e :: ms => by
    simp [Member.declaredIn, ClassDeclaration.mem_declared_iff (owner.nested e.name.name) e,
      Member.mem_declaredIn_iff owner ms, or_and_right, exists_or]
  | .field _ :: ms => by simp [Member.declaredIn, Member.mem_declaredIn_iff owner ms]
  | .method _ :: ms => by simp [Member.declaredIn, Member.mem_declaredIn_iff owner ms]
  | .empty _ :: ms => by simp [Member.declaredIn, Member.mem_declaredIn_iff owner ms]

end

theorem CompilationUnit.mem_declared_iff {u : CompilationUnit} {c : ClassType} :
    c ∈ u.declared ↔ u.Declares c := by
  simp only [declared, List.mem_flatMap, Declares, ClassDeclaration.mem_declared_iff]

end LosslessJava
