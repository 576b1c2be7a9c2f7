import LosslessJava.Proofs.Declarations
import LosslessJava.Proofs.Resolve.Imports
import LosslessJava.Tree.Access

/-!
# Classes where they are declared

A member class gets its type from the classes around it, and its bare name is looked up in the
index. The two agree where the index knows the class. It knows the classes that lie in named classes
only; the classes of an anonymous class it never sees.

* `Scope.resolve_declared`, `Scope.contains_of_resolve`: when the name of a class that is declared
  at a place denotes that class there.
* `ClassBody.StandsIn`: a class body with the nearest named class around it.
* `declared_visible`: for each class body and each class declared in it, whether the fields and
  methods beside the declaration see it.
-/

namespace LosslessJava

/-! ## Scopes -/

namespace Scope

variable {s : Scope} {name : String}

/-- Of the classes around a place each one lies in the next. -/
def Nested (s : Scope) : Prop :=
  s.enclosing.Pairwise fun c d => d.name.segments.length < c.name.segments.length

theorem simpleName_declare (s : Scope) (name : String) : (s.declare name).simpleName = name := by
  unfold declare
  cases s.enclosing with
  | nil => exact ClassType.simpleName_topLevel s.package name
  | cons owner rest => exact owner.simpleName_nested name

theorem declare_eq_nested {owner : ClassType} {rest : List ClassType}
    (h : s.enclosing = owner :: rest) : s.declare name = owner.nested name := by
  rw [declare, h]

theorem Nested.enter (h : s.Nested) (name : String) : (s.enter (s.declare name)).Nested := by
  refine List.pairwise_cons.mpr ⟨?_, h⟩
  unfold Nested at h
  cases henclosing : s.enclosing with
  | nil => simp
  | cons owner rest =>
    rw [henclosing] at h
    have hrest := (List.pairwise_cons.mp h).1
    intro d hd
    rw [declare_eq_nested henclosing, ClassType.length_nested]
    rcases List.mem_cons.mp hd with rfl | hd
    · omega
    · have := hrest d hd
      omega

/-- What is declared at a place is found there if it is indexed, unless the class around the place
has its name. -/
theorem resolve_declared (howner : ∀ owner ∈ s.enclosing.head?, owner.simpleName ≠ name)
    (h : s.index.contains (s.declare name).name = true) :
    s.resolve (.single name) = some (s.declare name) := by
  have hsimple : s.resolveSimple name = some (s.declare name) := by
    cases henclosing : s.enclosing with
    | nil =>
      have hdeclare : s.declare name = .topLevel s.package name := by rw [declare, henclosing]
      rw [hdeclare] at h ⊢
      simp [resolveSimple, fromEnclosing, henclosing, fromPackage, h]
    | cons owner rest =>
      have hne : owner.simpleName ≠ name := howner owner (by rw [henclosing]; rfl)
      rw [declare_eq_nested henclosing] at h ⊢
      simp [resolveSimple, fromEnclosing, henclosing, hne, h]
  rw [resolve_single, hsimple, Option.some_or]

/-- A member class is found under its name only if it is indexed, or if the name comes from an
import. -/
theorem contains_of_resolve (hs : s.Nested) (henclosing : s.enclosing ≠ [])
    (h : s.resolve (.single name) = some (s.declare name)) :
    s.index.contains (s.declare name).name = true ∨
      ∃ i ∈ s.imports, i.wildcard = false ∧ i.name = (s.declare name).name := by
  obtain ⟨owner, rest, hcons⟩ := List.exists_cons_of_ne_nil henclosing
  have hdeclare : s.declare name = owner.nested name := declare_eq_nested hcons
  have hfound : ∀ {n : QualifiedName} {c : ClassType}, s.index.find? n = some c →
      s.index.contains c.name = true := by
    intro n c hc
    rw [TypeIndex.contains_eq, TypeIndex.name_of_find? hc, hc]
    rfl
  rw [resolve_single] at h
  rcases Option.or_eq_some_iff.mp h with h | ⟨-, h⟩
  · rcases resolveSimple_cases h with h | h | ⟨i, hi, h⟩ | ⟨i, hi, h⟩ | h
    · obtain ⟨outer, hmem, hof⟩ := List.exists_of_findSome?_eq_some h
      have hlength : outer.name.segments.length ≤ owner.name.segments.length := by
        unfold Nested at hs
        rw [hcons] at hs hmem
        rcases List.mem_cons.mp hmem with rfl | hmem
        · exact le_refl _
        · exact ((List.pairwise_cons.mp hs).1 outer hmem).le
      split at hof
      · -- a class around the place has a shorter name than one declared there
        have hnested := owner.length_nested name
        rw [Option.some.inj hof, hdeclare] at hlength
        omega
      · split at hof
        · rename_i hcontains
          rw [← Option.some.inj hof]
          exact Or.inl hcontains
        · cases hof
    · simp only [fromPackage] at h
      split at h
      · rename_i hcontains
        rw [← Option.some.inj h]
        exact Or.inl hcontains
      · cases h
    · exact Or.inr ⟨i, hi, (imported_eq_some h).1, (imported_eq_some h).2.symm⟩
    · unfold importedOnDemand at h
      split at h
      · exact Or.inl (hfound h)
      · cases h
    · -- a class of this package lies in no other class
      have hlanguage := fromLanguage_eq_some h
      rw [hdeclare] at hlanguage
      have hlt := owner.packageLength_lt
      have hpackage := congrArg ClassType.packageLength hlanguage
      have hlength := congrArg (fun c : ClassType => c.name.segments.length) hlanguage
      simp only [ClassType.length_nested] at hlength
      simp only [ClassType.nested, ClassType.topLevel, languagePackage, QualifiedName.push,
        List.length_append, List.length_cons, List.length_nil] at hpackage hlength
      omega
  · exact Or.inl (hfound h)

end Scope

/-! ## Surroundings -/

namespace Node

/-- The first node occurs in the second one, but not in the body of a class that is declared
there. -/
inductive Near : Node → Node → Prop
  | refl (n : Node) : Near n n
  | child {m k n : Node} (hk : k ∈ n.children)
    (hbody : ∀ c b, n = .classDeclaration c → k ≠ .classBody b) (h : Near m k) : Near m n

/-- What occurs in a node is near it, or near the body of a class declared in it. -/
theorem Within.near {m n : Node} (h : Within m n) :
    Near m n ∨ ∃ d, Within (.classDeclaration d) n ∧ Near m (.classBody d.body) := by
  induction h with
  | refl => exact Or.inl (.refl m)
  | @child k n hk _ ih =>
    rcases ih with h | ⟨d, hd, h⟩
    · by_cases hbody : ∀ c b, n = .classDeclaration c → k ≠ .classBody b
      · exact Or.inl (.child hk hbody h)
      · push Not at hbody
        obtain ⟨c, b, rfl, rfl⟩ := hbody
        have hb : b = c.body := by simpa [children] using hk
        exact Or.inr ⟨c, .refl _, hb ▸ h⟩
    · exact Or.inr ⟨d, .child hk hd, h⟩

/-- Attribution has one scope for everything near a node. -/
theorem Near.exists_attributed {p : Surroundings} {n m : Node} (h : Near m (n.attributed p))
    (hn : ∀ u, n ≠ .unit u) :
    ∃ (q : Surroundings) (m₀ : Node), q.scope = p.scope ∧ m = m₀.attributed q := by
  generalize ha : n.attributed p = a at h
  induction h generalizing n p with
  | refl => exact ⟨p, n, rfl, ha.symm⟩
  | child hk hbody _ ih =>
    subst ha
    rw [children_attributed] at hk
    obtain ⟨k, hk₀, rfl⟩ := List.mem_map.mp hk
    obtain ⟨q, m₀, hq, rfl⟩ := ih (ne_unit_of_mem_children hk₀) rfl
    refine ⟨q, m₀, hq.trans ?_, rfl⟩
    show Surroundings.scopeBelow p.scope n k = p.scope
    unfold Surroundings.scopeBelow
    split
    · exact absurd rfl (hn _)
    · exact absurd rfl (hbody _ _ rfl)
    · rfl

end Node

open Node in
/-- The body occurs in the unit, with this class as the nearest named one around it, if there is
one. It is the body of that class, or of an anonymous class in it. -/
inductive ClassBody.StandsIn (u : CompilationUnit) : Option ClassDeclaration → ClassBody → Prop
  | outside {b : ClassBody} (h : Near (.classBody b) (.unit u)) : StandsIn u none b
  | inside {d : ClassDeclaration} {b : ClassBody} (hd : Within (.classDeclaration d) (.unit u))
    (h : Near (.classBody b) (.classBody d.body)) : StandsIn u (some d) b

/-- Every class body stands somewhere. -/
theorem ClassBody.exists_standsIn {u : CompilationUnit} {b : ClassBody}
    (h : Node.Within (.classBody b) (.unit u)) : ∃ owner, b.StandsIn u owner := by
  rcases h.near with h | ⟨d, hd, h⟩
  · exact ⟨none, .outside h⟩
  · exact ⟨some d, .inside hd h⟩

/-- The scope at a place of a unit. -/
structure Scope.IsIn (s : Scope) (u : CompilationUnit) (index : TypeIndex) : Prop where
  index : s.index = index
  imports : s.imports = u.imports
  nested : s.Nested

section

variable {u : CompilationUnit} {index : TypeIndex} {implicitLanguage : Bool}

theorem Scope.isIn_ofUnit : (Scope.ofUnit index implicitLanguage u).IsIn u index :=
  ⟨rfl, rfl, .nil⟩

/-- No scope that attribution gets to leaves the unit. -/
theorem Node.Visits.scope_isIn {q : Surroundings} {m : Node}
    (h : Visits ⟨.ofUnit index implicitLanguage u, none⟩ (.unit u) q m) : q.scope.IsIn u index := by
  refine (h.preserves (I := fun p n => p.scope.IsIn u index ∧ ∀ v, n = .unit v → v = u) ?_
    ⟨Scope.isIn_ofUnit, fun v hv => by cases hv; rfl⟩).1
  rintro p n ⟨hp, hn⟩ k hk
  refine ⟨?_, fun v hv => absurd hv (ne_unit_of_mem_children hk v)⟩
  show (Surroundings.scopeBelow p.scope n k).IsIn u index
  unfold Surroundings.scopeBelow
  split
  · obtain rfl := hn _ rfl
    exact ⟨hp.index, rfl, .nil⟩
  · exact ⟨hp.index, hp.imports, hp.nested.enter _⟩
  · exact hp

/-- A body of an attributed unit was attributed in a scope with the nearest named class in front. -/
theorem ClassBody.StandsIn.exists_attributed {owner : Option ClassDeclaration} {b : ClassBody}
    (h : b.StandsIn (u.attributed index implicitLanguage) owner) :
    ∃ (s : Scope) (b₀ : ClassBody), b = b₀.attributed s ∧ s.IsIn u index ∧
      s.enclosing.head?.map ClassType.simpleName = owner.map (·.name.name) := by
  have hbody : ∀ {q : Surroundings} {m : Node}, .classBody b = m.attributed q →
      ∃ b₀ : ClassBody, b = b₀.attributed q.scope := by
    intro q m hm
    cases m <;> cases hm
    exact ⟨_, rfl⟩
  cases h with
  | outside h =>
    cases h with
    | child hk _ h =>
      have hunit : Node.unit (u.attributed index implicitLanguage) =
          (Node.unit u).attributed ⟨.ofUnit index implicitLanguage u, none⟩ := rfl
      rw [hunit, Node.children_attributed] at hk
      obtain ⟨k, hk₀, rfl⟩ := List.mem_map.mp hk
      obtain ⟨q, m, hq, hm⟩ := h.exists_attributed (Node.ne_unit_of_mem_children hk₀)
      obtain ⟨b₀, rfl⟩ := hbody hm
      refine ⟨q.scope, b₀, rfl, ?_, ?_⟩ <;> rw [hq]
      · exact Scope.isIn_ofUnit
      · rfl
  | @inside d _ hd h =>
    obtain ⟨p, n, hvisits, hn⟩ := (Node.within_attributed_iff
      (p := ⟨.ofUnit index implicitLanguage u, none⟩) (n := .unit u)).mp hd
    have hscope := hvisits.scope_isIn
    cases n <;> cases hn
    rename_i d₀
    rw [ClassDeclaration.body_attributed] at h
    obtain ⟨q, m, hq, hm⟩ := Node.Near.exists_attributed
      (p := ⟨p.scope.enter (p.scope.declare d₀.name.name), none⟩) (n := .classBody d₀.body) h
      (by simp)
    obtain ⟨b₀, rfl⟩ := hbody hm
    refine ⟨q.scope, b₀, rfl, ?_, ?_⟩ <;> rw [hq]
    · exact ⟨hscope.index, hscope.imports, hscope.nested.enter _⟩
    · simp [Scope.enter, Scope.simpleName_declare]

end

/-! ## Bare names as types -/

namespace TypeTree

/-- The type is written as this name alone, up to dimensions. -/
def IsBare (name : String) (t : TypeTree) : Prop :=
  t.name? = some (.single name) ∧ t.arguments.isNone

instance (name : String) (t : TypeTree) : Decidable (t.IsBare name) := instDecidableAnd

/-- A bare name has the type of the class that it denotes. -/
theorem attributed_of_isBare {s : Scope} {name : String} {t : TypeTree}
    (h : (t.attributed s).IsBare name) :
    (t.attributed s).type = (s.resolve (.single name)).map fun c =>
      (JavaType.ofClass c).arrayOf (t.attributed s).dimensions.length := by
  obtain ⟨lead, kind, arguments, dimensions, type⟩ := t
  obtain ⟨hname, harguments⟩ := h
  have hnone : TypeTree.attributedArguments s arguments = none :=
    Option.isNone_iff_eq_none.mp harguments
  rcases kind with p | n | (_ | ⟨_, _, _⟩) <;> cases hname
  simp only [attributed, hnone, Option.map_map]
  rfl

end TypeTree

/-- The types written in the head of a field or method: those of fields and parameters, and the
return type. -/
def Member.types : Member → List TypeTree
  | .field d => [d.type]
  | .method m => m.returnType.toList ++ m.parameters.toList.map VariableDeclarations.type
  | .nested _ => []
  | .empty _ => []

theorem Member.types_attributed (s : Scope) (m : Member) :
    (m.attributed s).types = m.types.map (TypeTree.attributed s) := by
  cases m with
  | field d => cases d; rfl
  | method m =>
    obtain ⟨lead, modifiers, returnType, name, ⟨before, elements, close⟩, throws, ending⟩ := m
    have htype : ∀ d : VariableDeclarations, (d.attributed s).type = d.type.attributed s := by
      intro d
      cases d
      rfl
    cases returnType <;>
      simp [attributed, MethodDeclaration.attributed, types, Delimited.toList,
        VariableDeclarations.attributedList_eq_map, Function.comp_def, htype]
  | nested c => rfl
  | empty lead => rfl

namespace ClassBody

/-- The types of fields, of parameters and of what methods return. -/
def memberTypes (b : ClassBody) : List TypeTree := b.members.flatMap Member.types

theorem memberTypes_attributed (s : Scope) (b : ClassBody) :
    (b.attributed s).memberTypes = b.memberTypes.map (TypeTree.attributed s) := by
  simp only [memberTypes, members_attributed, List.flatMap_map, List.map_flatMap,
    Member.types_attributed]

/-- In the body all member types that are written as the bare name of `e` have the type that `e` has
as a declaration. -/
def Sees (b : ClassBody) (e : ClassDeclaration) : Prop :=
  ∀ t ∈ b.memberTypes, t.IsBare e.name.name →
    t.type = e.type.map fun c => (JavaType.ofClass c).arrayOf t.dimensions.length

instance (b : ClassBody) (e : ClassDeclaration) : Decidable (b.Sees e) :=
  decidable_of_iff (∀ t ∈ b.memberTypes, t.IsBare e.name.name →
      (t.type == e.type.map fun c => (JavaType.ofClass c).arrayOf t.dimensions.length) = true)
    (by simp only [beq_iff_eq, Sees])

/-- The classes that the body declares. -/
def nestedClasses (b : ClassBody) : List ClassDeclaration := b.members.filterMap Member.nested?

theorem mem_nestedClasses_iff {b : ClassBody} {e : ClassDeclaration} :
    e ∈ b.nestedClasses ↔ .nested e ∈ b.members := by
  rw [nestedClasses, List.mem_filterMap]
  constructor
  · rintro ⟨m, hm, he⟩
    cases m <;> cases he
    exact hm
  · exact fun h => ⟨_, h, rfl⟩

/-- The bodies of the anonymous classes that the fields are set to. -/
def anonymous (b : ClassBody) : List ClassBody :=
  b.members.flatMap fun
    | .field d => d.declared.flatMap fun p =>
      match p.element.initializer with
      | some ⟨_, .newClass _ _ _ (some c)⟩ => [c]
      | _ => []
    | _ => []

theorem near_of_mem_anonymous {b c : ClassBody} (h : c ∈ b.anonymous) :
    Node.Near (.classBody c) (.classBody b) := by
  obtain ⟨m, hm, hc⟩ := List.mem_flatMap.mp h
  cases m with
  | field d =>
    obtain ⟨p, hp, hc⟩ := List.mem_flatMap.mp hc
    split at hc
    · rename_i lead newLead type arguments c' hinitializer
      obtain rfl := List.mem_singleton.mp hc
      have hnew : Node.Near (.classBody c)
          (.expression (.newClass newLead type arguments (some c))) :=
        .child (by simp [Node.children, Expression.children]) (by simp) (.refl _)
      have hset : Node.Near (.classBody c)
          (.initializer ⟨lead, .newClass newLead type arguments (some c)⟩) :=
        .child (List.mem_singleton_self _) (by simp) hnew
      have hvariable : Node.Near (.classBody c) (.namedVariable p.element) :=
        .child (by simp [Node.children, hinitializer]) (by simp) hset
      have hd : Node.Near (.classBody c) (.declarations d) := by
        refine .child ?_ (by simp) hvariable
        simp only [Node.children, List.mem_append, List.mem_cons, List.mem_map]
        exact Or.inr (Or.inr ⟨p, hp, rfl⟩)
      exact .child (List.mem_map_of_mem hm) (by simp)
        (.child (List.mem_singleton_self _) (by simp) hd)
    · cases hc
  | method _ => cases hc
  | nested _ => cases hc
  | empty _ => cases hc

end ClassBody

/-! ## Visibility -/

/-- A class that is declared in a class body is seen by the members beside it if the batch declares
a class of its name, as it does when all classes around it are named. Otherwise only an import can
give its bare name its type. The nearest named class around the body must not have its simple
name. -/
theorem declared_visible {config : Config} {sources dependencies : List SourceText}
    {u : CompilationUnit} (h : Batch.Returns config sources dependencies u)
    {owner : Option ClassDeclaration} {b : ClassBody} (hb : b.StandsIn u owner)
    {e : ClassDeclaration} (he : .nested e ∈ b.members)
    (hname : ∀ d ∈ owner, d.name.name ≠ e.name.name) :
    ∃ c, e.type = some c ∧
      (c.name ∈ (Batch.index sources dependencies).names → b.Sees e) ∧
      (∀ names, u.HasClass names e → c.name ∈ (Batch.index sources dependencies).names) ∧
      (owner.isSome → (∃ t ∈ b.memberTypes, t.IsBare e.name.name ∧ t.dimensions = [] ∧
          t.type = some (.ofClass c)) →
        c.name ∈ (Batch.index sources dependencies).names ∨
          ∃ i ∈ u.imports, i.wildcard = false ∧ i.name = c.name) := by
  obtain ⟨source, hsource, v, hv, rfl⟩ := h.exists_source
  obtain ⟨s, b₀, rfl, hs, hhead⟩ := hb.exists_attributed
  obtain ⟨e₀, he₀, rfl⟩ := ClassBody.exists_nested_of_attributed he
  have hcontains : ∀ name : QualifiedName, s.index.contains name = true ↔
      name ∈ (Batch.index sources dependencies).names := by
    intro name
    rw [TypeIndex.mem_names_iff, TypeIndex.contains_eq, hs.index]
  simp only [ClassDeclaration.name_attributed] at hname
  refine ⟨s.declare e₀.name.name, by simp, fun hmem => ?_, fun names hnames => ?_, ?_⟩
  · intro t ht hbare
    rw [ClassBody.memberTypes_attributed] at ht
    obtain ⟨t₀, -, rfl⟩ := List.mem_map.mp ht
    have howner : ∀ outer ∈ s.enclosing.head?, outer.simpleName ≠ e₀.name.name := by
      intro outer houter
      rw [Option.mem_def.mp houter, Option.map_some] at hhead
      obtain ⟨d, hd, hdname⟩ := Option.map_eq_some_iff.mp hhead.symm
      rw [← hdname]
      exact hname d hd
    simp only [ClassDeclaration.name_attributed] at hbare
    rw [TypeTree.attributed_of_isBare hbare,
      Scope.resolve_declared howner ((hcontains _).mpr hmem)]
    simp
  · obtain ⟨c, hc, -, -, hmem⟩ := h.type_of_hasClass hnames
    rw [ClassDeclaration.type_attributed, Option.some_inj] at hc
    rwa [hc]
  · rintro hsome ⟨t, ht, hbare, hdimensions, htype⟩
    rw [ClassBody.memberTypes_attributed] at ht
    obtain ⟨t₀, -, rfl⟩ := List.mem_map.mp ht
    simp only [ClassDeclaration.name_attributed] at hbare
    rw [TypeTree.attributed_of_isBare hbare, hdimensions] at htype
    obtain ⟨c, hc, hof⟩ := Option.map_eq_some_iff.mp htype
    have hof : c = s.declare e₀.name.name := JavaType.ofClass.inj hof
    have hne : s.enclosing ≠ [] := by
      intro hnil
      rw [hnil] at hhead
      cases owner with
      | none => cases hsome
      | some d => cases hhead
    rw [hof] at hc
    refine (Scope.contains_of_resolve hs.nested hne hc).imp (hcontains _).mp ?_
    rw [hs.imports]
    exact id

/-- A field, a parameter and a method whose types are the class beside them. -/
theorem declared_visible_nested :
    ∃ u, SourceText.parseAttributed .standard
        ⟨none, "class A \x7b class B \x7b \x7d B[] b; B m(B p) \x7b return p; \x7d \x7d"⟩ = .ok u ∧
      ∃ (d e : ClassDeclaration), u.HasClass ["A", "B"] e ∧ .nested e ∈ d.body.members ∧
        d.body.Sees e ∧
        (d.body.memberTypes.filter fun t => t.IsBare e.name.name).length = 3 := by
  obtain ⟨u, h, hu⟩ := exists_ok
    (p := fun u : CompilationUnit => u.classes.any fun d => d.name.name == "A" &&
      d.body.nestedClasses.any fun e => e.name.name == "B" &&
        (d.body.memberTypes.filter fun t => t.IsBare e.name.name).length == 3)
    (x := SourceText.parseAttributed .standard
      ⟨none, "class A \x7b class B \x7b \x7d B[] b; B m(B p) \x7b return p; \x7d \x7d"⟩)
    (by decide +kernel)
  simp only [List.any_eq_true, Bool.and_eq_true, beq_iff_eq, ClassBody.mem_nestedClasses_iff] at hu
  obtain ⟨d, hd, hA, e, he, hB, hlength⟩ := hu
  have hclass : u.HasClass ["A", "B"] e := by
    have hclass := (CompilationUnit.HasClass.topLevel hd).member he
    rwa [hA, hB] at hclass
  have hwithin : Node.Within (.classDeclaration d) (.unit u) :=
    .child (by simp [Node.children, hd]) (.refl _)
  have hname : ∀ d' ∈ some d, d'.name.name ≠ e.name.name := by
    intro d' hd'
    cases hd'
    rw [hA, hB]
    decide
  obtain ⟨c, -, hsees, hindexed, -⟩ :=
    declared_visible (.single h) (.inside hwithin (.refl _)) he hname
  exact ⟨u, h, d, e, hclass, he, hsees (hindexed _ hclass), hlength⟩

/-- A class that is declared in the body of an anonymous class is not indexed, so a class of the
package is found under its name. -/
theorem not_sees_anonymous :
    ∃ u, SourceText.parseAttributed .standard
        ⟨none, "class D \x7b \x7d " ++
          "class A \x7b Object o = new Object() \x7b class D \x7b \x7d D d; \x7d; \x7d"⟩ = .ok u ∧
      ∃ (d : ClassDeclaration) (b : ClassBody) (e : ClassDeclaration), b.StandsIn u (some d) ∧
        .nested e ∈ b.members ∧ d.name.name ≠ e.name.name ∧ ¬ b.Sees e := by
  obtain ⟨u, h, hu⟩ := exists_ok
    (p := fun u : CompilationUnit => u.classes.any fun d => d.body.anonymous.any fun b =>
      b.nestedClasses.any fun e => d.name.name != e.name.name && !decide (b.Sees e))
    (x := SourceText.parseAttributed .standard
      ⟨none, "class D \x7b \x7d " ++
        "class A \x7b Object o = new Object() \x7b class D \x7b \x7d D d; \x7d; \x7d"⟩)
    (by decide +kernel)
  simp only [List.any_eq_true, Bool.and_eq_true, bne_iff_ne, ClassBody.mem_nestedClasses_iff,
    Bool.not_eq_true', decide_eq_false_iff_not] at hu
  obtain ⟨d, hd, b, hb, e, he, hname, hnot⟩ := hu
  have hwithin : Node.Within (.classDeclaration d) (.unit u) :=
    .child (by simp [Node.children, hd]) (.refl _)
  exact ⟨u, h, d, b, e, .inside hwithin (ClassBody.near_of_mem_anonymous hb), he, hname, hnot⟩

end LosslessJava
