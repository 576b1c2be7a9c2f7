import LosslessJava.Proofs.Resolve.Imports
import LosslessJava.Proofs.Resolve.Surroundings
import LosslessJava.Proofs.Tree.Naming

/-!
# Names that attribution makes

Types are named by what is written in a text and by what surrounds it. Every stage of resolution
puts such names together, or finds a class under the name that it looks up, so nothing needs to be
known of the index.

* `Scope.Legal`: what surrounds a place has legal names.
* `Scope.Legal.resolve`: there a legal name denotes a class of legal name.
* `Node.named_attributed`: attribution makes well-named nodes of well-named nodes.
-/

namespace LosslessJava

/-! ## Classes -/

namespace ClassType

variable {c : ClassType} {name : String}

theorem legal_topLevel {package : Option QualifiedName} (hp : ∀ p ∈ package, p.Legal)
    (h : isIdentifier name = true) : (topLevel package name).name.Legal := by
  cases package with
  | none => exact QualifiedName.legal_single h
  | some p => exact (hp p rfl).push h

theorem legal_nested (hc : c.name.Legal) (h : isIdentifier name = true) :
    (c.nested name).name.Legal := hc.push h

theorem legal_nestedAlong {path : List String} (hc : c.name.Legal)
    (h : ∀ w ∈ path, isIdentifier w = true) : (c.nestedAlong path).name.Legal := by
  induction path generalizing c with
  | nil => exact hc
  | cons w path ih =>
    obtain ⟨hw, hpath⟩ := List.forall_mem_cons.mp h
    exact ih (legal_nested hc hw) hpath

end ClassType

theorem JavaType.legal_namesOf_map {c : Option ClassType} (h : ∀ d ∈ c, d.name.Legal) :
    ∀ q ∈ namesOf (c.map .ofClass), q.Legal := by
  cases c with
  | none => simp
  | some c => simpa [names] using h

/-! ## Scopes -/

namespace Scope

variable {s : Scope} {name : String} {c : ClassType}

/-- The names around a place are legal: that of the package, those of the imports, and those of the
classes around it. -/
structure Legal (s : Scope) : Prop where
  package : ∀ p ∈ s.package, p.Legal
  imports : ∀ i ∈ s.imports, i.name.Legal
  enclosing : ∀ c ∈ s.enclosing, c.name.Legal

theorem Legal.declare (hs : s.Legal) (h : isIdentifier name = true) :
    (s.declare name).name.Legal := by
  unfold Scope.declare
  split
  · rename_i owner rest henclosing
    refine ClassType.legal_nested (hs.enclosing owner ?_) h
    rw [henclosing]
    exact List.mem_cons_self
  · exact ClassType.legal_topLevel hs.package h

theorem Legal.enter (hs : s.Legal) (hc : c.name.Legal) : (s.enter c).Legal :=
  ⟨hs.package, hs.imports, List.forall_mem_cons.mpr ⟨hc, hs.enclosing⟩⟩

theorem Legal.resolveSimple (hs : s.Legal) (h : isIdentifier name = true)
    (hc : s.resolveSimple name = some c) : c.name.Legal := by
  rcases resolveSimple_cases hc with hc | hc | ⟨i, hi, hc⟩ | ⟨i, hi, hc⟩ | hc
  · obtain ⟨owner, howner, hc⟩ := List.exists_of_findSome?_eq_some hc
    split at hc
    · cases hc
      exact hs.enclosing _ howner
    · split at hc
      · cases hc
        exact ClassType.legal_nested (hs.enclosing owner howner) h
      · cases hc
  · rw [fromPackage_eq_some hc]
    exact ClassType.legal_topLevel hs.package h
  · rw [(imported_eq_some hc).2]
    exact hs.imports i hi
  · rw [(importedOnDemand_eq_some hc).2]
    exact (hs.imports i hi).push h
  · rw [fromLanguage_eq_some hc]
    refine ClassType.legal_topLevel (fun p hp => ?_) h
    cases hp
    show ∀ w ∈ ["java", "lang"], isIdentifier w = true
    decide

theorem resolveIndexed_legal {n : QualifiedName} (hn : n.Legal) (length : Nat)
    (hc : s.resolveIndexed n length = some c) : c.name.Legal := by
  induction length with
  | zero => cases hc
  | succ length ih =>
    rw [resolveIndexed] at hc
    split at hc
    · rename_i known hknown
      cases hc
      obtain ⟨m, hm, hfind⟩ := Option.bind_eq_some_iff.mp hknown
      refine ClassType.legal_nestedAlong ?_ fun w hw => hn w (List.mem_of_mem_drop hw)
      rw [TypeIndex.name_of_find? hfind]
      exact hn.take hm
    · exact ih hc

/-- In such a scope a legal name denotes a class of legal name. -/
theorem Legal.resolve (hs : s.Legal) {n : QualifiedName} (hn : n.Legal)
    (hc : s.resolve n = some c) : c.name.Legal := by
  unfold Scope.resolve at hc
  split at hc
  · rename_i first hfirst
    cases hc
    exact ClassType.legal_nestedAlong (hs.resolveSimple (hn _ (List.head_mem _)) hfirst)
      fun w hw => hn w (List.mem_of_mem_tail hw)
  · rcases Option.or_eq_some_iff.mp hc with hc | ⟨-, hc⟩
    · exact resolveIndexed_legal hn _ hc
    · simp only [resolveConventional] at hc
      split at hc
      · cases hc
        exact hn
      · cases hc

theorem Legal.namesOf_resolve (hs : s.Legal) {n : QualifiedName} (hn : n.Legal) :
    ∀ q ∈ JavaType.namesOf ((s.resolve n).map .ofClass), q.Legal :=
  JavaType.legal_namesOf_map fun _ hc => hs.resolve hn hc

theorem Legal.namesOf_classReference (hs : s.Legal) {n : Option QualifiedName}
    (hn : ∀ m ∈ n, m.Legal) : ∀ q ∈ JavaType.namesOf (s.classReference n), q.Legal := by
  unfold classReference
  cases hm : n.filter isClassLike with
  | none => simp
  | some m => exact hs.namesOf_resolve (hn m (Option.filter_eq_some_iff.mp hm).1)

end Scope

/-! ## Types as written -/

mutual

theorem TypeTree.legal_attributed {s : Scope} (hs : s.Legal) : ∀ t : TypeTree,
    (Node.typeTree t).Named → ∀ q ∈ JavaType.namesOf (t.attributed s).type, q.Legal
  | ⟨lead, .primitive p, arguments, dimensions, type⟩, _ => by
    simp [attributed, JavaType.names]
  | ⟨lead, .wildcard bound, arguments, dimensions, type⟩, _ => by
    simp [attributed]
  | ⟨lead, .named name, arguments, dimensions, type⟩, h => by
    have hname : name.Legal := h.self.legal name (by simp [name?])
    have harguments := TypeTree.legal_attributedArguments hs arguments fun t ht =>
      h.child (by simpa [Node.children, bound?] using ht)
    simp only [attributed, JavaType.namesOf_map_arrayOf]
    cases hc : s.resolve name with
    | none => simp
    | some c =>
      have hc : c.name.Legal := hs.resolve hname hc
      exact harguments c hc

/-- A class with arguments has the names of the class and of the arguments. -/
theorem TypeTree.legal_attributedArguments {s : Scope} (hs : s.Legal) :
    ∀ arguments : Option (Delimited TypeTree),
      (∀ t ∈ Delimited.optionalList arguments, (Node.typeTree t).Named) →
      ∀ c : ClassType, c.name.Legal →
        ∀ q ∈ (c.withArguments (TypeTree.attributedArguments s arguments)).names, q.Legal
  | none, _, c, hc => by
    simpa [attributedArguments, ClassType.withArguments, JavaType.names] using hc
  | some ⟨before, elements, close⟩, h, c, hc => by
    have hlist := TypeTree.legal_attributedList hs elements (by
      simpa [Delimited.optionalList, Delimited.toList] using h)
    rw [attributedArguments]
    generalize attributedList s elements = elements at hlist
    cases elements with
    | nil => simpa [ClassType.withArguments, JavaType.names] using hc
    | cons p ps =>
      simp only [ClassType.withArguments]
      split
      · rename_i types htypes
        simpa [JavaType.names] using ⟨hc, hlist types htypes⟩
      · simpa [JavaType.names] using hc

theorem TypeTree.legal_attributedList {s : Scope} (hs : s.Legal) : ∀ ts : List (Padded TypeTree),
    (∀ p ∈ ts, (Node.typeTree p.element).Named) → ∀ types,
      TypeTree.allTypes (TypeTree.attributedList s ts) = some types →
        ∀ q ∈ JavaType.namesOfList types, q.Legal
  | [], _, types, htypes => by
    cases htypes
    simp [JavaType.namesOfList]
  | ⟨t, after⟩ :: ts, h, types, htypes => by
    obtain ⟨ht, hts⟩ := List.forall_mem_cons.mp h
    have hfirst := TypeTree.legal_attributed hs t ht
    have hrest := TypeTree.legal_attributedList hs ts hts
    rw [attributedList, allTypes] at htypes
    obtain ⟨type, htype, hmap⟩ := Option.bind_eq_some_iff.mp htypes
    obtain ⟨types', htypes', rfl⟩ := Option.map_eq_some_iff.mp hmap
    rw [htype] at hfirst
    intro q hq
    rcases List.mem_append.mp hq with hq | hq
    · exact hfirst q hq
    · exact hrest types' htypes' q hq

end

theorem TypeTree.name?_attributed (s : Scope) (t : TypeTree) :
    (t.attributed s).name? = t.name? := by
  obtain ⟨lead, kind, arguments, dimensions, type⟩ := t
  rcases kind with p | name | (_ | ⟨_, _, _⟩) <;> rfl

/-! ## Nodes -/

/-- A chain of names writes a legal name. -/
theorem Expression.legal_dottedName? {e : Expression} (h : (Node.expression e).Named) :
    ∀ n ∈ e.dottedName?, n.Legal := by
  have hchildren := (Node.all_iff.mp h).2
  fun_induction Expression.dottedName? e with
  | case1 i =>
    rintro n hn
    cases hn
    exact QualifiedName.legal_single
      ((hchildren _ (List.mem_singleton_self _)).self.isIdentifier i rfl)
  | case2 lead target dotLead name type ih =>
    simp only [Node.children, Expression.children, List.forall_mem_cons] at hchildren
    obtain ⟨htarget, hname, -⟩ := hchildren
    intro n hn
    obtain ⟨m, hm, rfl⟩ := Option.map_eq_some_iff.mp hn
    exact (ih htarget (Node.all_iff.mp htarget).2 m hm).push (hname.self.isIdentifier name rfl)
  | case3 => simp

namespace Node

theorem Named.isIdentifier_class {c : ClassDeclaration} (h : (classDeclaration c).Named) :
    isIdentifier c.name.name = true :=
  (h.child (k := .identifier c.name) (by simp [children])).self.isIdentifier _ rfl

/-- What attribution does to one node. -/
theorem wellNamed_attributed {p : Surroundings} {n : Node} (hs : p.scope.Legal)
    (hg : ∀ q ∈ JavaType.namesOf p.given, q.Legal) (hn : n.Named) : (n.attributed p).WellNamed := by
  refine ⟨?_, ?_⟩
  · cases n with
    | typeTree t =>
      intro q hq
      rcases List.mem_append.mp hq with hq | hq
      · rw [TypeTree.name?_attributed] at hq
        exact hn.self.legal q (List.mem_append_left _ hq)
      · exact TypeTree.legal_attributed hs t hn q hq
    | identifier i => exact hg
    | expression e =>
      cases e with
      | fieldAccess lead target dotLead name type =>
        exact hs.namesOf_classReference (Expression.legal_dottedName? hn)
      | call lead name arguments type => exact hn.self.legal
      | invocation lead target dotLead name arguments type => exact hn.self.legal
      | self lead type =>
        exact JavaType.legal_namesOf_map fun c hc => hs.enclosing c (List.mem_of_head? hc)
      | _ => exact List.forall_mem_nil _
    | modifier m =>
      cases m with
      | keyword lead kind => exact List.forall_mem_nil _
      | annotated lead nameLead name arguments type =>
        have hname : name.Legal := hn.self.legal name List.mem_cons_self
        have htype := List.forall_mem_cons.mpr ⟨hname, hs.namesOf_resolve hname⟩
        cases arguments <;> exact htype
    | namedVariable v =>
      cases v
      simpa [attributed, NamedVariable.attributed] using hg
    | classDeclaration c => simpa [attributed] using hs.declare hn.isIdentifier_class
    | package d => exact hn.self.legal
    | importDeclaration i => exact hn.self.legal
    | _ => exact List.forall_mem_nil _
  · intro i hi
    cases n with
    | identifier j =>
      cases hi
      exact hn.self.isIdentifier j rfl
    | _ => cases hi

/-- What is handed down to a child is legal again. -/
theorem legal_below {p : Surroundings} {n k : Node} (hs : p.scope.Legal) (hn : n.Named)
    (hk : k ∈ n.children) :
    (p.below n k).scope.Legal ∧ ∀ q ∈ JavaType.namesOf (p.below n k).given, q.Legal := by
  have hkn : k.Named := hn.child hk
  have hdeclare : ∀ c, n = .classDeclaration c → (p.scope.declare c.name.name).name.Legal := by
    rintro c rfl
    exact hs.declare hn.isIdentifier_class
  constructor
  · show (Surroundings.scopeBelow p.scope n k).Legal
    unfold Surroundings.scopeBelow
    split
    · rename_i u
      refine ⟨fun q hq => ?_, fun i hi => ?_, List.forall_mem_nil _⟩
      · obtain ⟨d, hd, rfl⟩ := Option.map_eq_some_iff.mp hq
        exact (hn.child (k := .package d) (by simp [children, hd])).self.legal _
          (List.mem_singleton_self _)
      · exact (hn.child (k := .importDeclaration i)
          (by simp [children, show i ∈ u.imports from hi])).self.legal _ (List.mem_singleton_self _)
    · exact hs.enter (hdeclare _ rfl)
    · exact hs
  · show ∀ q ∈ JavaType.namesOf (Surroundings.givenBelow p.scope n k), q.Legal
    unfold Surroundings.givenBelow
    split
    · refine hs.namesOf_classReference fun m hm => ?_
      cases hm
      exact QualifiedName.legal_single (hkn.self.isIdentifier _ rfl)
    · simpa [JavaType.names] using hdeclare _ rfl
    · rename_i d v
      exact TypeTree.legal_attributed hs d.type (hn.child (by simp [children]))
    · exact hkn.self.legal
    · simp

/-- Attribution makes well-named nodes of well-named nodes. -/
theorem named_attributed {p : Surroundings} {n : Node} (hs : p.scope.Legal)
    (hg : ∀ q ∈ JavaType.namesOf p.given, q.Legal) (hn : n.Named) : (n.attributed p).Named := by
  intro m hm
  obtain ⟨q, m₀, hvisits, rfl⟩ := within_attributed_iff.mp hm
  obtain ⟨hscope, hgiven, hm₀⟩ := hvisits.preserves
    (I := fun p n => p.scope.Legal ∧ (∀ q ∈ JavaType.namesOf p.given, q.Legal) ∧ n.Named)
    (fun p n h k hk => by
      obtain ⟨hs, -, hn⟩ := h
      obtain ⟨hscope, hgiven⟩ := legal_below hs hn hk
      exact ⟨hscope, hgiven, hn.child hk⟩)
    ⟨hs, hg, hn⟩
  exact wellNamed_attributed hscope hgiven hm₀

end Node

/-- A unit with legal names keeps legal names, whatever it is attributed against. -/
theorem CompilationUnit.named_attributed {u : CompilationUnit} (h : (Node.unit u).Named)
    (index : TypeIndex) (implicitLanguage : Bool) :
    (Node.unit (u.attributed index implicitLanguage)).Named :=
  Node.named_attributed (p := ⟨⟨index, implicitLanguage, none, [], []⟩, none⟩)
    ⟨by simp, by simp, by simp⟩ (by simp) h

end LosslessJava
