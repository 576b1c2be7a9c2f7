import LosslessJava.Proofs.Grammar.Piece

/-!
# Prints of parts

A node prints its children as they print alone, with other steps around them.

* `Node.isInfix_steps`: the steps of a node in a tree are a run of the steps of the tree.
-/

namespace LosslessJava

variable {α : Type}

attribute [grind ←] List.infix_cons

@[grind ←] theorem isInfix_left {xs ys zs : List α} (h : xs <:+: ys) : xs <:+: ys ++ zs :=
  h.trans (List.prefix_append ys zs).isInfix

@[grind ←] theorem isInfix_right {xs ys zs : List α} (h : xs <:+: ys) : xs <:+: zs ++ ys :=
  h.trans (List.suffix_append zs ys).isInfix

theorem isInfix_flatMap {β : Type} {f : α → List β} {a : α} {as : List α} (h : a ∈ as) :
    f a <:+: as.flatMap f := by
  obtain ⟨before, after, rfl⟩ := List.append_of_mem h
  exact ⟨before.flatMap f, after.flatMap f, by simp⟩

theorem Step.isInfix_text {ss ts : List Step} (h : ss <:+: ts) : text ss <:+: text ts := by
  obtain ⟨before, after, rfl⟩ := h
  exact ⟨text before, text after, by simp⟩

theorem Padded.isInfix_steps {f : α → List Step} {p : Padded α} {ps : List (Padded α)} (h : p ∈ ps) :
    f p.element <:+: steps f ps := by
  fun_induction steps f ps with
  | case1 => cases h
  | case2 q =>
    obtain rfl := List.mem_singleton.mp h
    exact List.infix_rfl
  | case3 q r ps ih =>
    rcases List.mem_cons.mp h with rfl | h
    · exact isInfix_left (isInfix_left List.infix_rfl)
    · exact isInfix_right (ih h)

/-! ## Lists of nodes -/

theorem TypeTree.isInfix_listSteps {p : Padded TypeTree} {ps : List (Padded TypeTree)} (h : p ∈ ps) :
    p.element.steps <:+: listSteps ps :=
  listSteps_eq ps ▸ Padded.isInfix_steps h

theorem Expression.isInfix_listSteps {p : Padded Expression} {ps : List (Padded Expression)}
    (h : p ∈ ps) : p.element.steps <:+: listSteps ps :=
  listSteps_eq ps ▸ Padded.isInfix_steps h

theorem NamedVariable.isInfix_listSteps {p : Padded NamedVariable} {ps : List (Padded NamedVariable)}
    (h : p ∈ ps) : p.element.steps <:+: listSteps ps :=
  listSteps_eq ps ▸ Padded.isInfix_steps h

theorem VariableDeclarations.isInfix_listSteps {p : Padded VariableDeclarations}
    {ps : List (Padded VariableDeclarations)} (h : p ∈ ps) :
    p.element.steps <:+: listSteps ps :=
  listSteps_eq ps ▸ Padded.isInfix_steps h

theorem Modifier.isInfix_listSteps {m : Modifier} {ms : List Modifier} (h : m ∈ ms) :
    m.steps <:+: listSteps ms :=
  listSteps_eq ms ▸ isInfix_flatMap h

theorem Member.isInfix_listSteps {m : Member} {ms : List Member} (h : m ∈ ms) :
    m.steps <:+: listSteps ms :=
  listSteps_eq ms ▸ isInfix_flatMap h

theorem Statement.isInfix_listSteps {s : Statement} {ss : List Statement} (h : s ∈ ss) :
    s.steps <:+: listSteps ss :=
  listSteps_eq ss ▸ isInfix_flatMap h

/-! ## Children -/

/-- The elements of a list are those of its padded elements. -/
theorem Delimited.mem_map_toList {f : α → Node} {d : Delimited α} {k : Node} :
    k ∈ d.toList.map f ↔ ∃ p ∈ d.elements, f p.element = k := by
  simp [toList]

theorem Expression.isInfix_steps {e : Expression} {k : Node} (hk : k ∈ e.children) :
    k.steps <:+: e.steps := by
  cases e with
  | call lead name arguments type =>
    obtain ⟨before, elements, close⟩ := arguments
    simp only [children, List.mem_cons, Delimited.mem_map_toList] at hk
    rcases hk with rfl | ⟨p, hp, rfl⟩
    · grind [Node.steps, steps]
    · grind [Node.steps, steps, isInfix_listSteps hp]
  | invocation lead target dotLead name arguments type =>
    obtain ⟨before, elements, close⟩ := arguments
    simp only [children, List.mem_cons, Delimited.mem_map_toList] at hk
    rw [steps]
    rcases hk with rfl | rfl | ⟨p, hp, rfl⟩
    · exact isInfix_left (isInfix_left (isInfix_left (isInfix_left (by grind [Node.steps]))))
    · grind [Node.steps]
    · grind [Node.steps, isInfix_listSteps hp]
  | newClass lead type arguments body =>
    obtain ⟨before, elements, close⟩ := arguments
    simp only [children, List.mem_append, List.mem_cons, Delimited.mem_map_toList,
      Option.mem_toList, Option.map_eq_some_iff] at hk
    rw [steps.eq_def]
    rcases hk with (rfl | ⟨p, hp, rfl⟩) | ⟨b, rfl, rfl⟩
    · exact isInfix_left (by grind [Node.steps])
    · exact isInfix_left (by grind [Node.steps, isInfix_listSteps hp])
    · exact isInfix_right List.infix_rfl
  | _ => grind [children, Node.steps, steps]

theorem Modifier.isInfix_steps {m : Modifier} {k : Node} (hk : k ∈ m.children) :
    k.steps <:+: m.steps := by
  cases m with
  | keyword lead kind => cases hk
  | annotated lead nameLead name arguments type =>
    cases arguments with
    | none => cases hk
    | some d =>
      obtain ⟨before, elements, close⟩ := d
      obtain ⟨p, hp, rfl⟩ := Delimited.mem_map_toList.mp hk
      grind [Node.steps, steps, Expression.isInfix_listSteps hp]

theorem Statement.isInfix_steps {s : Statement} {k : Node} (hk : k ∈ s.children) :
    k.steps <:+: s.steps := by
  cases s with
  | _ => grind [children, Node.steps, steps]

theorem Member.isInfix_steps {m : Member} {k : Node} (hk : k ∈ m.children) :
    k.steps <:+: m.steps := by
  cases m with
  | _ => grind [children, Node.steps, steps]

theorem TypeTree.isInfix_steps {t : TypeTree} {k : Node} (hk : k ∈ (Node.typeTree t).children) :
    k.steps <:+: t.steps := by
  obtain ⟨lead, kind, arguments, dimensions, type⟩ := t
  simp only [Node.children, List.mem_append, List.mem_map, Option.mem_toList,
    Option.map_eq_some_iff] at hk
  rw [steps]
  rcases hk with (⟨b, hb, rfl⟩ | ⟨t, ht, rfl⟩) | ⟨d, hd, rfl⟩
  · cases kind with
    | wildcard bound =>
      obtain rfl : bound = some b := hb
      obtain ⟨lead, kind, bound⟩ := b
      grind [Node.steps, TypeTreeKind.steps]
    | _ => cases hb
  · cases arguments with
    | none => cases ht
    | some a =>
      obtain ⟨before, elements, close⟩ := a
      obtain ⟨p, hp, rfl⟩ := List.mem_map.mp ht
      grind [Node.steps, argumentSteps, isInfix_listSteps hp]
  · exact isInfix_right (isInfix_flatMap (f := Dimension.steps) hd)

theorem NamedVariable.isInfix_steps {v : NamedVariable} {k : Node}
    (hk : k ∈ (Node.namedVariable v).children) : k.steps <:+: v.steps := by
  obtain ⟨lead, name, dimensions, initializer, type⟩ := v
  simp only [Node.children, List.mem_append, List.mem_cons, List.mem_map, Option.mem_toList,
    Option.map_eq_some_iff] at hk
  rw [steps.eq_def]
  rcases hk with (rfl | ⟨d, hd, rfl⟩) | ⟨i, rfl, rfl⟩
  · grind [Node.steps]
  · exact isInfix_left (isInfix_right (isInfix_flatMap (f := Dimension.steps) hd))
  · obtain ⟨lead, value⟩ := i
    exact isInfix_right List.infix_rfl

theorem VariableDeclarations.isInfix_steps {d : VariableDeclarations} {k : Node}
    (hk : k ∈ (Node.declarations d).children) : k.steps <:+: d.steps := by
  obtain ⟨lead, modifiers, type, declared, terminator⟩ := d
  simp only [Node.children, List.mem_append, List.mem_cons, List.mem_map] at hk
  rcases hk with ⟨m, hm, rfl⟩ | rfl | ⟨p, hp, rfl⟩
  · grind [Node.steps, steps, Modifier.isInfix_listSteps hm]
  · grind [Node.steps, steps]
  · grind [Node.steps, steps, NamedVariable.isInfix_listSteps hp]

theorem ClassDeclaration.isInfix_steps {c : ClassDeclaration} {k : Node}
    (hk : k ∈ (Node.classDeclaration c).children) : k.steps <:+: c.steps := by
  obtain ⟨lead, modifiers, kindLead, kind, name, superclasses, interfaces, body, type⟩ := c
  simp only [Node.children, List.mem_append, List.mem_cons, List.mem_map, Option.mem_toList,
    Option.map_eq_some_iff, List.not_mem_nil, or_false] at hk
  rcases hk with ((⟨m, hm, rfl⟩ | rfl | ⟨l, rfl, rfl⟩) | ⟨l, rfl, rfl⟩) | rfl
  · grind [Node.steps, steps, Modifier.isInfix_listSteps hm]
  · grind [Node.steps, steps]
  · grind [Node.steps, steps, TypeList.clauseSteps]
  · grind [Node.steps, steps, TypeList.clauseSteps]
  · grind [Node.steps, steps]

theorem MethodDeclaration.isInfix_steps {m : MethodDeclaration} {k : Node}
    (hk : k ∈ (Node.method m).children) : k.steps <:+: m.steps := by
  obtain ⟨lead, modifiers, returnType, name, ⟨before, elements, close⟩, throws, ending⟩ := m
  simp only [Node.children, List.mem_append, List.mem_cons, List.mem_map, Delimited.toList,
    Option.mem_toList, Option.map_eq_some_iff] at hk
  rw [steps.eq_def]
  rcases hk with (((⟨m, hm, rfl⟩ | ⟨t, rfl, rfl⟩) | rfl | ⟨_, ⟨p, hp, rfl⟩, rfl⟩) |
    ⟨l, rfl, rfl⟩) | ⟨b, hb, rfl⟩
  · iterate 6 refine isInfix_left ?_
    exact isInfix_left (List.infix_cons (Modifier.isInfix_listSteps hm))
  · iterate 6 refine isInfix_left ?_
    exact isInfix_right List.infix_rfl
  · iterate 5 refine isInfix_left ?_
    exact isInfix_right List.infix_rfl
  · iterate 3 refine isInfix_left ?_
    exact isInfix_right (VariableDeclarations.isInfix_listSteps hp)
  · exact isInfix_left (isInfix_right (isInfix_right List.infix_rfl))
  · cases ending with
    | body b' =>
      cases hb
      exact isInfix_right List.infix_rfl
    | terminator t => cases hb

namespace Node

/-- A node prints its children as they print alone. -/
theorem isInfix_steps_of_mem {n k : Node} (hk : k ∈ n.children) : k.steps <:+: n.steps := by
  cases n with
  | typeTree t => exact t.isInfix_steps hk
  | typeList l =>
    obtain ⟨p, hp, rfl⟩ := List.mem_map.mp hk
    exact TypeTree.isInfix_listSteps hp
  | expression e => exact e.isInfix_steps hk
  | modifier m => exact m.isInfix_steps hk
  | namedVariable v => exact v.isInfix_steps hk
  | declarations d => exact d.isInfix_steps hk
  | classBody b =>
    obtain ⟨lead, members, close⟩ := b
    obtain ⟨m, hm, rfl⟩ := List.mem_map.mp hk
    grind [steps, ClassBody.steps, Member.isInfix_listSteps hm]
  | classDeclaration c => exact c.isInfix_steps hk
  | member m => exact m.isInfix_steps hk
  | method m => exact m.isInfix_steps hk
  | block b =>
    obtain ⟨lead, statements, close⟩ := b
    obtain ⟨s, hs, rfl⟩ := List.mem_map.mp hk
    grind [steps, Block.steps, Statement.isInfix_listSteps hs]
  | ret r =>
    obtain ⟨lead, value, terminator⟩ := r
    obtain ⟨e, rfl, rfl⟩ := Option.map_eq_some_iff.mp (Option.mem_toList.mp hk)
    grind [steps, Return.steps]
  | condition c =>
    obtain ⟨lead, expression, close⟩ := c
    grind [children, steps, Condition.steps]
  | statement s => exact s.isInfix_steps hk
  | unit u =>
    simp only [children, List.mem_append, List.mem_map, Option.mem_toList,
      Option.map_eq_some_iff] at hk
    show _ <:+: CompilationUnit.steps u
    rw [CompilationUnit.steps]
    rcases hk with (⟨p, hp, rfl⟩ | ⟨i, hi, rfl⟩) | ⟨c, hc, rfl⟩
    · grind [steps]
    · exact isInfix_left (isInfix_left (isInfix_right (isInfix_flatMap (f := Import.steps) hi)))
    · exact isInfix_left (isInfix_right (isInfix_flatMap (f := ClassDeclaration.steps) hc))
  | _ => grind [children, steps]

/-- So does every node around them. -/
theorem isInfix_steps {m n : Node} (h : Within m n) : m.steps <:+: n.steps := by
  induction h with
  | refl => exact List.infix_rfl
  | child hk _ ih => exact ih.trans (isInfix_steps_of_mem hk)

end Node

end LosslessJava
