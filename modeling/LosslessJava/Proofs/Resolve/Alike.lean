import LosslessJava.Resolve.Attribution

/-!
# Attribution sees names only

Two scopes are alike when they differ at most in the order of their indexes. Attribution asks a
scope about names and nothing else, and it never reads a type that it replaces. Both facts are one
statement: in alike scopes a tree gets the same types, whatever another attribution left in it.

* `Scope.Alike.resolve`: alike scopes find the same classes.
* `CompilationUnit.attributed_congr`: indexes with the same look-ups give the same trees.
* `CompilationUnit.attributed_attributed`: a second attribution against the same index changes
  nothing.
-/

namespace LosslessJava

/-! ## Alike scopes -/

namespace Scope

/-- The scopes say the same about every name. -/
structure Alike (s t : Scope) : Prop where
  implicitLanguage : s.implicitLanguage = t.implicitLanguage
  package : s.package = t.package
  imports : s.imports = t.imports
  enclosing : s.enclosing = t.enclosing
  find? : ∀ name, s.index.find? name = t.index.find? name

namespace Alike

variable {s t : Scope}

theorem refl (s : Scope) : s.Alike s := ⟨rfl, rfl, rfl, rfl, fun _ => rfl⟩

theorem contains (h : s.Alike t) (name : QualifiedName) :
    s.index.contains name = t.index.contains name := by
  rw [TypeIndex.contains, TypeIndex.contains, h.find?]

theorem declare (h : s.Alike t) (name : String) : s.declare name = t.declare name := by
  rw [Scope.declare, Scope.declare, h.enclosing, h.package]

/-- Scopes stay alike inside a class. -/
theorem enter (h : s.Alike t) (name : String) :
    (s.enter (s.declare name)).Alike (t.enter (t.declare name)) :=
  ⟨h.implicitLanguage, h.package, h.imports,
    by simp only [Scope.enter, h.enclosing, h.declare], h.find?⟩

theorem resolveSimple (h : s.Alike t) (name : String) :
    s.resolveSimple name = t.resolveSimple name := by
  have himported : s.imported name = t.imported name := by
    funext i
    rw [Scope.imported, Scope.imported, h.find?]
  have honDemand : s.importedOnDemand name = t.importedOnDemand name := by
    funext i
    rw [Scope.importedOnDemand, Scope.importedOnDemand, h.find?]
  simp only [Scope.resolveSimple, Scope.fromEnclosing, Scope.fromPackage, Scope.fromLanguage,
    h.implicitLanguage, h.package, h.imports, h.enclosing, h.contains, himported, honDemand]

theorem resolveIndexed (h : s.Alike t) (name : QualifiedName) (length : Nat) :
    s.resolveIndexed name length = t.resolveIndexed name length := by
  have hfind : s.index.find? = t.index.find? := funext h.find?
  induction length with
  | zero => rfl
  | succ length ih => simp only [Scope.resolveIndexed, hfind, ih]

theorem resolve (h : s.Alike t) (name : QualifiedName) : s.resolve name = t.resolve name := by
  rw [Scope.resolve, Scope.resolve, h.resolveSimple, h.resolveIndexed]

theorem classReference (h : s.Alike t) (name : Option QualifiedName) :
    s.classReference name = t.classReference name := by
  simp only [Scope.classReference, h.resolve]

end Alike

end Scope

/-! ## Trees in alike scopes -/

mutual

theorem TypeTree.attributed_alike (r : Scope) {s t : Scope} (h : s.Alike t) :
    ∀ x : TypeTree, (x.attributed r).attributed s = x.attributed t
  | ⟨_, kind, arguments, _, _⟩ => by
    have hkind := TypeTreeKind.attributed_alike r h kind
    have harguments := TypeTree.attributedArguments_alike r h arguments
    rcases kind with p | name | (_ | ⟨_, _, bound⟩) <;>
      simp_all only [TypeTree.attributed, TypeTreeKind.attributed, h.resolve]

theorem TypeTree.attributedArguments_alike (r : Scope) {s t : Scope} (h : s.Alike t) :
    ∀ a : Option (Delimited TypeTree),
      TypeTree.attributedArguments s (TypeTree.attributedArguments r a) =
        TypeTree.attributedArguments t a
  | none => rfl
  | some ⟨_, elements, _⟩ => by
    simp only [TypeTree.attributedArguments, TypeTree.attributedList_alike r h elements]

theorem TypeTree.attributedList_alike (r : Scope) {s t : Scope} (h : s.Alike t) :
    ∀ ts : List (Padded TypeTree),
      TypeTree.attributedList s (TypeTree.attributedList r ts) = TypeTree.attributedList t ts
  | [] => rfl
  | ⟨x, _⟩ :: xs => by
    simp only [TypeTree.attributedList, TypeTree.attributed_alike r h x,
      TypeTree.attributedList_alike r h xs]

theorem TypeTreeKind.attributed_alike (r : Scope) {s t : Scope} (h : s.Alike t) :
    ∀ k : TypeTreeKind, (k.attributed r).attributed s = k.attributed t
  | .primitive _ => rfl
  | .named _ => rfl
  | .wildcard none => rfl
  | .wildcard (some ⟨_, _, bound⟩) => by
    simp only [TypeTreeKind.attributed, TypeTree.attributed_alike r h bound]

end

theorem TypeList.map_attributed_alike (r : Scope) {s t : Scope} (h : s.Alike t)
    (l : Option TypeList) :
    (l.map (TypeList.attributed r)).map (TypeList.attributed s) = l.map (TypeList.attributed t) := by
  cases l with
  | none => rfl
  | some l => simp only [Option.map_some, TypeList.attributed, TypeTree.attributedList_alike r h]

theorem TypeTree.map_attributed_alike (r : Scope) {s t : Scope} (h : s.Alike t)
    (x : Option TypeTree) :
    (x.map (TypeTree.attributed r)).map (TypeTree.attributed s) = x.map (TypeTree.attributed t) := by
  cases x with
  | none => rfl
  | some x => simp only [Option.map_some, TypeTree.attributed_alike r h]

/-- The name that an expression writes is no type. -/
theorem Expression.dottedName?_attributed (s : Scope) :
    ∀ e : Expression, (e.attributed s).dottedName? = e.dottedName?
  | .fieldAccess _ target _ _ _ => by
    simp only [Expression.attributed, Expression.dottedName?,
      Expression.dottedName?_attributed s target]
  | .newClass _ _ _ none => rfl
  | .newClass _ _ _ (some _) => rfl
  | .literal _ | .identifier _ | .call .. | .invocation .. | .binary .. | .prefixed ..
  | .postfixed .. | .assignment .. | .conditional .. | .parentheses .. | .self .. => rfl

mutual

theorem Expression.attributed_alike (r : Scope) {s t : Scope} (h : s.Alike t) :
    ∀ e : Expression, (e.attributed r).attributed s = e.attributed t
  | .literal _ => rfl
  | .identifier _ => by
    simp only [Expression.attributed, h.classReference]
  | .fieldAccess _ target _ _ _ => by
    simp only [Expression.attributed, Expression.attributed_alike r h target,
      Expression.dottedName?, Expression.dottedName?_attributed, h.classReference]
  | .call _ _ ⟨_, elements, _⟩ _ => by
    simp only [Expression.attributed, Expression.attributedList_alike r h elements]
  | .invocation _ target _ _ ⟨_, elements, _⟩ _ => by
    simp only [Expression.attributed, Expression.attributed_alike r h target,
      Expression.attributedList_alike r h elements]
  | .newClass _ type ⟨_, elements, _⟩ none => by
    simp only [Expression.attributed, TypeTree.attributed_alike r h type,
      Expression.attributedList_alike r h elements]
  | .newClass _ type ⟨_, elements, _⟩ (some body) => by
    simp only [Expression.attributed, TypeTree.attributed_alike r h type,
      Expression.attributedList_alike r h elements, ClassBody.attributed_alike r h body]
  | .binary _ left _ _ right => by
    simp only [Expression.attributed, Expression.attributed_alike r h left,
      Expression.attributed_alike r h right]
  | .prefixed _ _ operand => by
    simp only [Expression.attributed, Expression.attributed_alike r h operand]
  | .postfixed _ operand _ _ => by
    simp only [Expression.attributed, Expression.attributed_alike r h operand]
  | .assignment _ target _ _ value => by
    simp only [Expression.attributed, Expression.attributed_alike r h target,
      Expression.attributed_alike r h value]
  | .conditional _ condition _ thenPart _ elsePart => by
    simp only [Expression.attributed, Expression.attributed_alike r h condition,
      Expression.attributed_alike r h thenPart, Expression.attributed_alike r h elsePart]
  | .parentheses _ inner _ => by
    simp only [Expression.attributed, Expression.attributed_alike r h inner]
  | .self _ _ => by
    simp only [Expression.attributed, h.enclosing]

theorem Expression.attributedList_alike (r : Scope) {s t : Scope} (h : s.Alike t) :
    ∀ es : List (Padded Expression),
      Expression.attributedList s (Expression.attributedList r es) =
        Expression.attributedList t es
  | [] => rfl
  | ⟨e, _⟩ :: es => by
    simp only [Expression.attributedList, Expression.attributed_alike r h e,
      Expression.attributedList_alike r h es]

theorem Modifier.attributed_alike (r : Scope) {s t : Scope} (h : s.Alike t) :
    ∀ m : Modifier, (m.attributed r).attributed s = m.attributed t
  | .keyword _ _ => rfl
  | .annotated _ _ _ none _ => by
    simp only [Modifier.attributed, h.resolve]
  | .annotated _ _ _ (some ⟨_, elements, _⟩) _ => by
    simp only [Modifier.attributed, Expression.attributedList_alike r h elements, h.resolve]

theorem Modifier.attributedList_alike (r : Scope) {s t : Scope} (h : s.Alike t) :
    ∀ ms : List Modifier,
      Modifier.attributedList s (Modifier.attributedList r ms) = Modifier.attributedList t ms
  | [] => rfl
  | m :: ms => by
    simp only [Modifier.attributedList, Modifier.attributed_alike r h m,
      Modifier.attributedList_alike r h ms]

theorem NamedVariable.attributed_alike (r : Scope) {s t : Scope} (h : s.Alike t)
    (before declared : Option JavaType) :
    ∀ v : NamedVariable, (v.attributed r before).attributed s declared = v.attributed t declared
  | ⟨_, _, _, none, _⟩ => rfl
  | ⟨_, _, _, some ⟨_, value⟩, _⟩ => by
    simp only [NamedVariable.attributed, Expression.attributed_alike r h value]

theorem NamedVariable.attributedList_alike (r : Scope) {s t : Scope} (h : s.Alike t)
    (before declared : Option JavaType) : ∀ vs : List (Padded NamedVariable),
      NamedVariable.attributedList s declared (NamedVariable.attributedList r before vs) =
        NamedVariable.attributedList t declared vs
  | [] => rfl
  | ⟨v, _⟩ :: vs => by
    simp only [NamedVariable.attributedList, NamedVariable.attributed_alike r h before declared v,
      NamedVariable.attributedList_alike r h before declared vs]

theorem VariableDeclarations.attributed_alike (r : Scope) {s t : Scope} (h : s.Alike t) :
    ∀ d : VariableDeclarations, (d.attributed r).attributed s = d.attributed t
  | ⟨_, modifiers, type, declared, _⟩ => by
    simp only [VariableDeclarations.attributed, Modifier.attributedList_alike r h modifiers,
      TypeTree.attributed_alike r h type, NamedVariable.attributedList_alike r h _ _ declared]

theorem VariableDeclarations.attributedList_alike (r : Scope) {s t : Scope} (h : s.Alike t) :
    ∀ ds : List (Padded VariableDeclarations),
      VariableDeclarations.attributedList s (VariableDeclarations.attributedList r ds) =
        VariableDeclarations.attributedList t ds
  | [] => rfl
  | ⟨d, _⟩ :: ds => by
    simp only [VariableDeclarations.attributedList, VariableDeclarations.attributed_alike r h d,
      VariableDeclarations.attributedList_alike r h ds]

theorem ClassBody.attributed_alike (r : Scope) {s t : Scope} (h : s.Alike t) :
    ∀ b : ClassBody, (b.attributed r).attributed s = b.attributed t
  | ⟨_, members, _⟩ => by
    simp only [ClassBody.attributed, Member.attributedList_alike r h members]

theorem ClassDeclaration.attributed_alike (r : Scope) {s t : Scope} (h : s.Alike t) :
    ∀ c : ClassDeclaration, (c.attributed r).attributed s = c.attributed t
  | ⟨_, modifiers, _, _, name, _, _, body, _⟩ => by
    have hbody :=
      ClassBody.attributed_alike (r.enter (r.declare name.name)) (h.enter name.name) body
    rw [h.declare] at hbody
    simp only [ClassDeclaration.attributed, Modifier.attributedList_alike r h modifiers,
      TypeList.map_attributed_alike r h, h.declare, hbody]

theorem Member.attributed_alike (r : Scope) {s t : Scope} (h : s.Alike t) :
    ∀ m : Member, (m.attributed r).attributed s = m.attributed t
  | .field d => by
    simp only [Member.attributed, VariableDeclarations.attributed_alike r h d]
  | .method m => by
    simp only [Member.attributed, MethodDeclaration.attributed_alike r h m]
  | .nested c => by
    simp only [Member.attributed, ClassDeclaration.attributed_alike r h c]
  | .empty _ => rfl

theorem Member.attributedList_alike (r : Scope) {s t : Scope} (h : s.Alike t) :
    ∀ ms : List Member,
      Member.attributedList s (Member.attributedList r ms) = Member.attributedList t ms
  | [] => rfl
  | m :: ms => by
    simp only [Member.attributedList, Member.attributed_alike r h m,
      Member.attributedList_alike r h ms]

theorem MethodDeclaration.attributed_alike (r : Scope) {s t : Scope} (h : s.Alike t) :
    ∀ m : MethodDeclaration, (m.attributed r).attributed s = m.attributed t
  | ⟨_, modifiers, _, _, ⟨_, elements, _⟩, _, ending⟩ => by
    simp only [MethodDeclaration.attributed, Modifier.attributedList_alike r h modifiers,
      TypeTree.map_attributed_alike r h, VariableDeclarations.attributedList_alike r h elements,
      TypeList.map_attributed_alike r h, MethodEnding.attributed_alike r h ending]

theorem MethodEnding.attributed_alike (r : Scope) {s t : Scope} (h : s.Alike t) :
    ∀ m : MethodEnding, (m.attributed r).attributed s = m.attributed t
  | .body b => by
    simp only [MethodEnding.attributed, Block.attributed_alike r h b]
  | .terminator _ => rfl

theorem Block.attributed_alike (r : Scope) {s t : Scope} (h : s.Alike t) :
    ∀ b : Block, (b.attributed r).attributed s = b.attributed t
  | ⟨_, statements, _⟩ => by
    simp only [Block.attributed, Statement.attributedList_alike r h statements]

theorem Return.attributed_alike (r : Scope) {s t : Scope} (h : s.Alike t) :
    ∀ x : Return, (x.attributed r).attributed s = x.attributed t
  | ⟨_, none, _⟩ => rfl
  | ⟨_, some e, _⟩ => by
    simp only [Return.attributed, Expression.attributed_alike r h e]

theorem Condition.attributed_alike (r : Scope) {s t : Scope} (h : s.Alike t) :
    ∀ c : Condition, (c.attributed r).attributed s = c.attributed t
  | ⟨_, e, _⟩ => by
    simp only [Condition.attributed, Expression.attributed_alike r h e]

theorem Statement.attributed_alike (r : Scope) {s t : Scope} (h : s.Alike t) :
    ∀ x : Statement, (x.attributed r).attributed s = x.attributed t
  | .block b => by
    simp only [Statement.attributed, Block.attributed_alike r h b]
  | .ret x => by
    simp only [Statement.attributed, Return.attributed_alike r h x]
  | .throwing _ e _ => by
    simp only [Statement.attributed, Expression.attributed_alike r h e]
  | .branch _ condition thenPart => by
    simp only [Statement.attributed, Condition.attributed_alike r h condition,
      Statement.attributed_alike r h thenPart]
  | .fork _ condition thenPart _ elsePart => by
    simp only [Statement.attributed, Condition.attributed_alike r h condition,
      Statement.attributed_alike r h thenPart, Statement.attributed_alike r h elsePart]
  | .loop _ condition body => by
    simp only [Statement.attributed, Condition.attributed_alike r h condition,
      Statement.attributed_alike r h body]
  | .empty _ => rfl
  | .declaration d => by
    simp only [Statement.attributed, VariableDeclarations.attributed_alike r h d]
  | .expression _ e _ => by
    simp only [Statement.attributed, Expression.attributed_alike r h e]

theorem Statement.attributedList_alike (r : Scope) {s t : Scope} (h : s.Alike t) :
    ∀ xs : List Statement,
      Statement.attributedList s (Statement.attributedList r xs) = Statement.attributedList t xs
  | [] => rfl
  | x :: xs => by
    simp only [Statement.attributedList, Statement.attributed_alike r h x,
      Statement.attributedList_alike r h xs]

end

/-! ## Units -/

theorem ClassDeclaration.attributed_congr {s t : Scope} (h : s.Alike t) (c : ClassDeclaration) :
    c.attributed s = c.attributed t :=
  (c.attributed_alike s (.refl s)).symm.trans (c.attributed_alike s h)

namespace CompilationUnit

/-- Indexes with the same look-ups give the same trees. -/
theorem attributed_congr {index index' : TypeIndex}
    (h : ∀ name, index.find? name = index'.find? name) (u : CompilationUnit)
    (implicitLanguage : Bool) :
    u.attributed index implicitLanguage = u.attributed index' implicitLanguage := by
  have halike : (Scope.ofUnit index implicitLanguage u).Alike
      (Scope.ofUnit index' implicitLanguage u) := ⟨rfl, rfl, rfl, rfl, h⟩
  simp only [attributed]
  congr 1
  exact List.map_congr_left fun c _ => c.attributed_congr halike

/-- A second attribution against the same index changes nothing. -/
theorem attributed_attributed (u : CompilationUnit) (index : TypeIndex) (implicitLanguage : Bool) :
    (u.attributed index implicitLanguage).attributed index implicitLanguage =
      u.attributed index implicitLanguage := by
  have hscope : Scope.ofUnit index implicitLanguage (u.attributed index implicitLanguage) =
      Scope.ofUnit index implicitLanguage u := rfl
  rw [attributed, hscope]
  simp only [attributed, List.map_map]
  congr 1
  exact List.map_congr_left fun c _ => c.attributed_alike _ (.refl _)

end CompilationUnit

end LosslessJava
