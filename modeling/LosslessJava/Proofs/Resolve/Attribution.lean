import LosslessJava.Proofs.Resolve.Alike
import LosslessJava.Proofs.Tree.Path

/-!
# Attribution changes nothing but types

* `CompilationUnit.untyped_attributed`: without types, a unit is the same before and after its
  attribution. So both have the same prints, the same trivia and the same nodes, up to types.
* `attributed_only_types`: all nodes stay at their paths and print as before, and a second
  attribution finds nothing left to do.
-/

namespace LosslessJava

mutual

theorem TypeTree.untyped_attributed (s : Scope) :
    ∀ t : TypeTree, (t.attributed s).untyped = t.untyped
  | ⟨_, kind, arguments, _, _⟩ => by
    simp only [TypeTree.attributed, TypeTree.untyped, TypeTreeKind.untyped_attributed s kind,
      TypeTree.untypedArguments_attributed s arguments]

theorem TypeTree.untypedArguments_attributed (s : Scope) : ∀ a : Option (Delimited TypeTree),
    TypeTree.untypedArguments (TypeTree.attributedArguments s a) = TypeTree.untypedArguments a
  | none => rfl
  | some ⟨_, elements, _⟩ => by
    simp only [TypeTree.attributedArguments, TypeTree.untypedArguments,
      TypeTree.untypedList_attributed s elements]

theorem TypeTree.untypedList_attributed (s : Scope) : ∀ ts : List (Padded TypeTree),
    TypeTree.untypedList (TypeTree.attributedList s ts) = TypeTree.untypedList ts
  | [] => rfl
  | ⟨t, _⟩ :: ts => by
    simp only [TypeTree.attributedList, TypeTree.untypedList, TypeTree.untyped_attributed s t,
      TypeTree.untypedList_attributed s ts]

theorem TypeTreeKind.untyped_attributed (s : Scope) :
    ∀ k : TypeTreeKind, (k.attributed s).untyped = k.untyped
  | .primitive _ => rfl
  | .named _ => rfl
  | .wildcard none => rfl
  | .wildcard (some ⟨_, _, bound⟩) => by
    simp only [TypeTreeKind.attributed, TypeTreeKind.untyped, TypeTree.untyped_attributed s bound]

end

theorem TypeList.untyped_attributed (s : Scope) (l : TypeList) :
    (l.attributed s).untyped = l.untyped := by
  simp only [TypeList.attributed, TypeList.untyped, TypeTree.untypedList_attributed]

theorem TypeList.map_untyped_attributed (s : Scope) (l : Option TypeList) :
    (l.map (TypeList.attributed s)).map TypeList.untyped = l.map TypeList.untyped := by
  cases l with
  | none => rfl
  | some l => simp only [Option.map_some, TypeList.untyped_attributed]

theorem TypeTree.map_untyped_attributed (s : Scope) (t : Option TypeTree) :
    (t.map (TypeTree.attributed s)).map TypeTree.untyped = t.map TypeTree.untyped := by
  cases t with
  | none => rfl
  | some t => simp only [Option.map_some, TypeTree.untyped_attributed]

mutual

theorem Expression.untyped_attributed (s : Scope) :
    ∀ e : Expression, (e.attributed s).untyped = e.untyped
  | .literal _ => rfl
  | .identifier _ => rfl
  | .fieldAccess _ target _ _ _ => by
    simp only [Expression.attributed, Expression.untyped, Expression.untyped_attributed s target]
  | .call _ _ ⟨_, elements, _⟩ _ => by
    simp only [Expression.attributed, Expression.untyped,
      Expression.untypedList_attributed s elements]
  | .invocation _ target _ _ ⟨_, elements, _⟩ _ => by
    simp only [Expression.attributed, Expression.untyped, Expression.untyped_attributed s target,
      Expression.untypedList_attributed s elements]
  | .newClass _ type ⟨_, elements, _⟩ none => by
    simp only [Expression.attributed, Expression.untyped, TypeTree.untyped_attributed s type,
      Expression.untypedList_attributed s elements]
  | .newClass _ type ⟨_, elements, _⟩ (some body) => by
    simp only [Expression.attributed, Expression.untyped, TypeTree.untyped_attributed s type,
      Expression.untypedList_attributed s elements, ClassBody.untyped_attributed s body]
  | .binary _ left _ _ right => by
    simp only [Expression.attributed, Expression.untyped, Expression.untyped_attributed s left,
      Expression.untyped_attributed s right]
  | .prefixed _ _ operand => by
    simp only [Expression.attributed, Expression.untyped, Expression.untyped_attributed s operand]
  | .postfixed _ operand _ _ => by
    simp only [Expression.attributed, Expression.untyped, Expression.untyped_attributed s operand]
  | .assignment _ target _ _ value => by
    simp only [Expression.attributed, Expression.untyped, Expression.untyped_attributed s target,
      Expression.untyped_attributed s value]
  | .conditional _ condition _ thenPart _ elsePart => by
    simp only [Expression.attributed, Expression.untyped,
      Expression.untyped_attributed s condition, Expression.untyped_attributed s thenPart,
      Expression.untyped_attributed s elsePart]
  | .parentheses _ inner _ => by
    simp only [Expression.attributed, Expression.untyped, Expression.untyped_attributed s inner]
  | .self _ _ => rfl

theorem Expression.untypedList_attributed (s : Scope) : ∀ es : List (Padded Expression),
    Expression.untypedList (Expression.attributedList s es) = Expression.untypedList es
  | [] => rfl
  | ⟨e, _⟩ :: es => by
    simp only [Expression.attributedList, Expression.untypedList,
      Expression.untyped_attributed s e, Expression.untypedList_attributed s es]

theorem Modifier.untyped_attributed (s : Scope) :
    ∀ m : Modifier, (m.attributed s).untyped = m.untyped
  | .keyword _ _ => rfl
  | .annotated _ _ _ none _ => rfl
  | .annotated _ _ _ (some ⟨_, elements, _⟩) _ => by
    simp only [Modifier.attributed, Modifier.untyped, Expression.untypedList_attributed s elements]

theorem Modifier.untypedList_attributed (s : Scope) : ∀ ms : List Modifier,
    Modifier.untypedList (Modifier.attributedList s ms) = Modifier.untypedList ms
  | [] => rfl
  | m :: ms => by
    simp only [Modifier.attributedList, Modifier.untypedList, Modifier.untyped_attributed s m,
      Modifier.untypedList_attributed s ms]

theorem NamedVariable.untyped_attributed (s : Scope) (declared : Option JavaType) :
    ∀ v : NamedVariable, (v.attributed s declared).untyped = v.untyped
  | ⟨_, _, _, none, _⟩ => rfl
  | ⟨_, _, _, some ⟨_, value⟩, _⟩ => by
    simp only [NamedVariable.attributed, NamedVariable.untyped,
      Expression.untyped_attributed s value]

theorem NamedVariable.untypedList_attributed (s : Scope) (declared : Option JavaType) :
    ∀ vs : List (Padded NamedVariable),
      NamedVariable.untypedList (NamedVariable.attributedList s declared vs) =
        NamedVariable.untypedList vs
  | [] => rfl
  | ⟨v, _⟩ :: vs => by
    simp only [NamedVariable.attributedList, NamedVariable.untypedList,
      NamedVariable.untyped_attributed s declared v,
      NamedVariable.untypedList_attributed s declared vs]

theorem VariableDeclarations.untyped_attributed (s : Scope) :
    ∀ d : VariableDeclarations, (d.attributed s).untyped = d.untyped
  | ⟨_, modifiers, type, declared, _⟩ => by
    simp only [VariableDeclarations.attributed, VariableDeclarations.untyped,
      Modifier.untypedList_attributed s modifiers, TypeTree.untyped_attributed s type,
      NamedVariable.untypedList_attributed s _ declared]

theorem VariableDeclarations.untypedList_attributed (s : Scope) :
    ∀ ds : List (Padded VariableDeclarations),
      VariableDeclarations.untypedList (VariableDeclarations.attributedList s ds) =
        VariableDeclarations.untypedList ds
  | [] => rfl
  | ⟨d, _⟩ :: ds => by
    simp only [VariableDeclarations.attributedList, VariableDeclarations.untypedList,
      VariableDeclarations.untyped_attributed s d, VariableDeclarations.untypedList_attributed s ds]

theorem ClassBody.untyped_attributed (s : Scope) :
    ∀ b : ClassBody, (b.attributed s).untyped = b.untyped
  | ⟨_, members, _⟩ => by
    simp only [ClassBody.attributed, ClassBody.untyped, Member.untypedList_attributed s members]

theorem ClassDeclaration.untyped_attributed (s : Scope) :
    ∀ c : ClassDeclaration, (c.attributed s).untyped = c.untyped
  | ⟨_, modifiers, _, _, _, _, _, body, _⟩ => by
    simp only [ClassDeclaration.attributed, ClassDeclaration.untyped,
      Modifier.untypedList_attributed s modifiers, TypeList.map_untyped_attributed,
      ClassBody.untyped_attributed _ body]
    rfl

theorem Member.untyped_attributed (s : Scope) :
    ∀ m : Member, (m.attributed s).untyped = m.untyped
  | .field d => by
    simp only [Member.attributed, Member.untyped, VariableDeclarations.untyped_attributed s d]
  | .method m => by
    simp only [Member.attributed, Member.untyped, MethodDeclaration.untyped_attributed s m]
  | .nested c => by
    simp only [Member.attributed, Member.untyped, ClassDeclaration.untyped_attributed s c]
  | .empty _ => rfl

theorem Member.untypedList_attributed (s : Scope) : ∀ ms : List Member,
    Member.untypedList (Member.attributedList s ms) = Member.untypedList ms
  | [] => rfl
  | m :: ms => by
    simp only [Member.attributedList, Member.untypedList, Member.untyped_attributed s m,
      Member.untypedList_attributed s ms]

theorem MethodDeclaration.untyped_attributed (s : Scope) :
    ∀ m : MethodDeclaration, (m.attributed s).untyped = m.untyped
  | ⟨_, modifiers, _, _, ⟨_, elements, _⟩, _, ending⟩ => by
    simp only [MethodDeclaration.attributed, MethodDeclaration.untyped,
      Modifier.untypedList_attributed s modifiers, TypeTree.map_untyped_attributed,
      VariableDeclarations.untypedList_attributed s elements, TypeList.map_untyped_attributed,
      MethodEnding.untyped_attributed s ending]

theorem MethodEnding.untyped_attributed (s : Scope) :
    ∀ m : MethodEnding, (m.attributed s).untyped = m.untyped
  | .body b => by
    simp only [MethodEnding.attributed, MethodEnding.untyped, Block.untyped_attributed s b]
  | .terminator _ => rfl

theorem Block.untyped_attributed (s : Scope) : ∀ b : Block, (b.attributed s).untyped = b.untyped
  | ⟨_, statements, _⟩ => by
    simp only [Block.attributed, Block.untyped, Statement.untypedList_attributed s statements]

theorem Return.untyped_attributed (s : Scope) :
    ∀ r : Return, (r.attributed s).untyped = r.untyped
  | ⟨_, none, _⟩ => rfl
  | ⟨_, some e, _⟩ => by
    simp only [Return.attributed, Return.untyped, Expression.untyped_attributed s e]

theorem Condition.untyped_attributed (s : Scope) :
    ∀ c : Condition, (c.attributed s).untyped = c.untyped
  | ⟨_, e, _⟩ => by
    simp only [Condition.attributed, Condition.untyped, Expression.untyped_attributed s e]

theorem Statement.untyped_attributed (s : Scope) :
    ∀ t : Statement, (t.attributed s).untyped = t.untyped
  | .block b => by
    simp only [Statement.attributed, Statement.untyped, Block.untyped_attributed s b]
  | .ret r => by
    simp only [Statement.attributed, Statement.untyped, Return.untyped_attributed s r]
  | .throwing _ e _ => by
    simp only [Statement.attributed, Statement.untyped, Expression.untyped_attributed s e]
  | .branch _ condition thenPart => by
    simp only [Statement.attributed, Statement.untyped, Condition.untyped_attributed s condition,
      Statement.untyped_attributed s thenPart]
  | .fork _ condition thenPart _ elsePart => by
    simp only [Statement.attributed, Statement.untyped, Condition.untyped_attributed s condition,
      Statement.untyped_attributed s thenPart, Statement.untyped_attributed s elsePart]
  | .loop _ condition body => by
    simp only [Statement.attributed, Statement.untyped, Condition.untyped_attributed s condition,
      Statement.untyped_attributed s body]
  | .empty _ => rfl
  | .declaration d => by
    simp only [Statement.attributed, Statement.untyped, VariableDeclarations.untyped_attributed s d]
  | .expression _ e _ => by
    simp only [Statement.attributed, Statement.untyped, Expression.untyped_attributed s e]

theorem Statement.untypedList_attributed (s : Scope) : ∀ ts : List Statement,
    Statement.untypedList (Statement.attributedList s ts) = Statement.untypedList ts
  | [] => rfl
  | t :: ts => by
    simp only [Statement.attributedList, Statement.untypedList, Statement.untyped_attributed s t,
      Statement.untypedList_attributed s ts]

end

/-- Attribution changes nothing but types. -/
theorem CompilationUnit.untyped_attributed (u : CompilationUnit) (index : TypeIndex)
    (implicitLanguage : Bool) : (u.attributed index implicitLanguage).untyped = u.untyped := by
  simp only [CompilationUnit.attributed, CompilationUnit.untyped, List.map_map]
  congr 1
  exact List.map_congr_left fun c _ => ClassDeclaration.untyped_attributed _ c

/-- Attribution only adds types: it changes neither the tree without its types nor any print, of the
unit or of the node at any path, and doing it twice is doing it once. -/
theorem attributed_only_types (u : CompilationUnit) (index : TypeIndex) (implicitLanguage : Bool) :
    let v := u.attributed index implicitLanguage
    v.untyped = u.untyped ∧
    print v = print u ∧ printTrimmed v = printTrimmed u ∧
    (∀ path, ((Node.unit v).at? path).map Node.untyped = ((Node.unit u).at? path).map Node.untyped ∧
      ((Node.unit v).at? path).map print = ((Node.unit u).at? path).map print ∧
      ((Node.unit v).at? path).map printTrimmed = ((Node.unit u).at? path).map printTrimmed) ∧
    v.attributed index implicitLanguage = v := by
  intro v
  have huntyped : v.untyped = u.untyped := u.untyped_attributed index implicitLanguage
  have hnode : (Node.unit v).untyped = (Node.unit u).untyped := congrArg Node.unit huntyped
  have hpath := Node.map_untyped_at?_congr hnode
  have hprint : ∀ path, ((Node.unit v).at? path).map print = ((Node.unit u).at? path).map print := by
    intro path
    have := congrArg (Option.map print) (hpath path)
    simpa only [Option.map_map, Function.comp_def, Node.print_untyped] using this
  have htrimmed : ∀ path,
      ((Node.unit v).at? path).map printTrimmed = ((Node.unit u).at? path).map printTrimmed := by
    intro path
    have := congrArg (Option.map printTrimmed) (hpath path)
    simpa only [Option.map_map, Function.comp_def, Node.printTrimmed_untyped] using this
  exact ⟨huntyped, Option.some.inj (hprint []), Option.some.inj (htrimmed []),
    fun path => ⟨hpath path, hprint path, htrimmed path⟩,
    u.attributed_attributed index implicitLanguage⟩

end LosslessJava
