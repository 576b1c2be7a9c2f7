import LosslessJava.Proofs.Tree.Occurrence

/-!
# Trees without types

`untyped` forgets all types of a tree and keeps everything else.

* `Node.steps_untyped`, `Node.trivia_untyped`, `Node.children_untyped`: types are neither printed
  nor part of the structure.
* `Node.exists_within_of_untyped`: two trees that differ in types only have the same nodes, up to
  types.
-/

namespace LosslessJava

/-! ## Types -/

mutual

def TypeTree.untyped : TypeTree → TypeTree
  | ⟨lead, kind, arguments, dimensions, _⟩ =>
    ⟨lead, TypeTreeKind.untyped kind, TypeTree.untypedArguments arguments, dimensions, none⟩

def TypeTree.untypedArguments : Option (Delimited TypeTree) → Option (Delimited TypeTree)
  | none => none
  | some ⟨before, elements, close⟩ => some ⟨before, TypeTree.untypedList elements, close⟩

def TypeTree.untypedList : List (Padded TypeTree) → List (Padded TypeTree)
  | [] => []
  | ⟨t, after⟩ :: ts => ⟨TypeTree.untyped t, after⟩ :: TypeTree.untypedList ts

def TypeTreeKind.untyped : TypeTreeKind → TypeTreeKind
  | .primitive p => .primitive p
  | .named name => .named name
  | .wildcard none => .wildcard none
  | .wildcard (some ⟨lead, kind, bound⟩) => .wildcard (some ⟨lead, kind, TypeTree.untyped bound⟩)

end

namespace TypeList

def untyped (l : TypeList) : TypeList := { l with types := TypeTree.untypedList l.types }

end TypeList

namespace Identifier

def untyped (i : Identifier) : Identifier := { i with type := none }

end Identifier

/-! ## Expressions, statements and declarations -/

mutual

def Expression.untyped : Expression → Expression
  | .literal l => .literal l
  | .identifier i => .identifier i.untyped
  | .fieldAccess lead target dotLead name _ =>
    .fieldAccess lead target.untyped dotLead name.untyped none
  | .call lead name ⟨before, elements, close⟩ _ =>
    .call lead name.untyped ⟨before, Expression.untypedList elements, close⟩ none
  | .invocation lead target dotLead name ⟨before, elements, close⟩ _ =>
    .invocation lead target.untyped dotLead name.untyped
      ⟨before, Expression.untypedList elements, close⟩ none
  | .newClass lead type ⟨before, elements, close⟩ body =>
    .newClass lead type.untyped ⟨before, Expression.untypedList elements, close⟩
      (match body with | none => none | some b => some b.untyped)
  | .binary lead left operatorLead operator right =>
    .binary lead left.untyped operatorLead operator right.untyped
  | .prefixed lead operator operand => .prefixed lead operator operand.untyped
  | .postfixed lead operand operatorLead operator =>
    .postfixed lead operand.untyped operatorLead operator
  | .assignment lead target operatorLead operator value =>
    .assignment lead target.untyped operatorLead operator value.untyped
  | .conditional lead condition questionLead thenPart colonLead elsePart =>
    .conditional lead condition.untyped questionLead thenPart.untyped colonLead elsePart.untyped
  | .parentheses lead inner close => .parentheses lead inner.untyped close
  | .self lead _ => .self lead none

def Expression.untypedList : List (Padded Expression) → List (Padded Expression)
  | [] => []
  | ⟨e, after⟩ :: es => ⟨e.untyped, after⟩ :: Expression.untypedList es

def Modifier.untyped : Modifier → Modifier
  | .keyword lead kind => .keyword lead kind
  | .annotated lead nameLead name none _ => .annotated lead nameLead name none none
  | .annotated lead nameLead name (some ⟨before, elements, close⟩) _ =>
    .annotated lead nameLead name (some ⟨before, Expression.untypedList elements, close⟩) none

def Modifier.untypedList : List Modifier → List Modifier
  | [] => []
  | m :: ms => m.untyped :: Modifier.untypedList ms

def NamedVariable.untyped : NamedVariable → NamedVariable
  | ⟨lead, name, dimensions, initializer, _⟩ =>
    ⟨lead, name.untyped, dimensions,
      (match initializer with
        | none => none
        | some ⟨lead, value⟩ => some ⟨lead, value.untyped⟩), none⟩

def NamedVariable.untypedList : List (Padded NamedVariable) → List (Padded NamedVariable)
  | [] => []
  | ⟨v, after⟩ :: vs => ⟨v.untyped, after⟩ :: NamedVariable.untypedList vs

def VariableDeclarations.untyped : VariableDeclarations → VariableDeclarations
  | ⟨lead, modifiers, type, declared, terminator⟩ =>
    ⟨lead, Modifier.untypedList modifiers, type.untyped, NamedVariable.untypedList declared,
      terminator⟩

def VariableDeclarations.untypedList :
    List (Padded VariableDeclarations) → List (Padded VariableDeclarations)
  | [] => []
  | ⟨d, after⟩ :: ds => ⟨d.untyped, after⟩ :: VariableDeclarations.untypedList ds

def ClassBody.untyped : ClassBody → ClassBody
  | ⟨lead, members, close⟩ => ⟨lead, Member.untypedList members, close⟩

def ClassDeclaration.untyped : ClassDeclaration → ClassDeclaration
  | ⟨lead, modifiers, kindLead, kind, name, superclasses, interfaces, body, _⟩ =>
    ⟨lead, Modifier.untypedList modifiers, kindLead, kind, name.untyped,
      superclasses.map TypeList.untyped, interfaces.map TypeList.untyped, body.untyped, none⟩

def Member.untyped : Member → Member
  | .field d => .field d.untyped
  | .method m => .method m.untyped
  | .nested c => .nested c.untyped
  | .empty lead => .empty lead

def Member.untypedList : List Member → List Member
  | [] => []
  | m :: ms => m.untyped :: Member.untypedList ms

def MethodDeclaration.untyped : MethodDeclaration → MethodDeclaration
  | ⟨lead, modifiers, returnType, name, ⟨before, elements, close⟩, throws, ending⟩ =>
    ⟨lead, Modifier.untypedList modifiers, returnType.map TypeTree.untyped, name.untyped,
      ⟨before, VariableDeclarations.untypedList elements, close⟩, throws.map TypeList.untyped,
      ending.untyped⟩

def MethodEnding.untyped : MethodEnding → MethodEnding
  | .body block => .body block.untyped
  | .terminator lead => .terminator lead

def Block.untyped : Block → Block
  | ⟨lead, statements, close⟩ => ⟨lead, Statement.untypedList statements, close⟩

def Return.untyped : Return → Return
  | ⟨lead, value, terminator⟩ =>
    ⟨lead, (match value with | none => none | some e => some e.untyped), terminator⟩

def Condition.untyped : Condition → Condition
  | ⟨lead, expression, close⟩ => ⟨lead, expression.untyped, close⟩

def Statement.untyped : Statement → Statement
  | .block b => .block b.untyped
  | .ret r => .ret r.untyped
  | .throwing lead exception terminator => .throwing lead exception.untyped terminator
  | .branch lead condition thenPart => .branch lead condition.untyped thenPart.untyped
  | .fork lead condition thenPart elseLead elsePart =>
    .fork lead condition.untyped thenPart.untyped elseLead elsePart.untyped
  | .loop lead condition body => .loop lead condition.untyped body.untyped
  | .empty lead => .empty lead
  | .declaration d => .declaration d.untyped
  | .expression lead e terminator => .expression lead e.untyped terminator

def Statement.untypedList : List Statement → List Statement
  | [] => []
  | s :: ss => s.untyped :: Statement.untypedList ss

end

namespace CompilationUnit

def untyped (u : CompilationUnit) : CompilationUnit :=
  { u with classes := u.classes.map ClassDeclaration.untyped }

end CompilationUnit

/-! ## Steps -/

mutual

theorem TypeTree.steps_untyped : ∀ t : TypeTree, t.untyped.steps = t.steps
  | ⟨_, kind, arguments, _, _⟩ => by
    simp only [TypeTree.untyped, TypeTree.steps, TypeTreeKind.steps_untyped kind,
      TypeTree.argumentSteps_untyped arguments]

theorem TypeTree.argumentSteps_untyped : ∀ a : Option (Delimited TypeTree),
    TypeTree.argumentSteps (TypeTree.untypedArguments a) = TypeTree.argumentSteps a
  | none => rfl
  | some ⟨_, elements, _⟩ => by
    simp only [TypeTree.untypedArguments, TypeTree.argumentSteps,
      TypeTree.listSteps_untyped elements]

theorem TypeTree.listSteps_untyped : ∀ ts : List (Padded TypeTree),
    TypeTree.listSteps (TypeTree.untypedList ts) = TypeTree.listSteps ts
  | [] => rfl
  | [⟨t, _⟩] => by
    simp only [TypeTree.untypedList, TypeTree.listSteps, TypeTree.steps_untyped t]
  | ⟨t, _⟩ :: ⟨u, after⟩ :: ts => by
    have := TypeTree.listSteps_untyped (⟨u, after⟩ :: ts)
    simp only [TypeTree.untypedList] at this
    simp only [TypeTree.untypedList, TypeTree.listSteps, TypeTree.steps_untyped t, this]

theorem TypeTreeKind.steps_untyped : ∀ k : TypeTreeKind, k.untyped.steps = k.steps
  | .primitive _ => rfl
  | .named _ => rfl
  | .wildcard none => rfl
  | .wildcard (some ⟨_, _, bound⟩) => by
    simp only [TypeTreeKind.untyped, TypeTreeKind.steps, TypeTree.steps_untyped bound]

end

namespace TypeList

theorem steps_untyped (l : TypeList) : l.untyped.steps = l.steps :=
  TypeTree.listSteps_untyped l.types

theorem clauseSteps_untyped (keyword : String) (l : Option TypeList) :
    clauseSteps keyword (l.map untyped) = clauseSteps keyword l := by
  cases l with
  | none => rfl
  | some l =>
    simp only [Option.map_some, clauseSteps, steps_untyped]
    rfl

end TypeList

mutual

theorem Expression.steps_untyped : ∀ e : Expression, e.untyped.steps = e.steps
  | .literal _ => rfl
  | .identifier _ => rfl
  | .fieldAccess _ target _ _ _ => by
    simp only [Expression.untyped, Expression.steps, Expression.steps_untyped target]
    rfl
  | .call _ _ ⟨_, elements, _⟩ _ => by
    simp only [Expression.untyped, Expression.steps, Expression.listSteps_untyped elements]
    rfl
  | .invocation _ target _ _ ⟨_, elements, _⟩ _ => by
    simp only [Expression.untyped, Expression.steps, Expression.steps_untyped target,
      Expression.listSteps_untyped elements]
    rfl
  | .newClass _ type ⟨_, elements, _⟩ none => by
    simp only [Expression.untyped, Expression.steps, TypeTree.steps_untyped type,
      Expression.listSteps_untyped elements]
  | .newClass _ type ⟨_, elements, _⟩ (some body) => by
    simp only [Expression.untyped, Expression.steps, TypeTree.steps_untyped type,
      Expression.listSteps_untyped elements, ClassBody.steps_untyped body]
  | .binary _ left _ _ right => by
    simp only [Expression.untyped, Expression.steps, Expression.steps_untyped left,
      Expression.steps_untyped right]
  | .prefixed _ _ operand => by
    simp only [Expression.untyped, Expression.steps, Expression.steps_untyped operand]
  | .postfixed _ operand _ _ => by
    simp only [Expression.untyped, Expression.steps, Expression.steps_untyped operand]
  | .assignment _ target _ _ value => by
    simp only [Expression.untyped, Expression.steps, Expression.steps_untyped target,
      Expression.steps_untyped value]
  | .conditional _ condition _ thenPart _ elsePart => by
    simp only [Expression.untyped, Expression.steps, Expression.steps_untyped condition,
      Expression.steps_untyped thenPart, Expression.steps_untyped elsePart]
  | .parentheses _ inner _ => by
    simp only [Expression.untyped, Expression.steps, Expression.steps_untyped inner]
  | .self _ _ => rfl

theorem Expression.listSteps_untyped : ∀ es : List (Padded Expression),
    Expression.listSteps (Expression.untypedList es) = Expression.listSteps es
  | [] => rfl
  | [⟨e, _⟩] => by
    simp only [Expression.untypedList, Expression.listSteps, Expression.steps_untyped e]
  | ⟨e, _⟩ :: ⟨d, after⟩ :: es => by
    have := Expression.listSteps_untyped (⟨d, after⟩ :: es)
    simp only [Expression.untypedList] at this
    simp only [Expression.untypedList, Expression.listSteps, Expression.steps_untyped e, this]

theorem Modifier.steps_untyped : ∀ m : Modifier, m.untyped.steps = m.steps
  | .keyword _ _ => rfl
  | .annotated _ _ _ none _ => rfl
  | .annotated _ _ _ (some ⟨_, elements, _⟩) _ => by
    simp only [Modifier.untyped, Modifier.steps, Expression.listSteps_untyped elements]

theorem Modifier.listSteps_untyped : ∀ ms : List Modifier,
    Modifier.listSteps (Modifier.untypedList ms) = Modifier.listSteps ms
  | [] => rfl
  | m :: ms => by
    simp only [Modifier.untypedList, Modifier.listSteps, Modifier.steps_untyped m,
      Modifier.listSteps_untyped ms]

theorem NamedVariable.steps_untyped : ∀ v : NamedVariable, v.untyped.steps = v.steps
  | ⟨_, _, _, none, _⟩ => rfl
  | ⟨_, _, _, some ⟨_, value⟩, _⟩ => by
    simp only [NamedVariable.untyped, NamedVariable.steps, Expression.steps_untyped value]
    rfl

theorem NamedVariable.listSteps_untyped : ∀ vs : List (Padded NamedVariable),
    NamedVariable.listSteps (NamedVariable.untypedList vs) = NamedVariable.listSteps vs
  | [] => rfl
  | [⟨v, _⟩] => by
    simp only [NamedVariable.untypedList, NamedVariable.listSteps, NamedVariable.steps_untyped v]
  | ⟨v, _⟩ :: ⟨w, after⟩ :: vs => by
    have := NamedVariable.listSteps_untyped (⟨w, after⟩ :: vs)
    simp only [NamedVariable.untypedList] at this
    simp only [NamedVariable.untypedList, NamedVariable.listSteps, NamedVariable.steps_untyped v,
      this]

theorem VariableDeclarations.steps_untyped : ∀ d : VariableDeclarations, d.untyped.steps = d.steps
  | ⟨_, modifiers, type, declared, _⟩ => by
    simp only [VariableDeclarations.untyped, VariableDeclarations.steps,
      Modifier.listSteps_untyped modifiers, TypeTree.steps_untyped type,
      NamedVariable.listSteps_untyped declared]

theorem VariableDeclarations.listSteps_untyped : ∀ ds : List (Padded VariableDeclarations),
    VariableDeclarations.listSteps (VariableDeclarations.untypedList ds) =
      VariableDeclarations.listSteps ds
  | [] => rfl
  | [⟨d, _⟩] => by
    simp only [VariableDeclarations.untypedList, VariableDeclarations.listSteps,
      VariableDeclarations.steps_untyped d]
  | ⟨d, _⟩ :: ⟨e, after⟩ :: ds => by
    have := VariableDeclarations.listSteps_untyped (⟨e, after⟩ :: ds)
    simp only [VariableDeclarations.untypedList] at this
    simp only [VariableDeclarations.untypedList, VariableDeclarations.listSteps,
      VariableDeclarations.steps_untyped d, this]

theorem ClassBody.steps_untyped : ∀ b : ClassBody, b.untyped.steps = b.steps
  | ⟨_, members, _⟩ => by
    simp only [ClassBody.untyped, ClassBody.steps, Member.listSteps_untyped members]

theorem ClassDeclaration.steps_untyped : ∀ c : ClassDeclaration, c.untyped.steps = c.steps
  | ⟨_, modifiers, _, _, _, _, _, body, _⟩ => by
    simp only [ClassDeclaration.untyped, ClassDeclaration.steps,
      Modifier.listSteps_untyped modifiers, TypeList.clauseSteps_untyped,
      ClassBody.steps_untyped body]
    rfl

theorem Member.steps_untyped : ∀ m : Member, m.untyped.steps = m.steps
  | .field d => by
    simp only [Member.untyped, Member.steps, VariableDeclarations.steps_untyped d]
  | .method m => by
    simp only [Member.untyped, Member.steps, MethodDeclaration.steps_untyped m]
  | .nested c => by
    simp only [Member.untyped, Member.steps, ClassDeclaration.steps_untyped c]
  | .empty _ => rfl

theorem Member.listSteps_untyped : ∀ ms : List Member,
    Member.listSteps (Member.untypedList ms) = Member.listSteps ms
  | [] => rfl
  | m :: ms => by
    simp only [Member.untypedList, Member.listSteps, Member.steps_untyped m,
      Member.listSteps_untyped ms]

theorem MethodDeclaration.steps_untyped : ∀ m : MethodDeclaration, m.untyped.steps = m.steps
  | ⟨_, modifiers, none, _, ⟨_, elements, _⟩, _, ending⟩ => by
    simp only [MethodDeclaration.untyped, MethodDeclaration.steps,
      Modifier.listSteps_untyped modifiers, VariableDeclarations.listSteps_untyped elements,
      TypeList.clauseSteps_untyped, MethodEnding.steps_untyped ending]
    rfl
  | ⟨_, modifiers, some type, _, ⟨_, elements, _⟩, _, ending⟩ => by
    simp only [MethodDeclaration.untyped, MethodDeclaration.steps, Option.map_some,
      Modifier.listSteps_untyped modifiers, TypeTree.steps_untyped type,
      VariableDeclarations.listSteps_untyped elements, TypeList.clauseSteps_untyped,
      MethodEnding.steps_untyped ending]
    rfl

theorem MethodEnding.steps_untyped : ∀ m : MethodEnding, m.untyped.steps = m.steps
  | .body b => by
    simp only [MethodEnding.untyped, MethodEnding.steps, Block.steps_untyped b]
  | .terminator _ => rfl

theorem Block.steps_untyped : ∀ b : Block, b.untyped.steps = b.steps
  | ⟨_, statements, _⟩ => by
    simp only [Block.untyped, Block.steps, Statement.listSteps_untyped statements]

theorem Return.steps_untyped : ∀ r : Return, r.untyped.steps = r.steps
  | ⟨_, none, _⟩ => rfl
  | ⟨_, some e, _⟩ => by
    simp only [Return.untyped, Return.steps, Expression.steps_untyped e]

theorem Condition.steps_untyped : ∀ c : Condition, c.untyped.steps = c.steps
  | ⟨_, e, _⟩ => by
    simp only [Condition.untyped, Condition.steps, Expression.steps_untyped e]

theorem Statement.steps_untyped : ∀ s : Statement, s.untyped.steps = s.steps
  | .block b => by
    simp only [Statement.untyped, Statement.steps, Block.steps_untyped b]
  | .ret r => by
    simp only [Statement.untyped, Statement.steps, Return.steps_untyped r]
  | .throwing _ e _ => by
    simp only [Statement.untyped, Statement.steps, Expression.steps_untyped e]
  | .branch _ condition thenPart => by
    simp only [Statement.untyped, Statement.steps, Condition.steps_untyped condition,
      Statement.steps_untyped thenPart]
  | .fork _ condition thenPart _ elsePart => by
    simp only [Statement.untyped, Statement.steps, Condition.steps_untyped condition,
      Statement.steps_untyped thenPart, Statement.steps_untyped elsePart]
  | .loop _ condition body => by
    simp only [Statement.untyped, Statement.steps, Condition.steps_untyped condition,
      Statement.steps_untyped body]
  | .empty _ => rfl
  | .declaration d => by
    simp only [Statement.untyped, Statement.steps, VariableDeclarations.steps_untyped d]
  | .expression _ e _ => by
    simp only [Statement.untyped, Statement.steps, Expression.steps_untyped e]

theorem Statement.listSteps_untyped : ∀ ss : List Statement,
    Statement.listSteps (Statement.untypedList ss) = Statement.listSteps ss
  | [] => rfl
  | s :: ss => by
    simp only [Statement.untypedList, Statement.listSteps, Statement.steps_untyped s,
      Statement.listSteps_untyped ss]

end

/-! ## Lists -/

theorem TypeTree.untypedList_eq_map (ts : List (Padded TypeTree)) :
    TypeTree.untypedList ts = ts.map fun p => ⟨p.element.untyped, p.after⟩ := by
  induction ts with
  | nil => rfl
  | cons t ts ih => rw [TypeTree.untypedList, ih, List.map_cons]

theorem Expression.untypedList_eq_map (es : List (Padded Expression)) :
    Expression.untypedList es = es.map fun p => ⟨p.element.untyped, p.after⟩ := by
  induction es with
  | nil => rfl
  | cons e es ih => rw [Expression.untypedList, ih, List.map_cons]

theorem Modifier.untypedList_eq_map (ms : List Modifier) :
    Modifier.untypedList ms = ms.map Modifier.untyped := by
  induction ms with
  | nil => rfl
  | cons m ms ih => rw [Modifier.untypedList, ih, List.map_cons]

theorem NamedVariable.untypedList_eq_map (vs : List (Padded NamedVariable)) :
    NamedVariable.untypedList vs = vs.map fun p => ⟨p.element.untyped, p.after⟩ := by
  induction vs with
  | nil => rfl
  | cons v vs ih => rw [NamedVariable.untypedList, ih, List.map_cons]

theorem VariableDeclarations.untypedList_eq_map (ds : List (Padded VariableDeclarations)) :
    VariableDeclarations.untypedList ds = ds.map fun p => ⟨p.element.untyped, p.after⟩ := by
  induction ds with
  | nil => rfl
  | cons d ds ih => rw [VariableDeclarations.untypedList, ih, List.map_cons]

theorem Member.untypedList_eq_map (ms : List Member) :
    Member.untypedList ms = ms.map Member.untyped := by
  induction ms with
  | nil => rfl
  | cons m ms ih => rw [Member.untypedList, ih, List.map_cons]

theorem Statement.untypedList_eq_map (ss : List Statement) :
    Statement.untypedList ss = ss.map Statement.untyped := by
  induction ss with
  | nil => rfl
  | cons s ss ih => rw [Statement.untypedList, ih, List.map_cons]

/-! ## Nodes -/

namespace Node

/-- The node without types. -/
def untyped : Node → Node
  | dimension d => dimension d
  | typeTree t => typeTree t.untyped
  | wildcardBound b => wildcardBound { b with bound := b.bound.untyped }
  | typeList l => typeList l.untyped
  | literal l => literal l
  | identifier i => identifier i.untyped
  | expression e => expression e.untyped
  | modifier m => modifier m.untyped
  | initializer i => initializer { i with value := i.value.untyped }
  | namedVariable v => namedVariable v.untyped
  | declarations d => declarations d.untyped
  | classBody b => classBody b.untyped
  | classDeclaration c => classDeclaration c.untyped
  | member m => member m.untyped
  | method m => method m.untyped
  | block b => block b.untyped
  | ret r => ret r.untyped
  | condition c => condition c.untyped
  | statement s => statement s.untyped
  | package d => package d
  | importDeclaration i => importDeclaration i
  | unit u => unit u.untyped

theorem steps_untyped (n : Node) : n.untyped.steps = n.steps := by
  cases n with
  | dimension d => rfl
  | typeTree t => exact t.steps_untyped
  | wildcardBound b => simp only [untyped, steps, TypeTree.steps_untyped]
  | typeList l => exact l.steps_untyped
  | literal l => rfl
  | identifier i => rfl
  | expression e => exact e.steps_untyped
  | modifier m => exact m.steps_untyped
  | initializer i => simp only [untyped, steps, Expression.steps_untyped]
  | namedVariable v => exact v.steps_untyped
  | declarations d => exact d.steps_untyped
  | classBody b => exact b.steps_untyped
  | classDeclaration c => exact c.steps_untyped
  | member m => exact m.steps_untyped
  | method m => exact m.steps_untyped
  | block b => exact b.steps_untyped
  | ret r => exact r.steps_untyped
  | condition c => exact c.steps_untyped
  | statement s => exact s.steps_untyped
  | package d => rfl
  | importDeclaration i => rfl
  | unit u =>
    simp only [untyped, steps, CompilationUnit.steps, CompilationUnit.untyped, List.flatMap_map,
      ClassDeclaration.steps_untyped]

end Node

/-- The trivia of a list do not depend on its elements. -/
theorem Padded.commas_map {α β : Type} (g : α → β) (ps : List (Padded α)) :
    Padded.commas (ps.map fun p => ⟨g p.element, p.after⟩) = Padded.commas ps := by
  simp only [Padded.commas, List.map_map, Function.comp_def]

namespace Expression

theorem trivia_untyped (e : Expression) : e.untyped.trivia = e.trivia := by
  cases e with
  | call lead name arguments type =>
    simp only [untyped, trivia, Delimited.trivia, untypedList_eq_map, Padded.commas_map]
  | invocation lead target dotLead name arguments type =>
    simp only [untyped, trivia, Delimited.trivia, untypedList_eq_map, Padded.commas_map]
  | newClass lead type arguments body =>
    cases body <;>
      simp only [untyped, trivia, Delimited.trivia, untypedList_eq_map, Padded.commas_map]
  | _ => rfl

theorem children_untyped (e : Expression) : e.untyped.children = e.children.map Node.untyped := by
  cases e with
  | call lead name arguments type =>
    simp [untyped, children, Delimited.toList, untypedList_eq_map, Node.untyped, Function.comp_def]
  | invocation lead target dotLead name arguments type =>
    simp [untyped, children, Delimited.toList, untypedList_eq_map, Node.untyped, Function.comp_def]
  | newClass lead type arguments body =>
    cases body <;>
      simp [untyped, children, Delimited.toList, untypedList_eq_map, Node.untyped,
        Function.comp_def]
  | _ => rfl

theorem lead_untyped (e : Expression) : e.untyped.lead = e.lead := by
  cases e with
  | newClass lead type arguments body => cases body <;> rfl
  | _ => rfl

end Expression

namespace Modifier

theorem trivia_untyped (m : Modifier) : m.untyped.trivia = m.trivia := by
  cases m with
  | keyword lead kind => rfl
  | annotated lead nameLead name arguments type =>
    cases arguments with
    | none => rfl
    | some a =>
      simp only [untyped, trivia, Delimited.optionalTrivia, Delimited.trivia,
        Expression.untypedList_eq_map, Padded.commas_map]

theorem children_untyped (m : Modifier) : m.untyped.children = m.children.map Node.untyped := by
  cases m with
  | keyword lead kind => rfl
  | annotated lead nameLead name arguments type =>
    cases arguments with
    | none => rfl
    | some a =>
      simp [untyped, children, Delimited.optionalList, Delimited.toList,
        Expression.untypedList_eq_map, Node.untyped, Function.comp_def]

end Modifier

namespace Node

theorem trivia_untyped (n : Node) : n.untyped.trivia = n.trivia := by
  cases n with
  | typeTree t =>
    obtain ⟨lead, kind, arguments, dimensions, type⟩ := t
    cases arguments with
    | none => rfl
    | some a =>
      simp only [untyped, TypeTree.untyped, TypeTree.untypedArguments, trivia,
        Delimited.optionalTrivia, Delimited.trivia, TypeTree.untypedList_eq_map, Padded.commas_map]
  | typeList l =>
    simp only [untyped, TypeList.untyped, trivia, TypeTree.untypedList_eq_map, Padded.commas_map]
  | expression e => exact e.trivia_untyped
  | modifier m => exact m.trivia_untyped
  | namedVariable v => cases v; rfl
  | declarations d =>
    cases d
    simp only [untyped, VariableDeclarations.untyped, trivia, NamedVariable.untypedList_eq_map,
      Padded.commas_map]
  | classBody b => cases b; rfl
  | classDeclaration c => cases c; rfl
  | block b => cases b; rfl
  | ret r => cases r; rfl
  | condition c => cases c; rfl
  | member m => cases m <;> rfl
  | method m =>
    obtain ⟨lead, modifiers, returnType, name, parameters, throws, ending⟩ := m
    cases ending <;>
      simp only [untyped, MethodDeclaration.untyped, MethodEnding.untyped, trivia, Delimited.trivia,
        VariableDeclarations.untypedList_eq_map, Padded.commas_map, MethodEnding.trivia]
  | statement s => cases s <;> rfl
  | _ => rfl

theorem children_untyped (n : Node) : n.untyped.children = n.children.map untyped := by
  cases n with
  | typeTree t =>
    obtain ⟨lead, kind, arguments, dimensions, type⟩ := t
    rcases kind with p | name | (_ | ⟨_, _, _⟩) <;> cases arguments <;>
      simp [untyped, TypeTree.untyped, TypeTreeKind.untyped, TypeTree.untypedArguments, children,
        TypeTree.bound?, Delimited.optionalList, Delimited.toList, TypeTree.untypedList_eq_map,
        Function.comp_def]
  | typeList l =>
    simp [untyped, TypeList.untyped, children, TypeTree.untypedList_eq_map, Function.comp_def]
  | expression e => exact e.children_untyped
  | modifier m => exact m.children_untyped
  | namedVariable v =>
    obtain ⟨lead, name, dimensions, initializer, type⟩ := v
    rcases initializer with _ | ⟨_, _⟩ <;>
      simp [untyped, NamedVariable.untyped, children, Function.comp_def]
  | declarations d =>
    cases d
    simp [untyped, VariableDeclarations.untyped, children, Modifier.untypedList_eq_map,
      NamedVariable.untypedList_eq_map, Function.comp_def]
  | classBody b =>
    cases b
    simp [untyped, ClassBody.untyped, children, Member.untypedList_eq_map, Function.comp_def]
  | classDeclaration c =>
    obtain ⟨lead, modifiers, kindLead, kind, name, superclasses, interfaces, body, type⟩ := c
    cases superclasses <;> cases interfaces <;>
      simp [untyped, ClassDeclaration.untyped, children, Modifier.untypedList_eq_map,
        Function.comp_def]
  | member m => cases m <;> rfl
  | method m =>
    obtain ⟨lead, modifiers, returnType, name, parameters, throws, ending⟩ := m
    cases returnType <;> cases throws <;> cases ending <;>
      simp [untyped, MethodDeclaration.untyped, MethodEnding.untyped, children,
        Modifier.untypedList_eq_map, VariableDeclarations.untypedList_eq_map, Delimited.toList,
        MethodEnding.block?, Function.comp_def]
  | block b =>
    cases b
    simp [untyped, Block.untyped, children, Statement.untypedList_eq_map, Function.comp_def]
  | ret r =>
    obtain ⟨lead, value, terminator⟩ := r
    cases value <;> rfl
  | condition c => cases c; rfl
  | statement s => cases s <;> rfl
  | unit u =>
    obtain ⟨path, package, imports, classes, tail⟩ := u
    cases package <;> simp [untyped, CompilationUnit.untyped, children, Function.comp_def]
  | _ => rfl

/-- Nodes that differ in types only have the same nodes in them, up to types. -/
theorem exists_within_of_untyped {m n n' : Node} (h : Within m n) (he : n.untyped = n'.untyped) :
    ∃ m', Within m' n' ∧ m.untyped = m'.untyped := by
  induction h generalizing n' with
  | refl => exact ⟨n', .refl n', he⟩
  | @child k n hk _ ih =>
    have hk' : k.untyped ∈ n'.children.map untyped := by
      rw [← children_untyped, ← he, children_untyped]
      exact List.mem_map_of_mem hk
    obtain ⟨k', hk', hkk⟩ := List.mem_map.mp hk'
    obtain ⟨m', hm', hmm⟩ := ih hkk.symm
    exact ⟨m', .child hk' hm', hmm⟩

/-- A property that does not depend on types holds of all nodes of trees that differ in types
only. -/
theorem All.of_untyped {Q : Node → Prop} (hQ : ∀ m m', m.untyped = m'.untyped → Q m' → Q m)
    {n n' : Node} (h : n'.All Q) (he : n.untyped = n'.untyped) : n.All Q := by
  intro m hm
  obtain ⟨m', hm', hmm⟩ := exists_within_of_untyped hm he
  exact hQ m m' hmm (h m' hm')

end Node

end LosslessJava
