import LosslessJava.Print.Step
import LosslessJava.Tree.Unit

/-!
# Printing of trees

The steps that print each node. The keyword of a list of types is printed by its owner.
-/

namespace LosslessJava

/-! ## Types -/

namespace Dimension

def steps (d : Dimension) : List Step := spaced d.lead "[" ++ spaced d.inner "]"

end Dimension

mutual

def TypeTree.steps : TypeTree → List Step
  | ⟨lead, kind, arguments, dimensions, _⟩ =>
    .trivia lead :: TypeTreeKind.steps kind ++ TypeTree.argumentSteps arguments ++
      dimensions.flatMap Dimension.steps

def TypeTree.argumentSteps : Option (Delimited TypeTree) → List Step
  | none => []
  | some ⟨before, elements, close⟩ =>
    spaced before "<" ++ TypeTree.listSteps elements ++ spaced close ">"

def TypeTree.listSteps : List (Padded TypeTree) → List Step
  | [] => []
  | [⟨t, _⟩] => TypeTree.steps t
  | ⟨t, after⟩ :: u :: ts =>
    TypeTree.steps t ++ spaced after "," ++ TypeTree.listSteps (u :: ts)

def TypeTreeKind.steps : TypeTreeKind → List Step
  | .primitive p => [.token p.keyword]
  | .named name => [.token name.text]
  | .wildcard none => [.token "?"]
  | .wildcard (some ⟨lead, kind, bound⟩) =>
    .token "?" :: spaced lead kind.keyword ++ TypeTree.steps bound

end

namespace TypeList

def steps (l : TypeList) : List Step := TypeTree.listSteps l.types

/-- The clause of the list, with its keyword. -/
def clauseSteps (keyword : String) : Option TypeList → List Step
  | none => []
  | some l => spaced l.lead keyword ++ l.steps

end TypeList

/-! ## Expressions, statements and declarations -/

namespace Literal

def steps (l : Literal) : List Step := spaced l.lead l.source

end Literal

namespace Identifier

def steps (i : Identifier) : List Step := spaced i.lead i.name

end Identifier

mutual

def Expression.steps : Expression → List Step
  | .literal l => l.steps
  | .identifier i => i.steps
  | .fieldAccess lead target dotLead name _ =>
    .trivia lead :: target.steps ++ spaced dotLead "." ++ name.steps
  | .call lead name ⟨before, elements, close⟩ _ =>
    .trivia lead :: name.steps ++ spaced before "(" ++ Expression.listSteps elements ++
      spaced close ")"
  | .invocation lead target dotLead name ⟨before, elements, close⟩ _ =>
    .trivia lead :: target.steps ++ spaced dotLead "." ++ name.steps ++ spaced before "(" ++
      Expression.listSteps elements ++ spaced close ")"
  | .newClass lead type ⟨before, elements, close⟩ body =>
    spaced lead "new" ++ type.steps ++ spaced before "(" ++ Expression.listSteps elements ++
      spaced close ")" ++ (match body with | none => [] | some b => b.steps)
  | .binary lead left operatorLead operator right =>
    .trivia lead :: left.steps ++ spaced operatorLead operator.symbol ++ right.steps
  | .prefixed lead operator operand =>
    spaced lead operator.symbol ++ operand.steps
  | .postfixed lead operand operatorLead operator =>
    .trivia lead :: operand.steps ++ spaced operatorLead operator.symbol
  | .assignment lead target operatorLead operator value =>
    .trivia lead :: target.steps ++ spaced operatorLead operator.symbol ++ value.steps
  | .conditional lead condition questionLead thenPart colonLead elsePart =>
    .trivia lead :: condition.steps ++ spaced questionLead "?" ++ thenPart.steps ++
      spaced colonLead ":" ++ elsePart.steps
  | .parentheses lead inner close =>
    spaced lead "(" ++ inner.steps ++ spaced close ")"
  | .self lead _ => spaced lead "this"

def Expression.listSteps : List (Padded Expression) → List Step
  | [] => []
  | [⟨e, _⟩] => e.steps
  | ⟨e, after⟩ :: d :: es => e.steps ++ spaced after "," ++ Expression.listSteps (d :: es)

def Modifier.steps : Modifier → List Step
  | .keyword lead kind => spaced lead kind.keyword
  | .annotated lead nameLead name none _ => spaced lead "@" ++ spaced nameLead name.text
  | .annotated lead nameLead name (some ⟨before, elements, close⟩) _ =>
    spaced lead "@" ++ spaced nameLead name.text ++ spaced before "(" ++
      Expression.listSteps elements ++ spaced close ")"

def Modifier.listSteps : List Modifier → List Step
  | [] => []
  | m :: ms => m.steps ++ Modifier.listSteps ms

def NamedVariable.steps : NamedVariable → List Step
  | ⟨lead, name, dimensions, initializer, _⟩ =>
    .trivia lead :: name.steps ++ dimensions.flatMap Dimension.steps ++
      (match initializer with
        | none => []
        | some ⟨lead, value⟩ => spaced lead "=" ++ value.steps)

def NamedVariable.listSteps : List (Padded NamedVariable) → List Step
  | [] => []
  | [⟨v, _⟩] => v.steps
  | ⟨v, after⟩ :: w :: vs => v.steps ++ spaced after "," ++ NamedVariable.listSteps (w :: vs)

def VariableDeclarations.steps : VariableDeclarations → List Step
  | ⟨lead, modifiers, type, declared, terminator⟩ =>
    .trivia lead :: Modifier.listSteps modifiers ++ type.steps ++
      NamedVariable.listSteps declared ++ (terminator.map Step.terminator).toList

def VariableDeclarations.listSteps : List (Padded VariableDeclarations) → List Step
  | [] => []
  | [⟨d, _⟩] => d.steps
  | ⟨d, after⟩ :: e :: ds =>
    d.steps ++ spaced after "," ++ VariableDeclarations.listSteps (e :: ds)

def ClassBody.steps : ClassBody → List Step
  | ⟨lead, members, close⟩ => spaced lead "\x7b" ++ Member.listSteps members ++ spaced close "\x7d"

def ClassDeclaration.steps : ClassDeclaration → List Step
  | ⟨lead, modifiers, kindLead, kind, name, superclasses, interfaces, body, _⟩ =>
    .trivia lead :: Modifier.listSteps modifiers ++ spaced kindLead kind.keyword ++ name.steps ++
      TypeList.clauseSteps "extends" superclasses ++
      TypeList.clauseSteps "implements" interfaces ++ body.steps

def Member.steps : Member → List Step
  | .field d => d.steps
  | .method m => m.steps
  | .nested c => c.steps
  | .empty lead => [.terminator lead]

def Member.listSteps : List Member → List Step
  | [] => []
  | m :: ms => m.steps ++ Member.listSteps ms

def MethodDeclaration.steps : MethodDeclaration → List Step
  | ⟨lead, modifiers, returnType, name, ⟨before, elements, close⟩, throws, ending⟩ =>
    .trivia lead :: Modifier.listSteps modifiers ++
      (match returnType with | none => [] | some t => t.steps) ++ name.steps ++
      spaced before "(" ++ VariableDeclarations.listSteps elements ++ spaced close ")" ++
      TypeList.clauseSteps "throws" throws ++ ending.steps

def MethodEnding.steps : MethodEnding → List Step
  | .body block => block.steps
  | .terminator lead => [.terminator lead]

def Block.steps : Block → List Step
  | ⟨lead, statements, close⟩ =>
    spaced lead "\x7b" ++ Statement.listSteps statements ++ spaced close "\x7d"

def Return.steps : Return → List Step
  | ⟨lead, value, terminator⟩ =>
    spaced lead "return" ++ (match value with | none => [] | some e => e.steps) ++
      [.terminator terminator]

def Condition.steps : Condition → List Step
  | ⟨lead, expression, close⟩ => spaced lead "(" ++ expression.steps ++ spaced close ")"

def Statement.steps : Statement → List Step
  | .block b => b.steps
  | .ret r => r.steps
  | .throwing lead exception terminator =>
    spaced lead "throw" ++ exception.steps ++ [.terminator terminator]
  | .branch lead condition thenPart =>
    spaced lead "if" ++ condition.steps ++ thenPart.steps
  | .fork lead condition thenPart elseLead elsePart =>
    spaced lead "if" ++ condition.steps ++ thenPart.steps ++ spaced elseLead "else" ++
      elsePart.steps
  | .loop lead condition body => spaced lead "while" ++ condition.steps ++ body.steps
  | .empty lead => [.terminator lead]
  | .declaration d => d.steps
  | .expression lead e terminator => .trivia lead :: e.steps ++ [.terminator terminator]

def Statement.listSteps : List Statement → List Step
  | [] => []
  | s :: ss => s.steps ++ Statement.listSteps ss

end

/-! ## Units -/

namespace PackageDeclaration

def steps (d : PackageDeclaration) : List Step :=
  spaced d.lead "package" ++ spaced d.nameLead d.name.text ++ [.terminator d.terminator]

end PackageDeclaration

namespace Import

def steps (i : Import) : List Step :=
  spaced i.lead "import" ++ (i.staticLead.map (spaced · "static")).getD [] ++
    spaced i.nameLead i.pathText ++ [.terminator i.terminator]

end Import

namespace CompilationUnit

def steps (u : CompilationUnit) : List Step :=
  (u.package.map PackageDeclaration.steps).getD [] ++ u.imports.flatMap Import.steps ++
    u.classes.flatMap ClassDeclaration.steps ++ [.trivia u.tail]

end CompilationUnit

/-! ## Both prints of every node -/

/-- Nodes that print as steps. -/
class Printable (α : Type) where
  steps : α → List Step

/-- The text of the node with all its trivia. -/
def print {α : Type} [Printable α] (a : α) : String := Step.render .verbatim (Printable.steps a)

/-- The text of the node without the trivia around it. -/
def printTrimmed {α : Type} [Printable α] (a : α) : String :=
  Step.render .trimmed (Printable.steps a)

instance : Printable CompilationUnit := ⟨CompilationUnit.steps⟩
instance : Printable PackageDeclaration := ⟨PackageDeclaration.steps⟩
instance : Printable Import := ⟨Import.steps⟩
instance : Printable Modifier := ⟨Modifier.steps⟩
instance : Printable Identifier := ⟨Identifier.steps⟩
instance : Printable TypeList := ⟨TypeList.steps⟩
instance : Printable TypeTree := ⟨TypeTree.steps⟩
instance : Printable Dimension := ⟨Dimension.steps⟩
instance : Printable ClassBody := ⟨ClassBody.steps⟩
instance : Printable ClassDeclaration := ⟨ClassDeclaration.steps⟩
instance : Printable Member := ⟨Member.steps⟩
instance : Printable MethodDeclaration := ⟨MethodDeclaration.steps⟩
instance : Printable VariableDeclarations := ⟨VariableDeclarations.steps⟩
instance : Printable NamedVariable := ⟨NamedVariable.steps⟩
instance : Printable Block := ⟨Block.steps⟩
instance : Printable Return := ⟨Return.steps⟩
instance : Printable Condition := ⟨Condition.steps⟩
instance : Printable Statement := ⟨Statement.steps⟩
instance : Printable Literal := ⟨Literal.steps⟩
instance : Printable Expression := ⟨Expression.steps⟩

end LosslessJava
