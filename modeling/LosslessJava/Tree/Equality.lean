import LosslessJava.Tree.Unit

/-!
# Equality of trees

Two trees are the same when all their fields are, trivia and types included.
-/

namespace LosslessJava

mutual

def Expression.same : Expression → Expression → Bool
  | .literal l, .literal l' => l == l'
  | .identifier i, .identifier i' => i == i'
  | .fieldAccess lead target dotLead name type,
    .fieldAccess lead' target' dotLead' name' type' =>
    lead == lead' && target.same target' && dotLead == dotLead' && name == name' && type == type'
  | .call lead name ⟨before, elements, close⟩ type,
    .call lead' name' ⟨before', elements', close'⟩ type' =>
    lead == lead' && name == name' && before == before' &&
      Expression.sameList elements elements' && close == close' && type == type'
  | .invocation lead target dotLead name ⟨before, elements, close⟩ type,
    .invocation lead' target' dotLead' name' ⟨before', elements', close'⟩ type' =>
    lead == lead' && target.same target' && dotLead == dotLead' && name == name' &&
      before == before' && Expression.sameList elements elements' && close == close' &&
      type == type'
  | .newClass lead type ⟨before, elements, close⟩ none,
    .newClass lead' type' ⟨before', elements', close'⟩ none =>
    lead == lead' && type == type' && before == before' &&
      Expression.sameList elements elements' && close == close'
  | .newClass lead type ⟨before, elements, close⟩ (some body),
    .newClass lead' type' ⟨before', elements', close'⟩ (some body') =>
    lead == lead' && type == type' && before == before' &&
      Expression.sameList elements elements' && close == close' && body.same body'
  | .binary lead left operatorLead operator right,
    .binary lead' left' operatorLead' operator' right' =>
    lead == lead' && left.same left' && operatorLead == operatorLead' &&
      operator == operator' && right.same right'
  | .prefixed lead operator operand, .prefixed lead' operator' operand' =>
    lead == lead' && operator == operator' && operand.same operand'
  | .postfixed lead operand operatorLead operator,
    .postfixed lead' operand' operatorLead' operator' =>
    lead == lead' && operand.same operand' && operatorLead == operatorLead' &&
      operator == operator'
  | .assignment lead target operatorLead operator value,
    .assignment lead' target' operatorLead' operator' value' =>
    lead == lead' && target.same target' && operatorLead == operatorLead' &&
      operator == operator' && value.same value'
  | .conditional lead condition questionLead thenPart colonLead elsePart,
    .conditional lead' condition' questionLead' thenPart' colonLead' elsePart' =>
    lead == lead' && condition.same condition' && questionLead == questionLead' &&
      thenPart.same thenPart' && colonLead == colonLead' && elsePart.same elsePart'
  | .parentheses lead inner close, .parentheses lead' inner' close' =>
    lead == lead' && inner.same inner' && close == close'
  | .self lead type, .self lead' type' => lead == lead' && type == type'
  | _, _ => false

def Expression.sameList : List (Padded Expression) → List (Padded Expression) → Bool
  | [], [] => true
  | ⟨e, after⟩ :: es, ⟨e', after'⟩ :: es' =>
    e.same e' && after == after' && Expression.sameList es es'
  | _, _ => false

def Modifier.same : Modifier → Modifier → Bool
  | .keyword lead kind, .keyword lead' kind' => lead == lead' && kind == kind'
  | .annotated lead nameLead name none type, .annotated lead' nameLead' name' none type' =>
    lead == lead' && nameLead == nameLead' && name == name' && type == type'
  | .annotated lead nameLead name (some ⟨before, elements, close⟩) type,
    .annotated lead' nameLead' name' (some ⟨before', elements', close'⟩) type' =>
    lead == lead' && nameLead == nameLead' && name == name' && before == before' &&
      Expression.sameList elements elements' && close == close' && type == type'
  | _, _ => false

def Modifier.sameList : List Modifier → List Modifier → Bool
  | [], [] => true
  | m :: ms, m' :: ms' => m.same m' && Modifier.sameList ms ms'
  | _, _ => false

def NamedVariable.same : NamedVariable → NamedVariable → Bool
  | ⟨lead, name, dimensions, none, type⟩, ⟨lead', name', dimensions', none, type'⟩ =>
    lead == lead' && name == name' && dimensions == dimensions' && type == type'
  | ⟨lead, name, dimensions, some ⟨equalsLead, value⟩, type⟩,
    ⟨lead', name', dimensions', some ⟨equalsLead', value'⟩, type'⟩ =>
    lead == lead' && name == name' && dimensions == dimensions' && equalsLead == equalsLead' &&
      value.same value' && type == type'
  | _, _ => false

def NamedVariable.sameList : List (Padded NamedVariable) → List (Padded NamedVariable) → Bool
  | [], [] => true
  | ⟨v, after⟩ :: vs, ⟨v', after'⟩ :: vs' =>
    v.same v' && after == after' && NamedVariable.sameList vs vs'
  | _, _ => false

def VariableDeclarations.same : VariableDeclarations → VariableDeclarations → Bool
  | ⟨lead, modifiers, type, declared, terminator⟩,
    ⟨lead', modifiers', type', declared', terminator'⟩ =>
    lead == lead' && Modifier.sameList modifiers modifiers' && type == type' &&
      NamedVariable.sameList declared declared' && terminator == terminator'

def VariableDeclarations.sameList :
    List (Padded VariableDeclarations) → List (Padded VariableDeclarations) → Bool
  | [], [] => true
  | ⟨d, after⟩ :: ds, ⟨d', after'⟩ :: ds' =>
    d.same d' && after == after' && VariableDeclarations.sameList ds ds'
  | _, _ => false

def ClassBody.same : ClassBody → ClassBody → Bool
  | ⟨lead, members, close⟩, ⟨lead', members', close'⟩ =>
    lead == lead' && Member.sameList members members' && close == close'

def ClassDeclaration.same : ClassDeclaration → ClassDeclaration → Bool
  | ⟨lead, modifiers, kindLead, kind, name, superclasses, interfaces, body, type⟩,
    ⟨lead', modifiers', kindLead', kind', name', superclasses', interfaces', body', type'⟩ =>
    lead == lead' && Modifier.sameList modifiers modifiers' && kindLead == kindLead' &&
      kind == kind' && name == name' && superclasses == superclasses' &&
      interfaces == interfaces' && body.same body' && type == type'

def Member.same : Member → Member → Bool
  | .field d, .field d' => d.same d'
  | .method m, .method m' => m.same m'
  | .nested c, .nested c' => c.same c'
  | .empty lead, .empty lead' => lead == lead'
  | _, _ => false

def Member.sameList : List Member → List Member → Bool
  | [], [] => true
  | m :: ms, m' :: ms' => m.same m' && Member.sameList ms ms'
  | _, _ => false

def MethodDeclaration.same : MethodDeclaration → MethodDeclaration → Bool
  | ⟨lead, modifiers, returnType, name, ⟨before, elements, close⟩, throws, ending⟩,
    ⟨lead', modifiers', returnType', name', ⟨before', elements', close'⟩, throws', ending'⟩ =>
    lead == lead' && Modifier.sameList modifiers modifiers' && returnType == returnType' &&
      name == name' && before == before' && VariableDeclarations.sameList elements elements' &&
      close == close' && throws == throws' && ending.same ending'

def MethodEnding.same : MethodEnding → MethodEnding → Bool
  | .body b, .body b' => b.same b'
  | .terminator t, .terminator t' => t == t'
  | _, _ => false

def Block.same : Block → Block → Bool
  | ⟨lead, statements, close⟩, ⟨lead', statements', close'⟩ =>
    lead == lead' && Statement.sameList statements statements' && close == close'

def Return.same : Return → Return → Bool
  | ⟨lead, none, terminator⟩, ⟨lead', none, terminator'⟩ =>
    lead == lead' && terminator == terminator'
  | ⟨lead, some e, terminator⟩, ⟨lead', some e', terminator'⟩ =>
    lead == lead' && e.same e' && terminator == terminator'
  | _, _ => false

def Condition.same : Condition → Condition → Bool
  | ⟨lead, e, close⟩, ⟨lead', e', close'⟩ => lead == lead' && e.same e' && close == close'

def Statement.same : Statement → Statement → Bool
  | .block b, .block b' => b.same b'
  | .ret r, .ret r' => r.same r'
  | .throwing lead e terminator, .throwing lead' e' terminator' =>
    lead == lead' && e.same e' && terminator == terminator'
  | .branch lead condition thenPart, .branch lead' condition' thenPart' =>
    lead == lead' && condition.same condition' && thenPart.same thenPart'
  | .fork lead condition thenPart elseLead elsePart,
    .fork lead' condition' thenPart' elseLead' elsePart' =>
    lead == lead' && condition.same condition' && thenPart.same thenPart' &&
      elseLead == elseLead' && elsePart.same elsePart'
  | .loop lead condition body, .loop lead' condition' body' =>
    lead == lead' && condition.same condition' && body.same body'
  | .empty lead, .empty lead' => lead == lead'
  | .declaration d, .declaration d' => d.same d'
  | .expression lead e terminator, .expression lead' e' terminator' =>
    lead == lead' && e.same e' && terminator == terminator'
  | _, _ => false

def Statement.sameList : List Statement → List Statement → Bool
  | [], [] => true
  | s :: ss, s' :: ss' => s.same s' && Statement.sameList ss ss'
  | _, _ => false

end

instance : BEq Expression := ⟨Expression.same⟩

instance : BEq Statement := ⟨Statement.same⟩

instance : BEq ClassDeclaration := ⟨ClassDeclaration.same⟩

instance : BEq CompilationUnit where
  beq u v :=
    u.path == v.path && u.package == v.package && u.imports == v.imports &&
      u.classes == v.classes && u.tail == v.tail

end LosslessJava
