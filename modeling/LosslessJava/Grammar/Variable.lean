import LosslessJava.Grammar.Expression

/-!
# Grammar of modifiers and variables
-/

namespace LosslessJava.Grammar

open LosslessJava.Grammar.Parser

def annotationUse (r : Rules) : Parser Modifier :=
  named .annotationUse <|
    (fun lead (nameLead, name) arguments => .annotated lead nameLead name arguments none) <$>
      at_ <*> qualifiedName r.bound <*> optional (arguments r)

def modifierWord : Parser Modifier :=
  (fun (lead, kind) => .keyword lead kind) <$> wordOf .modifierWord ModifierKind.ofKeyword?

def modifiers (r : Rules) : Parser (List Modifier) :=
  many r.bound (annotationUse r <|> modifierWord)

def initializer (r : Rules) : Parser Initializer := Initializer.mk <$> equals <*> r.expression

def variableDeclarator (r : Rules) : Parser NamedVariable :=
  named .variableDeclarator <|
    (fun (name : Identifier) dimensions initializer =>
      ⟨name.lead, name.withLead .empty, dimensions, initializer, none⟩) <$>
      identifier <*> dimensions r.bound <*> optional (initializer r)

/-- Fields and local variables. -/
def variableDeclarations (r : Rules) : Parser VariableDeclarations :=
  named .variableDeclarations <|
    VariableDeclarations.mk <$> lead <*> modifiers r <*> typeReference r <*>
      separated r.bound (variableDeclarator r) <*> (some <$> semicolon)

/-- A parameter, which declares one variable and has no semicolon. -/
def formalParameter (r : Rules) : Parser VariableDeclarations :=
  named .formalParameter <|
    (fun lead modifiers type declared =>
      ⟨lead, modifiers, type, [.ofElement declared], none⟩) <$>
      lead <*> modifiers r <*> typeReference r <*> variableDeclarator r

end LosslessJava.Grammar
