import LosslessJava.Grammar.Statement
import LosslessJava.Tree.Unit

/-!
# Grammar of declarations and units
-/

namespace LosslessJava.Grammar

open LosslessJava.Grammar.Parser

/-! ## Clauses of types -/

/-- A keyword and the types behind it. -/
def typeClause (r : Rules) (rule keywordRule : Rule) (word : String) : Parser TypeList :=
  named rule (TypeList.mk <$> keyword keywordRule word <*> separated r.bound (typeReference r))

def extendsClause (r : Rules) : Parser TypeList :=
  typeClause r .extendsClause .extendsWord "extends"

def implementsClause (r : Rules) : Parser TypeList :=
  typeClause r .implementsClause .implementsWord "implements"

def throwsClause (r : Rules) : Parser TypeList := typeClause r .throwsClause .throwsWord "throws"

/-! ## Methods -/

def formalParameters (r : Rules) : Parser (Delimited VariableDeclarations) :=
  named .formalParameters <|
    delimited r.bound leftParenthesis (formalParameter r) rightParenthesis

/-- The name of a method behind its type, or that of a constructor. -/
def methodName (r : Rules) : Parser (Option TypeTree × Identifier) :=
  (some · , ·) <$> typeReference r <*> identifier <|> (none, ·) <$> identifier

def methodDeclaration (r : Rules) : Parser MethodDeclaration :=
  named .methodDeclaration <|
    (fun lead modifiers (returnType, name) parameters throws ending =>
      ⟨lead, modifiers, returnType, name, parameters, throws, ending⟩) <$>
      lead <*> modifiers r <*> methodName r <*> formalParameters r <*>
      optional (throwsClause r) <*>
      (MethodEnding.body <$> block r <|> MethodEnding.terminator <$> semicolon)

/-! ## Classes -/

def classDeclaration (r : Rules) : Parser ClassDeclaration :=
  named .classDeclaration <|
    (fun lead modifiers (kindLead, kind) name superclasses interfaces body =>
      ⟨lead, modifiers, kindLead, kind, name, superclasses, interfaces, body, none⟩) <$>
      lead <*> modifiers r <*> wordOf .classKind ClassKind.ofKeyword? <*> identifier <*>
      optional (extendsClause r) <*> optional (implementsClause r) <*> r.classBody

def member (r : Rules) : Parser Member :=
  Member.nested <$> classDeclaration r <|> Member.method <$> methodDeclaration r <|>
    Member.field <$> variableDeclarations r <|> Member.empty <$> semicolon

def classBody (r : Rules) : Parser ClassBody :=
  named .classBody (ClassBody.mk <$> leftBrace <*> many r.bound (member r) <*> rightBrace)

/-! ## Units -/

def packageDeclaration (bound : Nat) : Parser PackageDeclaration :=
  named .packageDeclaration <|
    (fun lead (nameLead, name) terminator => ⟨lead, nameLead, name, terminator⟩) <$>
      keyword .packageWord "package" <*> qualifiedName bound <*> semicolon

/-- The `.*` at the end of an imported path. -/
def wildcard : Parser Unit :=
  tightToken .wildcard fun ls => (acceptSymbol ".*" [] ls).map fun (_, count) => ((), count)

def importPath (bound : Nat) : Parser ((Trivia × QualifiedName) × Bool) :=
  compound .importPath <|
    (fun name wildcard => (name, wildcard.isSome)) <$> dottedName bound <*> optional wildcard

def importDeclaration (bound : Nat) : Parser Import :=
  named .importDeclaration <|
    (fun lead staticLead ((nameLead, name), wildcard) terminator =>
      ⟨lead, staticLead, nameLead, name, wildcard, terminator⟩) <$>
      keyword .importWord "import" <*> optional (keyword .staticWord "static") <*>
      importPath bound <*> semicolon

/-- The end of the text, with the trivia in front of it. -/
def endOfInput : Parser Trivia :=
  token .endOfInput fun
    | ⟨lead, .finish⟩ :: _ => some (lead, 1)
    | _ => none

/-- A unit, which has no path yet. -/
def compilationUnit (r : Rules) : Parser CompilationUnit :=
  CompilationUnit.mk none <$> optional (packageDeclaration r.bound) <*>
    many r.bound (importDeclaration r.bound) <*> many r.bound (classDeclaration r) <*> endOfInput

end LosslessJava.Grammar
