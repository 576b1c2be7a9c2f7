import LosslessJava.Grammar.Declaration
import LosslessJava.Proofs.Grammar.Reads

/-!
# Rules that start with a lead

A declaration keeps the trivia in front of it, whether a modifier or a type stands first. So its
rule takes them off its first lexeme and reads what is behind them.

* `TakesLead p q`: `p` takes the trivia off, and `q` is the rest of it.
* `TakesLead.reads`, `TakesLead.gives`: the postcondition of a rule from that of the rest.
-/

namespace LosslessJava.Grammar

open LosslessJava.Grammar.Parser

variable {α : Type}

/-- The rule takes the trivia off its first lexeme, and goes on with that lexeme. -/
structure TakesLead (p : Parser α) (q : Trivia → Parser α) : Prop where
  nil : p.parse [] = none
  cons : ∀ l ls, p.parse (l :: ls) = (q l.lead).parse (l.bare :: ls)

theorem TakesLead.reads {p : Parser α} {q : Trivia → Parser α} (h : TakesLead p q)
    {E : Trivia → List Lexeme → α → Prop} (hq : ∀ t, Reads (q t) (E t))
    (hE : ∀ t a, ¬ E t [] a) :
    Reads p (fun xs a => ∃ l ys, xs = l :: ys ∧ l.Legal ∧ E l.lead (l.bare :: ys) a) := by
  intro ls a rest hls hp
  cases ls with
  | nil =>
    rw [h.nil] at hp
    cases hp
  | cons l ls =>
    rw [h.cons] at hp
    obtain ⟨xs, heq, hxs⟩ := hq l.lead _ _ _ hls.bare hp
    cases xs with
    | nil => exact absurd hxs (hE _ _)
    | cons x xs =>
      obtain ⟨rfl, rfl⟩ := List.cons.inj heq
      exact ⟨l :: xs, rfl, l, xs, rfl, hls.head, hxs⟩

/-- What is made of a rule is decided behind its lead. -/
theorem TakesLead.gives {p : Parser α} {q : Trivia → Parser α} (h : TakesLead p q)
    {C : List Lexeme → α → Prop} (hp : Reads p C) {P : α → Prop}
    (hq : ∀ t, Reads (q t) fun _ a => P a) : Reads p fun _ a => P a := by
  intro ls a rest hls hparse
  obtain ⟨xs, heq, -⟩ := hp ls a rest hls hparse
  cases ls with
  | nil =>
    rw [h.nil] at hparse
    cases hparse
  | cons l ls =>
    rw [h.cons] at hparse
    obtain ⟨-, -, ha⟩ := hq l.lead _ _ _ hls.bare hparse
    exact ⟨xs, heq, ha⟩

/-! ## Variables -/

/-- A declaration without its semicolon. -/
def declared (r : Rules) : Parser (Option Trivia → VariableDeclarations) :=
  VariableDeclarations.mk <$> lead <*> modifiers r <*> typeReference r <*>
    separated r.bound (variableDeclarator r)

/-- A declaration without its semicolon, behind its lead. -/
def declaredBehind (r : Rules) (t : Trivia) : Parser (Option Trivia → VariableDeclarations) :=
  VariableDeclarations.mk t <$> modifiers r <*> typeReference r <*>
    separated r.bound (variableDeclarator r)

theorem takesLead_declared (r : Rules) : TakesLead (declared r) (declaredBehind r) :=
  ⟨rfl, fun _ _ => rfl⟩

theorem takesLead_variableDeclarations (r : Rules) :
    TakesLead (variableDeclarations r) fun t => declaredBehind r t <*> (some <$> semicolon) :=
  ⟨rfl, fun _ _ => rfl⟩

/-- A parameter behind its lead. -/
def parameterBehind (r : Rules) (t : Trivia) : Parser VariableDeclarations :=
  (fun modifiers type declared => ⟨t, modifiers, type, [.ofElement declared], none⟩) <$>
    modifiers r <*> typeReference r <*> variableDeclarator r

theorem takesLead_formalParameter (r : Rules) :
    TakesLead (formalParameter r) (parameterBehind r) := ⟨rfl, fun _ _ => rfl⟩

/-! ## Methods and classes -/

/-- A method behind its lead. -/
def methodBehind (r : Rules) (t : Trivia) : Parser MethodDeclaration :=
  (fun modifiers (returnType, name) parameters throws ending =>
    ⟨t, modifiers, returnType, name, parameters, throws, ending⟩) <$>
    modifiers r <*> methodName r <*> formalParameters r <*> optional (throwsClause r) <*>
    (MethodEnding.body <$> block r <|> MethodEnding.terminator <$> semicolon)

theorem takesLead_methodDeclaration (r : Rules) :
    TakesLead (methodDeclaration r) (methodBehind r) := ⟨rfl, fun _ _ => rfl⟩

/-- A class behind its lead. -/
def classBehind (r : Rules) (t : Trivia) : Parser ClassDeclaration :=
  (fun modifiers (kindLead, kind) name superclasses interfaces body =>
    ⟨t, modifiers, kindLead, kind, name, superclasses, interfaces, body, none⟩) <$>
    modifiers r <*> wordOf .classKind ClassKind.ofKeyword? <*> identifier <*>
    optional (extendsClause r) <*> optional (implementsClause r) <*> r.classBody

theorem takesLead_classDeclaration (r : Rules) :
    TakesLead (classDeclaration r) (classBehind r) := ⟨rfl, fun _ _ => rfl⟩

end LosslessJava.Grammar
