import LosslessJava.Grammar.Text
import LosslessJava.Proofs.Grammar.Enclosed

/-!
# The rules of the grammar agree

A rule over other rules agrees on one lexeme more than those, because it takes a lexeme before it
comes to them. So rules of different depths agree on all texts with fewer lexemes than either depth.

* `Rules.Agree`: what is known of the rules for what lies deeper. The rules of statements agree only
  in front of braces.
* `rules_agree`: it holds for the rules of any two depths.
-/

namespace LosslessJava.Grammar

open LosslessJava.Grammar.Parser

/-- The rules have the same outcome on fewer than `k` lexemes. -/
structure Rules.Agree (k : Nat) (r r' : Rules) : Prop where
  bound : k ≤ r.bound
  bound' : k ≤ r'.bound
  type (s : Bool) : Grammar.Agree s k 1 r.type r'.type
  unary (s : Bool) : Grammar.Agree s k 1 r.unary r'.unary
  expression (s : Bool) : Grammar.Agree s k 1 r.expression r'.expression
  classBody (s : Bool) : Grammar.Agree s k 1 r.classBody r'.classBody
  statement : Grammar.Agree true k 1 r.statement r'.statement
  blockStatement : Grammar.Agree true k 1 r.blockStatement r'.blockStatement

variable {α : Type} {s : Bool} {k : Nat} {r r' : Rules}

/-- A repetition of something that takes lexemes, over rules with enough room. -/
theorem Rules.Agree.many (h : r.Agree k r') {p q : Parser α} (hp : Grammar.Agree s (k + 1) 1 p q) :
    Grammar.Agree s (k + 1) 0 (many r.bound p) (many r'.bound q) :=
  hp.many (Nat.succ_le_succ h.bound) (Nat.succ_le_succ h.bound')

theorem Rules.Agree.list (h : r.Agree k r') {p q : Parser α}
    (hp : Grammar.Agree s (k + 1) 1 p q) :
    Grammar.Agree s (k + 1) 1 (separated r.bound p) (separated r'.bound q) :=
  agree_separated hp (Nat.succ_le_succ h.bound) (Nat.succ_le_succ h.bound')

/-! ## Types -/

theorem agree_dimension : Agree s k 1 dimension dimension := by
  have hopen : Agree s k 1 leftBracket leftBracket := agree_delimiter (by decide)
  have hclose : Agree s k 1 rightBracket rightBracket := agree_delimiter (by decide)
  exact ((hopen.map _).weaken.seq hclose).named _ _

theorem agree_dimensions {b c : Nat} (hb : k ≤ b + 1) (hc : k ≤ c + 1) :
    Agree s k 0 (dimensions b) (dimensions c) :=
  agree_dimension.many hb hc

theorem agree_wildcardType (h : r.Agree k r') :
    Agree s (k + 1) 1 (wildcardType r) (wildcardType r') := by
  have hquestion : Agree s (k + 1) 1 question question := agree_delimiter (by decide)
  have hbound : Agree s (k + 1) 1 (wildcardBound r) (wildcardBound r') :=
    (agree_wordOf.map _).seq_behind (h.type s).weaken
  exact ((hquestion.map _).seq_behind (hbound.weaken.of_le (Nat.le_succ k)).optional).named _ _

theorem agree_typeArguments (h : r.Agree k r') :
    Agree s (k + 1) 1 (typeArguments r) (typeArguments r') := by
  have hargument := ((agree_wildcardType (s := s) h).of_le (Nat.le_succ k)).orElse (h.type s)
  exact (agree_angled hargument (Nat.le_succ_of_le h.bound) (Nat.le_succ_of_le h.bound')).named _ _

theorem agree_typeReference (h : r.Agree k r') :
    Agree s (k + 1) 1 (typeReference r) (typeReference r') := by
  have hname : Agree s (k + 1) 1 (qualifiedName r.bound) (qualifiedName r'.bound) :=
    agree_qualifiedName h.bound h.bound'
  have harguments := (agree_typeArguments (s := s) h).weaken.of_le (Nat.le_succ k)
  have hhead : Agree s (k + 1) 1 (typeHead r) (typeHead r') :=
    (agree_wordOf.map _).orElse ((hname.map _).seq_behind harguments.optional)
  have hdimensions : Agree s k 0 (dimensions r.bound) (dimensions r'.bound) :=
    agree_dimensions (Nat.le_succ_of_le h.bound) (Nat.le_succ_of_le h.bound')
  exact (hhead.seq_behind hdimensions).named _ _

/-! ## Expressions -/

theorem agree_arguments (h : r.Agree k r') : Agree s (k + 1) 1 (arguments r) (arguments r') := by
  have hlist := agree_separated (h.expression false) (Nat.le_succ_of_le h.bound)
    (Nat.le_succ_of_le h.bound')
  exact (agree_parentheses hlist.weaken.optional _).named _ _

theorem agree_newClass (h : r.Agree k r') : Agree s (k + 1) 1 (newClass r) (newClass r') := by
  have harguments : Agree s k 0 (arguments r) (arguments r') :=
    ((agree_arguments h).of_le (Nat.le_succ k)).weaken
  have hbody := (h.classBody s).weaken.optional
  exact (((((agree_keyword.map _).seq_behind (h.type s).weaken).seq_behind harguments).seq_behind
    hbody)).named _ _

theorem agree_primary (h : r.Agree k r') : Agree s (k + 1) 1 (primary r) (primary r') := by
  have harguments : Agree s k 0 (arguments r) (arguments r') :=
    ((agree_arguments h).of_le (Nat.le_succ k)).weaken
  have hcall : Agree s (k + 1) 1 (methodCall r) (methodCall r') :=
    ((agree_identifier.map _).seq_behind harguments).named _ _
  have hparentheses : Agree s (k + 1) 1 (parenthesized r) (parenthesized r') :=
    (agree_parentheses (h.expression false).weaken _).named _ _
  exact (agree_literal.map _).orElse <| (agree_keyword.map _).orElse <| (agree_newClass h).orElse <|
    hcall.orElse <| (agree_identifier.map _).orElse hparentheses

theorem agree_selector (h : r.Agree k r') : Agree s (k + 1) 1 (selector r) (selector r') := by
  have hdot : Agree s (k + 1) 1 dot dot := agree_delimiter (by decide)
  have hname := (hdot.map Expression.Selector.mk).seq_behind agree_identifier.weaken
  have harguments : Agree s k 0 (arguments r) (arguments r') :=
    ((agree_arguments h).of_le (Nat.le_succ k)).weaken
  have hfield := (hdot.map fun t name => Expression.Selector.mk t name none).seq_behind
    agree_identifier.weaken
  exact ((hname.seq_behind (harguments.map some)).named _ _).orElse (hfield.named _ _)

theorem agree_unaryExpression (h : r.Agree k r') :
    Agree s (k + 1) 1 (unaryExpression r) (unaryExpression r') := by
  have hselectors := (h.many (agree_selector (s := s) h)).of_le (Nat.le_succ k)
  have hchained : Agree s (k + 1) 1 (postfixExpression r) (postfixExpression r') :=
    (((agree_primary h).map _).seq_behind hselectors).named _ _
  exact (((agree_prefixOperator.map _).seq_behind (h.unary s).weaken).orElse
    ((hchained.map _).seq_behind agree_postfixOperator.weaken.optional)).named _ _

theorem agree_branches (h : r.Agree k r') : Agree s (k + 1) 1 (branches r) (branches r') := by
  have hquestion : Agree s (k + 1) 1 question question := agree_delimiter (by decide)
  have hcolon : Agree s k 1 colon colon := agree_delimiter (by decide)
  have hexpression := (h.expression s).weaken
  exact (((hquestion.map _).seq_behind hexpression).seq_behind hcolon.weaken).seq_behind hexpression

theorem agree_expression (h : r.Agree k r') : Agree s (k + 1) 1 (expression r) (expression r') := by
  have hunary := agree_unaryExpression (s := s) h
  have hassigned : Agree s (k + 1) 1 (assigned r) (assigned r') :=
    ((agree_assignmentOperator.map _).seq_behind (h.expression s).weaken).around _ _
  have hchain : Agree s (k + 1) 0 (chain r) (chain r') :=
    (h.many ((agree_binaryOperator.map _).weaken.seq hunary)).around _ _
  have hcomputed : Agree s (k + 1) 0 (computed r) (computed r') :=
    ((hchain.map _).seq (agree_branches h).weaken.optional).around _ _
  have hfinish := (hassigned.weaken.orElse hcomputed).of_le (Nat.le_succ k)
  exact ((hunary.map _).seq_behind hfinish).summary _ _

/-! ## Variables -/

theorem agree_modifiers (h : r.Agree k r') : Agree s (k + 1) 0 (modifiers r) (modifiers r') := by
  have hat : Agree s (k + 1) 1 at_ at_ := agree_delimiter (by decide)
  have hname : Agree s (k + 1) 1 (qualifiedName r.bound) (qualifiedName r'.bound) :=
    agree_qualifiedName h.bound h.bound'
  have harguments := (agree_arguments (s := s) h).weaken.of_le (Nat.le_succ k)
  have huse : Agree s (k + 1) 1 (annotationUse r) (annotationUse r') :=
    (((hat.map _).seq_behind (hname.of_le (Nat.le_succ k)).weaken).seq_behind
      harguments.optional).named _ _
  exact h.many (huse.orElse (agree_wordOf.map _))

theorem agree_variableDeclarator (h : r.Agree k r') :
    Agree s (k + 1) 1 (variableDeclarator r) (variableDeclarator r') := by
  have hequals : Agree s (k + 1) 1 equals equals := agree_symbol (by decide)
  have hinitializer : Agree s (k + 1) 1 (initializer r) (initializer r') :=
    (hequals.map _).seq_behind (h.expression s).weaken
  have hdimensions : Agree s k 0 (dimensions r.bound) (dimensions r'.bound) :=
    agree_dimensions (Nat.le_succ_of_le h.bound) (Nat.le_succ_of_le h.bound')
  exact (((agree_identifier.map _).seq_behind hdimensions).seq_behind
    (hinitializer.of_le (Nat.le_succ k)).weaken.optional).named _ _

theorem agree_declared (h : r.Agree k r') : Agree s (k + 1) 1 (declared r) (declared r') := by
  refine (takesLead_declared r).agree (takesLead_declared r') fun t => ?_
  have htype := ((agree_modifiers (s := s) h).map (VariableDeclarations.mk t)).seq
    (agree_typeReference (s := s) h)
  exact htype.weaken.seq (h.list (agree_variableDeclarator h))

theorem agree_variableDeclarations (h : r.Agree k r') :
    Agree true (k + 1) 1 (variableDeclarations r) (variableDeclarations r') :=
  ((agree_declared h).weaken.seq (agree_semicolon.map some)).named _ _

theorem agree_formalParameter (h : r.Agree k r') :
    Agree s (k + 1) 1 (formalParameter r) (formalParameter r') := by
  refine (takesLead_formalParameter r).agree (takesLead_formalParameter r') fun t => ?_
  exact (((agree_modifiers h).map _).seq (agree_typeReference h)).weaken.seq
    (agree_variableDeclarator h)

/-! ## Statements -/

theorem agree_block (h : r.Agree k r') : Agree s (k + 1) 1 (block r) (block r') := by
  have hstatements : Agree true k 0 (many r.bound r.blockStatement)
      (many r'.bound r'.blockStatement) :=
    h.blockStatement.many (Nat.le_succ_of_le h.bound) (Nat.le_succ_of_le h.bound')
  exact (agree_braces hstatements _).named _ _

/-- A `return` without its semicolon. -/
def returned (r : Rules) : Parser (Trivia → Return) :=
  Return.mk <$> keyword .returnWord "return" <*> optional r.expression

theorem agree_returned (h : r.Agree k r') : Agree s (k + 1) 1 (returned r) (returned r') :=
  (agree_keyword.map _).seq_behind (h.expression s).weaken.optional

/-- A `throw` without its semicolon. -/
def thrown (r : Rules) : Parser (Trivia → Statement) :=
  Statement.throwing <$> keyword .throwWord "throw" <*> r.expression

theorem agree_thrown (h : r.Agree k r') : Agree s (k + 1) 1 (thrown r) (thrown r') :=
  (agree_keyword.map _).seq_behind (h.expression s).weaken

/-- An expression statement without its semicolon. -/
def effect (r : Rules) : Parser (Trivia → Statement) :=
  (fun (e : Expression) terminator => .expression e.lead e.bare terminator) <$> expression r

theorem agree_effect (h : r.Agree k r') : Agree s (k + 1) 1 (effect r) (effect r') :=
  (agree_expression h).map _

theorem agree_condition (h : r.Agree k r') : Agree s (k + 1) 1 (condition r) (condition r') :=
  (agree_parentheses (h.expression false).weaken _).named _ _

theorem agree_elseClause (h : r.Agree k r') :
    Agree true (k + 1) 1 (elseClause r) (elseClause r') :=
  ((agree_keyword.map _).seq_behind h.statement.weaken).named _ _

theorem agree_ifStatement (h : r.Agree k r') :
    Agree true (k + 1) 1 (ifStatement r) (ifStatement r') := by
  have hcondition := ((agree_condition (s := true) h).of_le (Nat.le_succ k)).weaken
  have helse := ((agree_elseClause h).of_le (Nat.le_succ k)).weaken.optional
  exact ((((agree_keyword.map _).seq_behind hcondition).seq_behind h.statement.weaken).seq_behind
    helse).named _ _

theorem agree_whileStatement (h : r.Agree k r') :
    Agree true (k + 1) 1 (whileStatement r) (whileStatement r') := by
  have hcondition := ((agree_condition (s := true) h).of_le (Nat.le_succ k)).weaken
  exact (((agree_keyword.map _).seq_behind hcondition).seq_behind h.statement.weaken).named _ _

theorem agree_statement (h : r.Agree k r') :
    Agree true (k + 1) 1 (statement r) (statement r') := by
  have hret : Agree true (k + 1) 1 (returnStatement r) (returnStatement r') :=
    ((agree_returned h).weaken.seq agree_semicolon).named _ _
  have hthrow : Agree true (k + 1) 1 (throwStatement r) (throwStatement r') :=
    ((agree_thrown h).weaken.seq agree_semicolon).named _ _
  have heffect : Agree true (k + 1) 1 (expressionStatement r) (expressionStatement r') :=
    ((agree_effect h).weaken.seq agree_semicolon).named _ _
  exact ((agree_block h).map _).orElse <| (hret.map _).orElse <| hthrow.orElse <|
    (agree_ifStatement h).orElse <| (agree_whileStatement h).orElse <|
    ((agree_semicolon.map _).named _ _).orElse heffect

theorem agree_blockStatement (h : r.Agree k r') :
    Agree true (k + 1) 1 (blockStatement r) (blockStatement r') :=
  ((agree_variableDeclarations h).map _).orElse (agree_statement h)

/-! ## Declarations -/

theorem agree_typeClause (h : r.Agree k r') {rule keywordRule : Rule} {w : String} :
    Agree s (k + 1) 1 (typeClause r rule keywordRule w) (typeClause r' rule keywordRule w) := by
  have htypes := agree_separated (agree_typeReference (s := s) h) (Nat.succ_le_succ h.bound)
    (Nat.succ_le_succ h.bound')
  exact ((agree_keyword.map _).seq_behind (htypes.of_le (Nat.le_succ k)).weaken).named _ _

theorem agree_formalParameters (h : r.Agree k r') :
    Agree s (k + 1) 1 (formalParameters r) (formalParameters r') := by
  have hlist := agree_separated (agree_formalParameter (s := false) h) (Nat.succ_le_succ h.bound)
    (Nat.succ_le_succ h.bound')
  exact (agree_parentheses (hlist.weaken.optional.of_le (Nat.le_succ k)) _).named _ _

theorem agree_methodDeclaration (h : r.Agree k r') :
    Agree true (k + 1) 1 (methodDeclaration r) (methodDeclaration r') := by
  refine (takesLead_methodDeclaration r).agree (takesLead_methodDeclaration r') fun t => ?_
  have hname : Agree true (k + 1) 1 (methodName r) (methodName r') :=
    (((agree_typeReference h).map _).weaken.seq agree_identifier).orElse (agree_identifier.map _)
  have hthrows : Agree true (k + 1) 0 (optional (throwsClause r)) (optional (throwsClause r')) :=
    (agree_typeClause h).weaken.optional
  exact (((((agree_modifiers h).map _).seq hname).weaken.seq
    (agree_formalParameters h).weaken).seq hthrows).seq
    (((agree_block h).map _).orElse (agree_semicolon.map _))

theorem agree_classDeclaration (h : r.Agree k r') :
    Agree s (k + 1) 1 (classDeclaration r) (classDeclaration r') := by
  refine (takesLead_classDeclaration r).agree (takesLead_classDeclaration r') fun t => ?_
  have hextends : Agree s k 0 (optional (extendsClause r)) (optional (extendsClause r')) :=
    ((agree_typeClause h).weaken.of_le (Nat.le_succ k)).optional
  have himplements : Agree s k 0 (optional (implementsClause r)) (optional (implementsClause r')) :=
    ((agree_typeClause h).weaken.of_le (Nat.le_succ k)).optional
  exact ((((((agree_modifiers h).map _).seq agree_wordOf).seq_behind
    agree_identifier.weaken).seq_behind hextends).seq_behind himplements).seq_behind
    (h.classBody s).weaken

/-! ## All rules -/

theorem agree_member (h : r.Agree k r') : Agree true (k + 1) 1 (member r) (member r') :=
  ((agree_classDeclaration h).map _).orElse <| ((agree_methodDeclaration h).map _).orElse <|
    ((agree_variableDeclarations h).map _).orElse (agree_semicolon.map _)

theorem agree_classBody (h : r.Agree k r') : Agree s (k + 1) 1 (classBody r) (classBody r') := by
  have hmembers := (h.many (agree_member h)).of_le (Nat.le_succ k)
  exact (agree_braces hmembers _).named _ _

/-- The rules of any two depths agree on texts with fewer lexemes than either depth. -/
theorem rules_agree {k d d' : Nat} (hd : k ≤ d) (hd' : k ≤ d') : (rules d).Agree k (rules d') := by
  induction k generalizing d d' with
  | zero =>
    exact ⟨Nat.zero_le _, Nat.zero_le _, fun _ => .zero _ _, fun _ => .zero _ _,
      fun _ => .zero _ _, fun _ => .zero _ _, .zero _ _, .zero _ _⟩
  | succ k ih =>
    obtain ⟨d, rfl⟩ : ∃ e, d = e + 1 := ⟨d - 1, by omega⟩
    obtain ⟨d', rfl⟩ : ∃ e, d' = e + 1 := ⟨d' - 1, by omega⟩
    have ih := ih (Nat.le_of_succ_le_succ hd) (Nat.le_of_succ_le_succ hd')
    simp only [rules, later_eq]
    exact ⟨hd, hd', fun _ => agree_typeReference ih, fun _ => agree_unaryExpression ih,
      fun _ => agree_expression ih, fun _ => agree_classBody ih, agree_statement ih,
      agree_blockStatement ih⟩

end LosslessJava.Grammar
