import LosslessJava.Proofs.Grammar.Build.Expression

/-!
# Building of variables and statements

* `matches_variableDeclarations`, `matches_formalParameter`: declarations of variables.
* `matches_statement`, `matches_blockStatement`: the rules for statements.
-/

namespace LosslessJava.Grammar

open LosslessJava.Grammar.Parser
open Build Building

variable {α β : Type} {source : List Char} {r : Rules} {b : Builders}

/-! ## Modifiers -/

/-- The pair of a name, of which the name is made behind it. -/
theorem walked_qualifiedName (bound : Nat) :
    Walked source (Grammar.qualifiedName bound) (expect .qualifiedName) (.one [.qualifiedName])
      fun found a => found.1 = a.1 ∧ Build.qualifiedName source found.2 = .ok a.2 := by
  refine (matches_qualifiedName bound).passed (passes_expect .qualifiedName) ?_
  rintro offset xs pair ⟨t, name⟩ - ⟨rfl, hname, hvalid⟩
  exact ⟨_, ⟨rfl, hname⟩, (verdict_of_none hvalid _).symm⟩

theorem matches_annotationUse (h : BuiltBy source r b) :
    Matches source (Grammar.annotationUse r)
      (Made source [.annotationUse] (Build.annotationUse source b)) := by
  refine Matches.walked
    (x := (fun _ (found : Trivia × Pair) arguments => (found, arguments)) <$> Building.token .at <*>
      expect .qualifiedName <*> perhaps .arguments (Build.arguments source b))
    (V := fun found m => ∃ t name, Build.qualifiedName source found.1.2 = .ok name ∧
      m = .annotated t found.1.1 name found.2 none)
    (fun t m => match m with
      | .annotated _ nameLead name arguments type => .annotated t nameLead name arguments type
      | .keyword _ kind => .keyword t kind)
    (Walked.named (.seq (.seq (.map (walked_delimiter (by decide)) ?_)
      (walked_qualifiedName r.bound) rfl) (matches_arguments h).perhaps rfl) rfl ?_
      .annotationUse) rfl
    (fun t found => do
      let name ← Build.qualifiedName source found.1.2
      return .annotated t found.1.1 name found.2 none) ?_ fun t pair => ?_
  · rintro t _ rfl ⟨u, pair⟩ ⟨_, name⟩ ⟨rfl, hname⟩ _ arguments rfl
    exact ⟨t, name, hname, rfl⟩
  · exact .seq <| .seq <| .map <| passesLead_symbol fun _ _ _ _ => rfl
  · rintro t ⟨⟨u, pair⟩, arguments⟩ _ ⟨v, name, hname, rfl⟩
    simp only [hname]
    rfl
  · simp only [Build.annotationUse, seq_eq_bind_map, map_eq_pure_bind, bind_assoc, pure_bind,
      liftM_bind, liftM_pure]

theorem matches_modifierWord :
    Matches source Grammar.modifierWord
      (Made source [.modifierWord] (Build.modifier source b)) := by
  refine matches_wordOf.image _ ?_
  rintro offset xs ⟨_, start, stop, inner⟩ ⟨t, kind⟩ hrule - ⟨rfl, hkind, hvalid⟩
  obtain rfl := List.mem_singleton.mp hrule
  rw [verdict_of_none hvalid]
  simp only [Build.modifier, hkind]

theorem walked_modifiers (h : BuiltBy source r b) :
    Walked source (Grammar.modifiers r) (Build.modifiers source b)
      (.upTo ([.annotationUse] ++ [.modifierWord])
        fun o => !o.any fun r => r == .modifierWord || r == .annotationUse) (· = ·) := by
  have hmodifier : Matches source (Grammar.annotationUse r <|> Grammar.modifierWord)
      (Made source ([.annotationUse] ++ [.modifierWord]) (Build.modifier source b)) :=
    .choice (.made_as (matches_annotationUse h) fun _ _ _ _ => rfl) matches_modifierWord
  exact hmodifier.all (finds_nextWhere (by decide)) r.bound

/-! ## Variables -/

theorem walked_initializer (h : BuiltBy source r b) :
    Walked source (Grammar.initializer r)
      (do let (lead, _) ← expect .equals; Build.initializer b lead)
      ((Lookahead.one [.equals]).seq (.one [.expression])) (· = ·) := by
  have hwalk : Walked source (Grammar.initializer r)
      (Initializer.mk <$> Building.token .equals <*> Building.child .expression b.expression)
      ((Lookahead.one [.equals]).seq (.one [.expression])) (· = ·) := by
    refine .apply (.map (matches_symbol (by decide)).token ?_) h.expression.child rfl
    rintro _ t rfl
    rfl
  refine hwalk.congr rfl fun c _ => ?_
  simp only [Build.initializer, Building.token, seq_eq_bind_map, map_eq_pure_bind, bind_assoc,
    pure_bind]

theorem matches_variableDeclarator (h : BuiltBy source r b) :
    Matches source (Grammar.variableDeclarator r)
      (Made source [.variableDeclarator] (Build.variableDeclarator source b)) := by
  have hname : PassesLead (fun t a i => i = a.withLead t) Grammar.identifier :=
    passesLead_identifier fun _ _ => rfl
  have hbehind : Behind source ((fun (name : Identifier) dimensions initializer =>
        NamedVariable.mk name.lead (name.withLead .empty) dimensions initializer none) <$>
        Grammar.identifier <*> Grammar.dimensions r.bound <*> optional (Grammar.initializer r))
      ((fun name dimensions initializer => .mk .empty name dimensions initializer none) <$>
        Grammar.identifier <*> Grammar.dimensions r.bound <*>
        optional (Grammar.initializer r)) := by
    refine .seq (.seq (.map (matches_identifier.behind fun _ _ _ _ => ?_)
      fun l ls i rest hp => ?_) _) _
    · rintro ⟨_, rfl, -⟩ hnil
      cases hnil
    · obtain ⟨i, rfl⟩ := hname.eq_put_empty hp
      rfl
  have hidentifier := (@matches_identifier source).child.map_same
    fun name dimensions initializer => NamedVariable.mk .empty name dimensions initializer none
  have hdimensions := hidentifier.apply (walked_dimensions r.bound) rfl
  have hinitializer :=
    Walked.whenFound (k := fun lead _ => Build.initializer b lead) (walked_initializer h) rfl rfl
  have hwalk := hdimensions.apply (hinitializer.mono fun _ _ => optionRel_eq) rfl
  refine Matches.walked_eq (fun t v => { v with lead := t })
    (hwalk.namedBehind rfl hbehind ?_ .variableDeclarator) rfl fun t pair => ?_
  · exact .seq <| .seq <| .map <| hname.mono fun _ _ _ heq _ _ => by rw [heq]; rfl
  · simp only [Build.variableDeclarator, seq_eq_bind_map, map_eq_pure_bind, bind_assoc, pure_bind]

theorem walked_semicolon :
    Walked source semicolon (Building.token .semicolon) (.one [.semicolon]) (· = ·) :=
  (matches_symbol (by decide)).token

theorem matches_variableDeclarations (h : BuiltBy source r b) :
    Matches source (Grammar.variableDeclarations r)
      (Made source [.variableDeclarations] (Build.variableDeclarations source b)) := by
  have hmodifiers := (walked_modifiers h).map_same (VariableDeclarations.mk .empty)
  have htype := hmodifiers.apply (matches_typeReference h).child rfl
  have hdeclared := htype.apply ((matches_variableDeclarator h).separated
    (finds_nextIf .variableDeclarator) (matches_symbol (by decide)) r.bound) rfl
  have hwalk := hdeclared.apply (walked_semicolon.map_same some) rfl
  refine Matches.walked_eq (fun t d => { d with lead := t }) (hwalk.namedBehind rfl
    (.seq (.seq (.seq (.lead _ _) _) _) _) ?_ .variableDeclarations) rfl fun t pair => ?_
  · exact .seq <| .seq <| .seq <| .seq <| .map <| passesLead_lead fun _ _ _ _ _ _ => rfl
  · simp only [Build.variableDeclarations, seq_eq_bind_map, map_eq_pure_bind, bind_assoc, pure_bind]

theorem matches_formalParameter (h : BuiltBy source r b) :
    Matches source (Grammar.formalParameter r)
      (Made source [.formalParameter] (Build.formalParameter source b)) := by
  have hmodifiers := (walked_modifiers h).map_same fun modifiers type declared =>
    VariableDeclarations.mk .empty modifiers type [.ofElement declared] none
  have htype := hmodifiers.apply (matches_typeReference h).child rfl
  have hwalk := htype.apply (matches_variableDeclarator h).child rfl
  refine Matches.walked_eq (fun t d => { d with lead := t }) (hwalk.namedBehind rfl
    (.seq (.seq (.lead _ _) _) _) ?_ .formalParameter) rfl fun t pair => ?_
  · exact .seq <| .seq <| .seq <| .map <| passesLead_lead fun _ _ _ _ _ => rfl
  · simp only [Build.formalParameter, seq_eq_bind_map, map_eq_pure_bind, bind_assoc, pure_bind]

/-! ## Statements -/

theorem matches_block (h : BuiltBy source r b) :
    Matches source (Grammar.block r) (Made source [.block] (Build.block source b)) := by
  have hopen : Walked source leftBrace (Building.token .leftBrace) (.one [.leftBrace]) (· = ·) :=
    walked_delimiter (by decide)
  have hstatements : Walked source (many r.bound r.blockStatement)
      (all (nextUnless .rightBrace "a statement") b.statement)
      (.upTo ([.variableDeclarations] ++ statementRules) fun o => o == some .rightBrace) (· = ·) :=
    h.blockStatement.all (finds_nextUnless (by decide)) r.bound
  have hclose : Walked source rightBrace (Building.token .rightBrace) (.one [.rightBrace])
      (· = ·) := walked_delimiter (by decide)
  have hwalk := ((hopen.map_same Block.mk).apply hstatements rfl).apply hclose rfl
  refine Matches.walked_eq (fun t block => { block with lead := t }) (hwalk.named rfl ?_ .block) rfl
    fun t pair => ?_
  · exact .seq <| .seq <| .map <| passesLead_symbol fun _ _ _ _ => rfl
  · simp only [Build.block, seq_eq_bind_map, map_eq_pure_bind, bind_assoc, pure_bind]

theorem matches_returnStatement (h : BuiltBy source r b) :
    Matches source (Grammar.returnStatement r)
      (Made source [.returnStatement] (Build.returnStatement source b)) := by
  have hkeyword : Walked source (keyword .returnWord "return") (Building.token .returnWord)
      (.one [.returnWord]) (· = ·) := matches_keyword.token
  have hvalue := (hkeyword.map_same Return.mk).apply h.expression.perhaps rfl
  have hwalk := hvalue.apply walked_semicolon rfl
  refine Matches.walked_eq (fun t s => { s with lead := t })
    (hwalk.named rfl ?_ .returnStatement) rfl fun t pair => ?_
  · exact .seq <| .seq <| .map <| passesLead_keyword fun _ _ _ _ => rfl
  · simp only [Build.returnStatement, seq_eq_bind_map, map_eq_pure_bind, bind_assoc, pure_bind]

theorem matches_throwStatement (h : BuiltBy source r b) :
    Matches source (Grammar.throwStatement r)
      (Made source [.throwStatement] (Build.throwStatement source b)) := by
  have hkeyword : Walked source (keyword .throwWord "throw") (Building.token .throwWord)
      (.one [.throwWord]) (· = ·) := matches_keyword.token
  have hexception := (hkeyword.map_same Statement.throwing).apply h.expression.child rfl
  have hwalk := hexception.apply walked_semicolon rfl
  refine Matches.walked_eq (fun t s => s.withLead t) (hwalk.named rfl ?_ .throwStatement) rfl
    fun t pair => ?_
  · exact .seq <| .seq <| .map <| passesLead_keyword fun _ _ _ _ => rfl
  · simp only [Build.throwStatement, seq_eq_bind_map, map_eq_pure_bind, bind_assoc, pure_bind]
    rfl

theorem matches_condition (h : BuiltBy source r b) :
    Matches source (Grammar.condition r) (Made source [.condition] (Build.condition source b)) := by
  have hopen : Walked source leftParenthesis (Building.token .leftParenthesis)
      (.one [.leftParenthesis]) (· = ·) := walked_delimiter (by decide)
  have hclose : Walked source rightParenthesis (Building.token .rightParenthesis)
      (.one [.rightParenthesis]) (· = ·) := walked_delimiter (by decide)
  have hwalk := ((hopen.map_same Condition.mk).apply h.expression.child rfl).apply hclose rfl
  refine Matches.walked_eq (fun t c => { c with lead := t }) (hwalk.named rfl ?_ .condition) rfl
    fun t pair => ?_
  · exact .seq <| .seq <| .map <| passesLead_symbol fun _ _ _ _ => rfl
  · simp only [Build.condition, seq_eq_bind_map, map_eq_pure_bind, bind_assoc, pure_bind]

theorem walked_nextStatement (h : BuiltBy source r b) :
    Walked source r.statement (nextStatement b) (.one statementRules) (· = ·) :=
  h.statement.made (Passes.bind (passes_expectAny "a statement" statementRules))

theorem matches_elseClause (h : BuiltBy source r b) :
    Matches source (Grammar.elseClause r)
      (Made source [.elseClause] (Build.elseClause source b)) := by
  have hkeyword : Walked source (keyword .elseWord "else") (Building.token .elseWord)
      (.one [.elseWord]) (· = ·) := matches_keyword.token
  have hwalk := (hkeyword.map_same Prod.mk).apply (walked_nextStatement h) rfl
  refine Matches.walked_eq (fun t s => (t, s.2)) (hwalk.named rfl ?_ .elseClause) rfl
    fun t pair => ?_
  · exact .seq <| .map <| passesLead_keyword fun _ _ _ => rfl
  · simp only [Build.elseClause, seq_eq_bind_map, map_eq_pure_bind, bind_assoc, pure_bind]

theorem matches_ifStatement (h : BuiltBy source r b) :
    Matches source (Grammar.ifStatement r)
      (Made source [.ifStatement] (Build.ifStatement source b)) := by
  refine Matches.walked_eq (x := (fun lead condition thenPart elsePart =>
      elsePart.elim (Statement.branch lead condition thenPart) fun found =>
        .fork lead condition thenPart found.1 found.2) <$> Building.token .ifWord <*>
      Building.child .condition (Build.condition source b) <*> nextStatement b <*>
      perhaps .elseClause (Build.elseClause source b))
    (fun t s => s.withLead t) (Walked.named (.seq (.seq (.seq (.map matches_keyword.token ?_)
      (matches_condition h).child rfl) (walked_nextStatement h) rfl)
      (matches_elseClause h).perhaps rfl) rfl ?_ .ifStatement) rfl fun t pair => ?_
  · rintro _ t rfl _ condition rfl _ thenPart rfl elsePart _ rfl
    cases elsePart <;> rfl
  · refine .seq <| .seq <| .seq <| .map <| passesLead_keyword fun _ _ _ _ o => ?_
    cases o <;> rfl
  · simp only [Build.ifStatement, seq_eq_bind_map, map_eq_pure_bind, bind_assoc, pure_bind]
    refine congrArg _ <| bind_congr fun _ => bind_congr fun condition => bind_congr fun thenPart =>
      bind_congr fun elsePart => ?_
    cases elsePart <;> rfl

theorem matches_whileStatement (h : BuiltBy source r b) :
    Matches source (Grammar.whileStatement r)
      (Made source [.whileStatement] (Build.whileStatement source b)) := by
  have hkeyword : Walked source (keyword .whileWord "while") (Building.token .whileWord)
      (.one [.whileWord]) (· = ·) := matches_keyword.token
  have hcondition := (hkeyword.map_same Statement.loop).apply (matches_condition h).child rfl
  have hwalk := hcondition.apply (walked_nextStatement h) rfl
  refine Matches.walked_eq (fun t s => s.withLead t) (hwalk.named rfl ?_ .whileStatement) rfl
    fun t pair => ?_
  · exact .seq <| .seq <| .map <| passesLead_keyword fun _ _ _ _ => rfl
  · simp only [Build.whileStatement, seq_eq_bind_map, map_eq_pure_bind, bind_assoc, pure_bind]
    rfl

/-- The semicolon of an empty statement needs no walk. -/
theorem matches_emptyStatement :
    Matches source Grammar.emptyStatement
      (Made source [.emptyStatement] (Build.statement source b)) := by
  have hsemicolon : Matches source (Statement.empty <$> semicolon)
      (Single source [.semicolon] fun offset xs _ s =>
        s = .empty (leadOf xs) ∧ firstInvalid offset xs = none) := by
    refine (matches_symbol (by decide)).image _ ?_
    rintro offset xs pair _ - - ⟨rfl, hvalid⟩
    exact ⟨rfl, hvalid⟩
  have hne : ∀ offset xs ps (s : Statement), Single source [.semicolon] (fun offset xs _ s =>
      s = .empty (leadOf xs) ∧ firstInvalid offset xs = none) offset xs ps s → ps ≠ [] := by
    rintro offset xs _ s ⟨pair, rfl, -⟩ hnil
    cases hnil
  have hpair := hsemicolon.named hne (hsemicolon.behind hne) passesLead_emptyStatement
    .emptyStatement
  refine hpair.mono_single ?_
  rintro offset _ ⟨_, start, stop, inner⟩ _ hrule hspans
    ⟨l, ys, _, rfl, ⟨_, -, -, -, rfl, hvalid⟩, rfl⟩
  obtain rfl := List.mem_singleton.mp hrule
  exact (verdict_of_none (hspans.firstInvalid_bare ▸ hvalid) _).symm

theorem matches_expressionStatement (h : BuiltBy source r b) :
    Matches source (Grammar.expressionStatement r)
      (Made source [.expressionStatement] (Build.expressionStatement source b)) := by
  have hbehind : Behind source ((fun (e : Expression) terminator =>
        Statement.expression e.lead e.bare terminator) <$> Grammar.expression r <*> semicolon)
      (Statement.expression .empty <$> Grammar.expression r <*> semicolon) := by
    refine .seq (.map ((matches_expression h).behind fun _ _ _ _ => ?_) fun l ls e rest hp => ?_) _
    · rintro ⟨_, rfl, -⟩ hnil
      cases hnil
    · obtain ⟨e, rfl⟩ := (passesLead_expression r).eq_put_empty hp
      rw [Expression.lead_withLead, Expression.bare_withLead]
      rfl
  have hexpression := (matches_expression h).child.map_same (Statement.expression .empty)
  have hwalk := hexpression.apply walked_semicolon rfl
  refine Matches.walked_eq (fun t s => s.withLead t)
    (hwalk.namedBehind rfl hbehind ?_ .expressionStatement) rfl fun t pair => ?_
  · exact passesLead_expressionStatement r
  · simp only [Build.expressionStatement, seq_eq_bind_map, map_eq_pure_bind, bind_assoc, pure_bind]
    rfl

/-! ## The rules -/

/-- What is built of a pair of the rule, and a function of it. -/
theorem Matches.made_map {p : Parser α} {rules : List Rule} {f : Trivia → Pair → Built α}
    (h : Matches source p (Made source rules f)) (g : α → β) :
    Matches source (g <$> p) (Made source rules fun lead pair => g <$> f lead pair) := by
  refine h.image g fun offset xs pair a _ _ hf => ?_
  show g <$> f (leadOf xs) pair = _
  rw [hf, verdict_map]

theorem matches_statement (h : BuiltBy source r b) :
    Matches source (Grammar.statement r)
      (Made source statementRules (Build.statement source b)) := by
  have hblock : Matches source (Statement.block <$> Grammar.block r)
      (Made source [.block] (Build.statement source b)) :=
    ((matches_block h).made_map Statement.block).made_as fun _ _ _ _ => rfl
  have hreturn : Matches source (Statement.ret <$> Grammar.returnStatement r)
      (Made source [.returnStatement] (Build.statement source b)) :=
    ((matches_returnStatement h).made_map Statement.ret).made_as fun _ _ _ _ => rfl
  have hthrow : Matches source (Grammar.throwStatement r)
      (Made source [.throwStatement] (Build.statement source b)) :=
    (matches_throwStatement h).made_as fun _ _ _ _ => rfl
  have hif : Matches source (Grammar.ifStatement r)
      (Made source [.ifStatement] (Build.statement source b)) :=
    (matches_ifStatement h).made_as fun _ _ _ _ => rfl
  have hwhile : Matches source (Grammar.whileStatement r)
      (Made source [.whileStatement] (Build.statement source b)) :=
    (matches_whileStatement h).made_as fun _ _ _ _ => rfl
  have hexpression : Matches source (Grammar.expressionStatement r)
      (Made source [.expressionStatement] (Build.statement source b)) :=
    (matches_expressionStatement h).made_as fun _ _ _ _ => rfl
  exact hblock.choice <| hreturn.choice <| hthrow.choice <| hif.choice <| hwhile.choice <|
    matches_emptyStatement.choice hexpression

theorem matches_blockStatement (h : BuiltBy source r b) :
    Matches source (Grammar.blockStatement r)
      (Made source ([.variableDeclarations] ++ statementRules) (Build.statement source b)) := by
  have hdeclaration : Matches source (Statement.declaration <$> Grammar.variableDeclarations r)
      (Made source [.variableDeclarations] (Build.statement source b)) :=
    ((matches_variableDeclarations h).made_map Statement.declaration).made_as fun _ _ _ _ => rfl
  exact hdeclaration.choice (matches_statement h)

end LosslessJava.Grammar
