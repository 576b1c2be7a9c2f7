import LosslessJava.Grammar.Text
import LosslessJava.Proofs.Grammar.Build.Statement
import LosslessJava.Proofs.Grammar.Lead

/-!
# Building of declarations and units

* `matches_methodDeclaration`, `matches_classDeclaration`, `matches_classBody`: classes.
* `matches_packageDeclaration`, `matches_importDeclaration`: what stands in front of them.
* `matches_compilationUnit`, `matches_statementText`, `matches_expressionText`: whole texts.
-/

namespace LosslessJava.Grammar

open LosslessJava.Grammar.Parser
open Build Building

variable {α β : Type} {source : List Char} {r : Rules} {b : Builders}

/-! ## Clauses of types -/

theorem matches_typeClause (h : BuiltBy source r b) {rule keywordRule : Rule} {word : String} :
    Matches source (Grammar.typeClause r rule keywordRule word)
      (Made source [rule] (Build.typeClause source b)) := by
  have hkeyword : Walked source (keyword keywordRule word) (expectAny "a clause keyword")
      (.one [keywordRule]) fun found t => found.1 = t := by
    refine matches_keyword.passed (passes_expectAny _ _) ?_
    rintro offset xs pair _ - ⟨rfl, hvalid⟩
    exact ⟨_, rfl, (verdict_of_none hvalid _).symm⟩
  have hhead : Walked source (TypeList.mk <$> keyword keywordRule word)
      ((fun found types => TypeList.mk found.1 types) <$> expectAny "a clause keyword")
      (.one [keywordRule]) (· = ·) := by
    refine hkeyword.map ?_
    rintro _ t rfl
    rfl
  have hwalk := hhead.apply ((matches_typeReference h).separated (finds_nextIf .typeReference)
    (matches_symbol (by decide)) r.bound) rfl
  refine Matches.walked_eq (fun t l => { l with lead := t }) (hwalk.named rfl ?_ rule) rfl
    fun t pair => ?_
  · exact .seq <| .map <| passesLead_keyword fun _ _ _ => rfl
  · simp only [Build.typeClause, seq_eq_bind_map, map_eq_pure_bind, bind_assoc, pure_bind]

/-! ## Methods -/

theorem matches_formalParameters (h : BuiltBy source r b) :
    Matches source (Grammar.formalParameters r)
      (Made source [.formalParameters] (Build.formalParameters source b)) :=
  matches_delimited r.bound (matches_formalParameter h) (finds_nextIf .formalParameter) (by decide)
    (by decide) rfl (by decide)

theorem walked_methodEnding (h : BuiltBy source r b) :
    Walked source (MethodEnding.body <$> Grammar.block r <|> MethodEnding.terminator <$> semicolon)
      (Build.methodEnding source b) ((Lookahead.one [.block]).orElse (.one [.semicolon]))
      (· = ·) := by
  have hbody := (matches_block h).child.map_same MethodEnding.body
  have hterminator := (@walked_semicolon source).map_same MethodEnding.terminator
  refine .orElse (hbody.congr rfl ?_) (hterminator.congr rfl ?_)
  · rintro c ⟨rule, hrule, hc⟩
    obtain rfl := List.mem_singleton.mp hrule
    rw [Build.methodEnding, perhaps, bind_run, whenFound_of_eq hc, map_run, map_run]
    change (_ <$> Building.child .block (Build.block source b) c) >>= _ = _
    cases Building.child .block (Build.block source b) c <;> rfl
  · rintro c ⟨rule, hrule, hc⟩
    obtain rfl := List.mem_singleton.mp hrule
    rw [Build.methodEnding, perhaps, bind_run, whenFound_of_ne (by simp [hc])]
    rfl

/-- The type and the name of a method. A constructor has no type. -/
theorem walked_methodName (h : BuiltBy source r b) :
    Walked source (Grammar.methodName r)
      (Prod.mk <$> perhaps .typeReference (Build.typeReference source b) <*>
        Building.child .identifier (Build.identifier source))
      (((Lookahead.one [.typeReference]).seq (.one [.identifier])).orElse (.one [.identifier]))
      (· = ·) := by
  have htype := (matches_typeReference h).child.map_same fun type (name : Identifier) =>
    (some type, name)
  have hmethod := htype.apply matches_identifier.child rfl
  have hconstructor := (@matches_identifier source).child.map_same fun name =>
    ((none : Option TypeTree), name)
  refine .orElse (hmethod.congr rfl ?_) (hconstructor.congr rfl ?_)
  · rintro c ⟨rule, hrule, hc⟩
    obtain rfl := List.mem_singleton.mp hrule
    rw [seq_run, seq_run, map_run, map_run, perhaps, whenFound_of_eq hc, map_run]
    change ((_ <$> _ <$> Building.child .typeReference (Build.typeReference source b) c) >>= _) = _
    cases Building.child .typeReference (Build.typeReference source b) c <;> rfl
  · rintro c ⟨rule, hrule, hc⟩
    obtain rfl := List.mem_singleton.mp hrule
    rw [seq_run, map_run, perhaps, whenFound_of_ne (by simp [hc])]
    rfl

theorem matches_methodDeclaration (h : BuiltBy source r b) :
    Matches source (Grammar.methodDeclaration r)
      (Made source [.methodDeclaration] (Build.methodDeclaration source b)) := by
  have hmodifiers := (walked_modifiers h).map_same
    fun modifiers (name : Option TypeTree × Identifier) parameters throws ending =>
      MethodDeclaration.mk .empty modifiers name.1 name.2 parameters throws ending
  have hname := hmodifiers.apply (walked_methodName h) rfl
  have hparameters := hname.apply (matches_formalParameters h).child rfl
  have hthrows : Walked source (optional (throwsClause r))
      (perhaps .throwsClause (Build.typeClause source b))
      (.upTo [.throwsClause] fun o => o != some .throwsClause) (· = ·) :=
    (matches_typeClause h).perhaps
  have hwalk := (hparameters.apply hthrows rfl).apply (walked_methodEnding h) rfl
  refine Matches.walked_eq (fun t m => { m with lead := t }) (hwalk.namedBehind rfl
    (.seq (.seq (.seq (.seq (.lead _ _) _) _) _) _) ?_ .methodDeclaration) rfl fun t pair => ?_
  · exact .seq <| .seq <| .seq <| .seq <| .seq <| .map <| passesLead_lead fun _ _ _ _ _ _ _ => rfl
  · simp only [Build.methodDeclaration, seq_eq_bind_map, map_eq_pure_bind, bind_assoc, pure_bind]

/-! ## Classes -/

theorem matches_classDeclaration (h : BuiltBy source r b) :
    Matches source (Grammar.classDeclaration r)
      (Made source [.classDeclaration] (Build.classDeclaration source b)) := by
  have hkind : Walked source (wordOf .classKind ClassKind.ofKeyword?) (expect .classKind)
      (.one [.classKind]) fun found a => found.1 = a.1 ∧
        (if found.2.text source = "interface" then ClassKind.interface else .ordinary) = a.2 := by
    refine matches_wordOf.passed (passes_expect .classKind) ?_
    rintro offset xs pair ⟨t, kind⟩ - ⟨rfl, hword, hvalid⟩
    obtain hkeyword : kind.keyword = pair.text source := by simpa using List.find?_some hword
    refine ⟨_, ⟨rfl, ?_⟩, (verdict_of_none hvalid _).symm⟩
    rw [← hkeyword]
    cases kind <;> rfl
  have hclause : ∀ {rule keywordRule : Rule} {word : String},
      Walked source (optional (Grammar.typeClause r rule keywordRule word))
        (perhaps rule (Build.typeClause source b)) (.upTo [rule] fun o => o != some rule) (· = ·) :=
    (matches_typeClause h).perhaps
  refine Matches.walked_eq (x := (fun modifiers (kind : Trivia × Pair) name superclasses interfaces
        body => ClassDeclaration.mk .empty modifiers kind.1
          (if kind.2.text source = "interface" then ClassKind.interface else .ordinary) name
          superclasses interfaces body none) <$>
      Build.modifiers source b <*> expect .classKind <*>
      Building.child .identifier (Build.identifier source) <*>
      perhaps .extendsClause (Build.typeClause source b) <*>
      perhaps .implementsClause (Build.typeClause source b) <*>
      Building.child .classBody b.classBody)
    (fun t c => { c with lead := t }) (Walked.namedBehind (.apply (.apply (.apply (.apply
      (.seq (.map (walked_modifiers h) ?_) hkind rfl) matches_identifier.child rfl) hclause rfl)
      hclause rfl) h.classBody.child rfl) rfl
      (.seq (.seq (.seq (.seq (.seq (.lead _ _) _) _) _) _) _) ?_ .classDeclaration) rfl
    fun t pair => ?_
  · rintro _ modifiers rfl ⟨t, pair⟩ ⟨_, kind⟩ ⟨rfl, rfl⟩
    rfl
  · exact .seq <| .seq <| .seq <| .seq <| .seq <| .seq <| .map <|
      passesLead_lead fun _ _ _ _ _ _ _ _ => rfl
  · simp only [Build.classDeclaration, seq_eq_bind_map, map_eq_pure_bind, bind_assoc, pure_bind]

/-- The rules of the members of a class. -/
def memberRules : List Rule :=
  [.classDeclaration, .methodDeclaration, .variableDeclarations, .semicolon]

theorem matches_member (h : BuiltBy source r b) :
    Matches source (Grammar.member r) (Made source memberRules (Build.member source b)) := by
  have hclass : Matches source (Member.nested <$> Grammar.classDeclaration r)
      (Made source [.classDeclaration] (Build.member source b)) :=
    ((matches_classDeclaration h).made_map Member.nested).made_as fun _ _ _ _ => rfl
  have hmethod : Matches source (Member.method <$> Grammar.methodDeclaration r)
      (Made source [.methodDeclaration] (Build.member source b)) :=
    ((matches_methodDeclaration h).made_map Member.method).made_as fun _ _ _ _ => rfl
  have hfield : Matches source (Member.field <$> Grammar.variableDeclarations r)
      (Made source [.variableDeclarations] (Build.member source b)) :=
    ((matches_variableDeclarations h).made_map Member.field).made_as fun _ _ _ _ => rfl
  have hempty : Matches source (Member.empty <$> semicolon)
      (Made source [.semicolon] (Build.member source b)) := by
    refine (matches_symbol (by decide)).image _ ?_
    rintro offset xs ⟨_, start, stop, inner⟩ _ hrule - ⟨rfl, hvalid⟩
    obtain rfl := List.mem_singleton.mp hrule
    exact (verdict_of_none hvalid _).symm
  exact hclass.choice <| hmethod.choice <| hfield.choice hempty

theorem matches_classBody (h : BuiltBy source r b) :
    Matches source (Grammar.classBody r) (Made source [.classBody] (Build.classBody source b)) := by
  have hopen : Walked source leftBrace (Building.token .leftBrace) (.one [.leftBrace]) (· = ·) :=
    walked_delimiter (by decide)
  have hmembers : Walked source (many r.bound (Grammar.member r))
      (all (nextUnless .rightBrace "a class member") (Build.member source b))
      (.upTo memberRules fun o => o == some .rightBrace) (· = ·) :=
    (matches_member h).all (finds_nextUnless (by decide)) r.bound
  have hclose : Walked source rightBrace (Building.token .rightBrace) (.one [.rightBrace])
      (· = ·) := walked_delimiter (by decide)
  have hwalk := ((hopen.map_same ClassBody.mk).apply hmembers rfl).apply hclose rfl
  refine Matches.walked_eq (fun t body => { body with lead := t }) (hwalk.named rfl ?_ .classBody)
    rfl fun t pair => ?_
  · exact .seq <| .seq <| .map <| passesLead_symbol fun _ _ _ _ => rfl
  · simp only [Build.classBody, seq_eq_bind_map, map_eq_pure_bind, bind_assoc, pure_bind]

/-! ## Units -/

theorem matches_packageDeclaration (bound : Nat) :
    Matches source (Grammar.packageDeclaration bound)
      (Made source [.packageDeclaration] (Build.packageDeclaration source)) := by
  refine Matches.walked (x := (fun _ (found : Trivia × Pair) terminator => (found, terminator)) <$>
      Building.token .packageWord <*> expect .qualifiedName <*> Building.token .semicolon)
    (V := fun found d => ∃ t name, Build.qualifiedName source found.1.2 = .ok name ∧
      d = ⟨t, found.1.1, name, found.2⟩)
    (fun t d => { d with lead := t }) (Walked.named (.seq (.seq (.map matches_keyword.token ?_)
      (walked_qualifiedName bound) rfl) walked_semicolon rfl) rfl ?_ .packageDeclaration) rfl
    (fun t found => do
      let name ← Build.qualifiedName source found.1.2
      return ⟨t, found.1.1, name, found.2⟩) ?_ fun t pair => ?_
  · rintro t _ rfl ⟨u, pair⟩ ⟨_, name⟩ ⟨rfl, hname⟩ _ terminator rfl
    exact ⟨t, name, hname, rfl⟩
  · exact .seq <| .seq <| .map <| passesLead_keyword fun _ _ _ _ => rfl
  · rintro t ⟨⟨u, pair⟩, terminator⟩ _ ⟨v, name, hname, rfl⟩
    simp only [hname]
    rfl
  · simp only [Build.packageDeclaration, seq_eq_bind_map, map_eq_pure_bind, bind_assoc, pure_bind,
      liftM_bind, liftM_pure]

theorem matches_importDeclaration (bound : Nat) :
    Matches source (Grammar.importDeclaration bound)
      (Made source [.importDeclaration] (Build.importDeclaration source)) := by
  have hstatic : Walked source (keyword .staticWord "static") (expect .staticWord)
      (.one [.staticWord]) fun found t => found.1 = t := by
    refine matches_keyword.passed (passes_expect _) ?_
    rintro offset xs pair _ - ⟨rfl, hvalid⟩
    exact ⟨_, rfl, (verdict_of_none hvalid _).symm⟩
  have hpath : Walked source (importPath bound) (expect .importPath) (.one [.importPath])
      fun found a => found.1 = a.1.1 ∧
        pathParts source found.2.inner = .ok (a.1.2.segments, a.2) := by
    refine (matches_importPath bound).passed (passes_expect .importPath) ?_
    rintro offset xs pair ⟨⟨t, name⟩, wildcard⟩ - ⟨rfl, hparts, hvalid⟩
    exact ⟨_, ⟨rfl, hparts⟩, (verdict_of_none hvalid _).symm⟩
  refine Matches.walked (x := (fun _ (staticLead : Option (Trivia × Pair)) (found : Trivia × Pair)
        terminator => (staticLead.map Prod.fst, found, terminator)) <$>
      Building.token .importWord <*> nextIf .staticWord <*> expect .importPath <*>
      Building.token .semicolon)
    (V := fun found i => ∃ t, ∃ name : QualifiedName, ∃ wildcard,
      pathParts source found.2.1.2.inner = .ok (name.segments, wildcard) ∧
      i = ⟨t, found.1, found.2.1.1, name, wildcard, found.2.2⟩)
    (fun t i => { i with lead := t }) (Walked.named (.seq (.seq (.seq
      (.map matches_keyword.token ?_) hstatic.nextIf rfl) hpath rfl) walked_semicolon rfl) rfl ?_
      .importDeclaration) rfl
    (fun t found => do
      let parts ← pathParts source found.2.1.2.inner
      let name ← nameOf found.2.1.2 parts.1
      return ⟨t, found.1, found.2.1.1, name, parts.2, found.2.2⟩) ?_ fun t pair => ?_
  · rintro t _ rfl o o' ho ⟨u, pair⟩ ⟨⟨_, name⟩, wildcard⟩ ⟨rfl, hparts⟩ _ terminator rfl
    refine ⟨t, name, wildcard, hparts, ?_⟩
    cases ho with
    | none => rfl
    | some hfound => rw [← hfound]; rfl
  · exact .seq <| .seq <| .seq <| .map <| passesLead_keyword fun _ _ _ _ _ => rfl
  · rintro t ⟨staticLead, ⟨u, pair⟩, terminator⟩ _ ⟨v, name, wildcard, hparts, rfl⟩
    have hname := nameOf_segments pair name
    simp only [hparts]
    show (nameOf pair name.segments >>= _) = _
    rw [hname]
    rfl
  · simp only [Build.importDeclaration, seq_eq_bind_map, map_eq_pure_bind, bind_assoc, pure_bind,
      liftM_bind, liftM_pure]

/-! ## Whole texts -/

/-- The value is built of the pair of a whole text. -/
def BuiltWhole (f : Pair → Built α) : Relation α := fun offset xs ps a =>
  ∀ rule stop, f ⟨rule, offset, stop, ps⟩ = verdict offset xs a

theorem Walked.builtWhole {p : Parser α} {x : Building α} {s : Lookahead} {f : Pair → Built α}
    (h : Walked source p x s (· = ·)) (hend : s.follow none = true)
    (hf : ∀ pair, f pair = pair.walk source x) : Matches source p (BuiltWhole f) := by
  refine Matches.mono h ?_
  rintro offset xs ps _ ⟨-, -, a, rfl, hrun⟩ rule stop
  have hrun := hrun [] hend
  rw [List.append_nil] at hrun
  rw [hf, Pair.walk, hrun, verdict_map]

theorem matches_compilationUnit (h : BuiltBy source r b) :
    Matches source (Grammar.compilationUnit r) (BuiltWhole (Build.compilationUnit source b)) := by
  have hpackage := (@matches_packageDeclaration source r.bound).perhaps
  have himports := (hpackage.map_same (CompilationUnit.mk none)).apply
    ((matches_importDeclaration r.bound).all (finds_nextIf .importDeclaration) r.bound) rfl
  have hclasses := himports.apply
    ((matches_classDeclaration h).all (finds_nextIf .classDeclaration) r.bound) rfl
  have hwalk := hclasses.apply matches_endOfInput.token rfl
  refine hwalk.builtWhole rfl fun pair => ?_
  simp only [Build.compilationUnit, seq_eq_bind_map, map_eq_pure_bind, bind_assoc, pure_bind]

/-- The end of a text has a pair that is left when its value is built. -/
theorem matches_only {p : Parser α} {rules : List Rule} {g : Trivia → Pair → Built α}
    {f : Pair → Built α} (h : Matches source p (Made source rules g))
    (hf : ∀ offset pair ps rule stop, pair.rule ∈ rules →
      f ⟨rule, offset, stop, pair :: ps⟩ = g (gap source offset pair.start) pair) :
    Matches source (only p) (BuiltWhole f) := by
  refine ((h.map fun a _ => a).seq matches_endOfInput).mono ?_
  rintro offset _ _ _ ⟨xs, ys, _, _, _, _, rfl, rfl,
    ⟨a, ⟨pair, rfl, hrule, hspans, hbuild⟩, rfl⟩, ⟨eof, rfl, -, -, -, hvalid⟩, rfl⟩ rule stop
  rw [List.singleton_append, hf _ _ _ _ _ hrule, hspans.gap, hbuild, verdict_left hvalid]

theorem matches_statementText (h : BuiltBy source r b) :
    Matches source (only (Grammar.blockStatement r))
      (BuiltWhole (Build.statementText source b)) := by
  refine matches_only (matches_blockStatement h) fun offset pair ps rule stop _ => ?_
  have hpasses := Passes.bind (f := Build.statement source b)
    (passes_expectAny "a statement" [pair.rule])
  rw [Build.statementText, Pair.walk, hpasses source offset pair ps (List.mem_singleton_self _)]
  cases Build.statement source b (gap source offset pair.start) pair <;> rfl

theorem matches_expressionText (h : BuiltBy source r b) :
    Matches source (only (Grammar.expression r)) (BuiltWhole (Build.expressionText source b)) := by
  refine matches_only (matches_expression h) fun offset pair ps rule stop hrule => ?_
  rw [Build.expressionText, Pair.walk, passes_child .expression _ source offset pair ps hrule]
  cases Build.expression source b (gap source offset pair.start) pair <;> rfl

end LosslessJava.Grammar
