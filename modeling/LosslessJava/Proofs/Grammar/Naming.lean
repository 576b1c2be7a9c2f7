import LosslessJava.Grammar.Text
import LosslessJava.Proofs.Grammar.Makes
import LosslessJava.Proofs.Grammar.Reading.Expression
import LosslessJava.Proofs.Tree.Naming

/-!
# Names that the grammar makes

The rules check nothing about the names that they take from a text. Where all words of the text that
are not reserved are identifiers, they still make well-named nodes only.

* `makes_dottedName`, `makes_importDeclaration`: names are made of words that are not reserved.
* `Gives`: what a parser makes of such a text.
* `Rules.Naming`: the recursive rules make well-named nodes.
* `rules_naming`: they do so at every depth, by induction on the depth.
* `gives_compilationUnit`: so does the rule for units.
-/

namespace LosslessJava

/-- If the token is a word that is not reserved, it is an identifier. -/
def Token.Naming (k : Token) : Prop :=
  ∀ w, k = .word w → reservedWords.contains w = false → isIdentifier w = true

namespace Grammar

open LosslessJava.Grammar.Parser Node

/-- From words that are reserved or identifiers the parser makes values with the property. -/
abbrev Gives {α : Type} (p : Parser α) (P : α → Prop) : Prop := Makes Token.Naming p P

variable {α β : Type} {r : Rules}

/-! ## Words -/

section

variable {Q : Token → Prop} {P : String → Prop}

theorem acceptWord_identifier
    (hword : ∀ w, Q (.word w) → reservedWords.contains w = false → P w) {ls : List Lexeme}
    {t : Trivia} {w : String} {count : Nat} (hls : ∀ l ∈ ls, Q l.token)
    (h : acceptWord asIdentifier ls = some ((t, w), count)) : P w := by
  unfold acceptWord at h
  split at h
  · rename_i lead text rest
    obtain ⟨v, hv, heq⟩ := Option.map_eq_some_iff.mp h
    obtain ⟨rfl, hreserved⟩ := asIdentifier_eq_some hv
    cases heq
    exact hword _ (hls _ List.mem_cons_self) hreserved
  · cases h

theorem makes_identifier (hword : ∀ w, Q (.word w) → reservedWords.contains w = false → P w) :
    Makes Q identifier fun i => P i.name ∧ i.type = none :=
  Makes.map (makes_token (P := fun a => P a.2)
    fun _ _ _ hls h => acceptWord_identifier hword hls h) fun _ h => ⟨h, rfl⟩

theorem makes_dottedName (hword : ∀ w, Q (.word w) → reservedWords.contains w = false → P w)
    {bound : Nat} : Makes Q (dottedName bound) fun a => ∀ w ∈ a.2.segments, P w := by
  have hsecond : Makes Q (tightToken .identifier (acceptWord asIdentifier)) fun a => P a.2 :=
    makes_tightToken fun _ _ _ hls h => acceptWord_identifier hword hls h
  have hsegment : Makes Q segment P := makes_tightMark.seqRight (hsecond.map fun _ h => h)
  refine ((makes_identifier hword).map ?_).seq hsegment.many
  intro i hi rest hrest
  exact List.forall_mem_cons.mpr ⟨hi.1, hrest⟩

theorem makes_importDeclaration
    (hword : ∀ w, Q (.word w) → reservedWords.contains w = false → P w) {bound : Nat} :
    Makes Q (importDeclaration bound) fun i => ∀ w ∈ i.name.segments, P w := by
  have hpath : Makes Q (importPath bound) fun a => ∀ w ∈ a.1.2.segments, P w :=
    (((makes_dottedName hword).map fun _ hname _ _ => hname).seq
      (Makes.optional (P := fun _ => True) (makes_tightToken fun _ _ _ _ _ => trivial))).compound
  refine ((((makes_keyword.map ?_).seq makes_keyword.optional).seq hpath).seq makes_any).named
  rintro lead - staticLead - ⟨⟨nameLead, name⟩, wildcard⟩ hname terminator -
  exact hname

end

theorem gives_identifier :
    Gives identifier fun i => isIdentifier i.name = true ∧ i.type = none :=
  makes_identifier (P := fun w => isIdentifier w = true) fun w hw => hw w rfl

theorem gives_named_identifier : Gives identifier fun i => (Node.identifier i).Named :=
  gives_identifier.mono fun _ h => named_identifier h.1 h.2

theorem gives_dottedName {bound : Nat} : Gives (dottedName bound) fun a => a.2.Legal :=
  makes_dottedName fun w hw => hw w rfl

theorem gives_qualifiedName {bound : Nat} : Gives (qualifiedName bound) fun a => a.2.Legal :=
  gives_dottedName.compound

/-! ## The recursive rules -/

/-- The recursive rules make well-named nodes. -/
structure Rules.Naming (r : Rules) : Prop where
  type : Gives r.type fun t => (Node.typeTree t).Named
  unary : Gives r.unary fun e => (Node.expression e).Named
  expression : Gives r.expression fun e => (Node.expression e).Named
  classBody : Gives r.classBody fun b => (Node.classBody b).Named
  statement : Gives r.statement fun s => (Node.statement s).Named
  blockStatement : Gives r.blockStatement fun s => (Node.statement s).Named

/-! ## Types -/

theorem gives_typeArguments (hr : r.Naming) :
    Gives (typeArguments r) fun d => ∀ t ∈ d.toList, (Node.typeTree t).Named := by
  have hbound : Gives (wildcardBound r) fun b => (Node.wildcardBound b).Named := by
    refine (makes_any.map ?_).seq hr.type
    intro _ _ t ht
    exact named_plain (by simp) rfl (by simpa [Node.children] using ht)
  have hwildcard : Gives (wildcardType r) fun t => (Node.typeTree t).Named := by
    refine ((makes_any.map ?_).seq hbound.optional).named
    intro _ _ bound hbound
    refine named_of (by simp) (by simp [TypeTree.name?]) ?_
    cases bound with
    | none => simp [Node.children, TypeTree.bound?, Delimited.optionalList]
    | some b => simpa [Node.children, TypeTree.bound?, Delimited.optionalList] using hbound
  exact makes_delimited (hwildcard.orElse hr.type)

theorem gives_typeHead (hr : r.Naming) :
    Gives (typeHead r) fun f => ∀ ds, (Node.typeTree (f ds)).Named := by
  refine Makes.orElse (makes_any.map ?primitive)
    ((gives_qualifiedName.map ?named).seq (gives_typeArguments hr).optional)
  case primitive =>
    rintro ⟨lead, p⟩ - ds
    refine named_of (by simp) ?_ ?_
    · simp [primitiveArray, TypeTree.name?, JavaType.names]
    · simp [primitiveArray, Node.children, TypeTree.bound?, Delimited.optionalList]
  case named =>
    rintro ⟨lead, name⟩ hname arguments harguments ds
    refine named_of (by simp) (by simpa [TypeTree.name?] using hname) ?_
    cases arguments with
    | none => simp [Node.children, TypeTree.bound?, Delimited.optionalList]
    | some d =>
      have hd := harguments d rfl
      simpa [Node.children, TypeTree.bound?, Delimited.optionalList, or_imp, forall_and] using hd

theorem gives_dimensions {bound : Nat} : Gives (dimensions bound) fun _ => True :=
  (((makes_any.map fun _ _ _ _ => trivial).seq makes_any).named (P := fun _ => True)).many.mono
    fun _ _ => trivial

theorem gives_typeReference (hr : r.Naming) :
    Gives (typeReference r) fun t => (Node.typeTree t).Named :=
  (((gives_typeHead hr).mono fun _ h ds _ => h ds).seq gives_dimensions).named

/-! ## Expressions -/

theorem gives_arguments (hr : r.Naming) :
    Gives (arguments r) fun d => ∀ e ∈ d.toList, (Node.expression e).Named :=
  (makes_delimited hr.expression).named

theorem gives_primary (hr : r.Naming) :
    Gives (primary r) fun e => (Node.expression e).Named := by
  refine Makes.orElse ?literal <| Makes.orElse ?self <| Makes.orElse ?newClass <|
    Makes.orElse ?call <| Makes.orElse ?identifier ?parentheses
  case literal =>
    have hliteral : Gives literal fun _ => True :=
      makes_any.orElse <| makes_any.orElse <| makes_any.orElse <| makes_any.orElse <|
        (makes_any.map fun _ h => h).orElse (makes_keyword.map fun _ h => h)
    exact hliteral.map fun l _ => named_expression rfl (by simp [Expression.children])
  case self =>
    exact makes_keyword.map fun _ _ => named_expression rfl (by simp [Expression.children])
  case newClass =>
    refine ((((makes_keyword.map ?_).seq hr.type).seq (gives_arguments hr)).seq
      hr.classBody.optional).named
    intro lead _ type htype d hd body hbody
    refine named_expression rfl ?_
    simpa [Expression.children, or_imp, forall_and] using ⟨htype, hd, hbody⟩
  case call =>
    refine ((gives_named_identifier.map ?_).seq (gives_arguments hr)).named
    intro i hi d hd
    refine named_expression rfl ?_
    simpa [Expression.children, Expression.ofCall] using ⟨named_withLead hi .empty, hd⟩
  case identifier =>
    exact gives_named_identifier.map fun i hi =>
      named_expression rfl (by simpa [Expression.children] using hi)
  case parentheses =>
    refine (((makes_any.map ?_).seq hr.expression).seq makes_any).named
    intro lead _ inner hinner close _
    exact named_expression rfl (by simpa [Expression.children] using hinner)

/-- Behind a well-named target a selector makes a well-named expression. -/
theorem gives_selector (hr : r.Naming) :
    Gives (selector r) fun s => ∀ e : Expression, (Node.expression e).Named →
      (Node.expression (e.select s)).Named := by
  refine Makes.orElse
    ((((makes_any.map ?call).seq gives_named_identifier).seq
      ((gives_arguments hr).map (R := fun o => ∃ d, o = some d ∧
        ∀ e ∈ d.toList, (Node.expression e).Named) fun d hd => ⟨d, rfl, hd⟩)).named)
    (((makes_any.map ?field).seq gives_named_identifier).named)
  case call =>
    rintro dotLead - i hi _ ⟨d, rfl, hd⟩ e he
    refine named_expression rfl ?_
    simpa [Expression.children, Expression.select] using ⟨named_bare he, hi, hd⟩
  case field =>
    intro dotLead _ i hi e he
    refine named_expression rfl ?_
    simpa [Expression.children, Expression.select] using ⟨named_bare he, hi⟩

theorem gives_postfixExpression (hr : r.Naming) :
    Gives (postfixExpression r) fun e => (Node.expression e).Named := by
  refine (((gives_primary hr).map ?_).seq (gives_selector hr).many).named
  intro first hfirst ss hss
  induction ss generalizing first with
  | nil => exact hfirst
  | cons s ss ih =>
    exact ih (first.select s) (hss s List.mem_cons_self first hfirst) fun t ht =>
      hss t (List.mem_cons_of_mem s ht)

theorem gives_unaryExpression (hr : r.Naming) :
    Gives (unaryExpression r) fun e => (Node.expression e).Named := by
  refine (Makes.orElse ((makes_any.map ?_).seq hr.unary)
    (((gives_postfixExpression hr).map ?_).seq
      (Makes.optional (P := fun _ => True) makes_any))).named
  · intro _ _ operand hoperand
    exact named_expression rfl (by simpa [Expression.children] using hoperand)
  · intro operand hoperand o _
    cases o with
    | none => exact hoperand
    | some o =>
      refine named_expression rfl ?_
      simpa [Expression.children, Expression.ofPostfixed] using named_bare hoperand

theorem named_attach {left right : Expression} (hleft : (Node.expression left).Named)
    (hright : (Node.expression right).Named) (t : Trivia) (o : BinaryOperator) :
    (Node.expression (left.attach t o right)).Named := by
  have hof : ∀ e : Expression, (Node.expression e).Named →
      (Node.expression (e.ofBinary t o right)).Named := by
    intro e he
    refine named_expression rfl ?_
    simpa [Expression.children, Expression.ofBinary] using ⟨named_bare he, hright⟩
  fun_induction Expression.attach left t o right with
  | case1 lead first lastLead last second _ ih =>
    have hchildren := (all_iff.mp hleft).2
    simp only [Node.children, Expression.children, List.forall_mem_cons] at hchildren
    exact named_expression rfl
      (by simpa [Expression.children] using ⟨hchildren.1, ih hchildren.2.1⟩)
  | case2 => exact hof _ hleft
  | case3 => exact hof _ hleft

theorem gives_expression (hr : r.Naming) :
    Gives (expression r) fun e => (Node.expression e).Named := by
  have hbinary : Gives binaryOperator fun _ => True := by
    unfold binaryOperator
    induction binaryOperators with
    | nil => exact makes_fail
    | cons o os ih => exact (makes_any.map fun _ h => h).orElse ih
  have hchain : Gives (chain r) fun rest => ∀ a ∈ rest, (Node.expression a.2).Named :=
    ((hbinary.map fun _ _ _ ha => ha).seq (gives_unaryExpression hr)).many.around
  have hbranches : Gives (branches r) fun f => ∀ e : Expression, (Node.expression e).Named →
      (Node.expression (f e)).Named := by
    refine (((makes_any.map ?_).seq hr.expression).seq makes_any).seq hr.expression
    intro _ _ thenPart hthen _ _ elsePart helse e he
    refine named_expression rfl ?_
    simpa [Expression.children, Expression.ofConditional] using ⟨named_bare he, hthen, helse⟩
  have hassigned : Gives (assigned r) fun f => ∀ e : Expression, (Node.expression e).Named →
      (Node.expression (f e)).Named := by
    refine ((makes_any.map ?_).seq hr.expression).around
    intro _ _ value hvalue e he
    refine named_expression rfl ?_
    simpa [Expression.children, Expression.ofAssignment] using ⟨named_bare he, hvalue⟩
  have hcomputed : Gives (computed r) fun f => ∀ e : Expression, (Node.expression e).Named →
      (Node.expression (f e)).Named := by
    refine ((hchain.map ?_).seq hbranches.optional).around
    intro rest hrest o ho e he
    have hof : (Node.expression (Expression.ofChain e rest)).Named := by
      induction rest generalizing e with
      | nil => exact he
      | cons a rest ih =>
        exact ih (fun b hb => hrest b (List.mem_cons_of_mem a hb)) _
          (named_attach he (hrest a List.mem_cons_self) _ _)
    cases o with
    | none => exact hof
    | some f => exact ho f rfl _ hof
  exact (((gives_unaryExpression hr).map fun _ he _ hf => hf _ he).seq
    (hassigned.orElse hcomputed)).summary

/-! ## Modifiers and variables -/

theorem gives_modifiers (hr : r.Naming) :
    Gives (modifiers r) fun ms => ∀ m ∈ ms, (Node.modifier m).Named := by
  refine Makes.many (Makes.orElse
    (((makes_any.map ?annotated).seq gives_qualifiedName).seq (gives_arguments hr).optional).named
    (makes_any.map ?keyword))
  case annotated =>
    rintro _ - ⟨nameLead, name⟩ hname o ho
    refine named_of (by simp) (List.forall_mem_cons.mpr ⟨hname, List.forall_mem_nil _⟩) ?_
    cases o with
    | none => simp [Node.children, Modifier.children, Delimited.optionalList]
    | some d => simpa [Node.children, Modifier.children, Delimited.optionalList] using ho
  case keyword =>
    rintro ⟨lead, kind⟩ -
    exact named_plain (by simp) rfl (by simp [Node.children, Modifier.children])

theorem gives_variableDeclarator (hr : r.Naming) :
    Gives (variableDeclarator r) fun v => (Node.namedVariable v).Named := by
  have hinitializer : Gives (initializer r) fun i => (Node.initializer i).Named := by
    refine (makes_any.map ?_).seq hr.expression
    intro lead _ e he
    exact named_plain (by simp) rfl (by simpa [Node.children] using he)
  refine (((gives_named_identifier.map ?_).seq gives_dimensions).seq hinitializer.optional).named
  intro i hi ds _ o ho
  refine named_plain (by simp) rfl ?_
  simp only [Node.children, List.mem_append, List.mem_cons, List.mem_map, Option.mem_toList,
    Option.map_eq_some_iff]
  rintro k ((rfl | ⟨d, -, rfl⟩) | ⟨i, hi, rfl⟩)
  · exact named_withLead hi .empty
  · exact named_dimension d
  · exact ho i hi

/-- Modifiers, a type and variables make a well-named declaration. -/
theorem named_declarations {d : VariableDeclarations}
    (hm : ∀ m ∈ d.modifiers, (Node.modifier m).Named) (ht : (Node.typeTree d.type).Named)
    (hv : ∀ p ∈ d.declared, (Node.namedVariable p.element).Named) :
    (Node.declarations d).Named := by
  refine named_plain (by simp) rfl ?_
  simp only [Node.children, List.mem_append, List.mem_cons, List.mem_map]
  rintro k (⟨m, hmem, rfl⟩ | rfl | ⟨p, hp, rfl⟩)
  · exact hm m hmem
  · exact ht
  · exact hv p hp

theorem gives_variableDeclarations (hr : r.Naming) :
    Gives (variableDeclarations r) fun d => (Node.declarations d).Named := by
  refine (((((makes_lead.map ?_).seq (gives_modifiers hr)).seq (gives_typeReference hr)).seq
    (makes_separated (gives_variableDeclarator hr))).seq
    (makes_any.map (R := fun _ => True) fun _ h => h)).named
  intro lead _ ms hms type htype ps hps terminator _
  exact named_declarations hms htype hps

theorem gives_formalParameter (hr : r.Naming) :
    Gives (formalParameter r) fun d => (Node.declarations d).Named := by
  refine ((((makes_lead.map ?_).seq (gives_modifiers hr)).seq (gives_typeReference hr)).seq
    (gives_variableDeclarator hr)).named
  intro lead _ ms hms type htype v hv
  exact named_declarations hms htype (by simpa [Padded.ofElement] using hv)

/-! ## Statements -/

theorem gives_block (hr : r.Naming) : Gives (block r) fun b => (Node.block b).Named := by
  refine (((makes_any.map ?_).seq hr.blockStatement.many).seq makes_any).named
  intro lead _ ss hss close _
  exact named_plain (by simp) rfl (by simpa [Node.children] using hss)

theorem gives_condition (hr : r.Naming) :
    Gives (condition r) fun c => (Node.condition c).Named := by
  refine (((makes_any.map ?_).seq hr.expression).seq makes_any).named
  intro lead _ e he close _
  exact named_plain (by simp) rfl (by simpa [Node.children] using he)

theorem gives_statement (hr : r.Naming) :
    Gives (statement r) fun s => (Node.statement s).Named := by
  refine Makes.orElse ?block <| Makes.orElse ?ret <| Makes.orElse ?throwing <|
    Makes.orElse ?branch <| Makes.orElse ?loop <| Makes.orElse ?empty ?expression
  case block =>
    exact (gives_block hr).map fun b hb =>
      named_statement (by simpa [Statement.children] using hb)
  case ret =>
    have hreturn : Gives (returnStatement r) fun s => (Node.ret s).Named := by
      refine (((makes_keyword.map ?_).seq hr.expression.optional).seq makes_any).named
      intro lead _ o ho close _
      refine named_plain (by simp) rfl ?_
      simpa [Node.children] using ho
    exact hreturn.map fun s hs => named_statement (by simpa [Statement.children] using hs)
  case throwing =>
    refine (((makes_keyword.map ?_).seq hr.expression).seq makes_any).named
    intro lead _ e he close _
    exact named_statement (by simpa [Statement.children] using he)
  case branch =>
    have helse : Gives (elseClause r) fun a => (Node.statement a.2).Named :=
      ((makes_keyword.map fun _ _ _ hs => hs).seq hr.statement).named
    refine ((((makes_keyword.map ?_).seq (gives_condition hr)).seq hr.statement).seq
      helse.optional).named
    intro lead _ c hc thenPart hthen o ho
    cases o with
    | none => exact named_statement (by simpa [Statement.children] using ⟨hc, hthen⟩)
    | some a => exact named_statement (by simpa [Statement.children] using ⟨hc, hthen, ho a rfl⟩)
  case loop =>
    refine (((makes_keyword.map ?_).seq (gives_condition hr)).seq hr.statement).named
    intro lead _ c hc body hbody
    exact named_statement (by simpa [Statement.children] using ⟨hc, hbody⟩)
  case empty =>
    refine (makes_any.map ?_).named
    exact fun _ _ => named_statement (by simp [Statement.children])
  case expression =>
    refine (((gives_expression hr).map ?_).seq makes_any).named
    intro e he terminator _
    exact named_statement (by simpa [Statement.children] using named_bare he)

theorem gives_blockStatement (hr : r.Naming) :
    Gives (blockStatement r) fun s => (Node.statement s).Named :=
  Makes.orElse ((gives_variableDeclarations hr).map fun d hd =>
    named_statement (by simpa [Statement.children] using hd)) (gives_statement hr)

/-! ## Declarations -/

theorem gives_typeClause (hr : r.Naming) {rule keywordRule : Rule} {word : String} :
    Gives (typeClause r rule keywordRule word) fun l => (Node.typeList l).Named := by
  refine ((makes_keyword.map ?_).seq (makes_separated (gives_typeReference hr))).named
  intro lead _ ts hts
  exact named_plain (by simp) rfl (by simpa [Node.children] using hts)

theorem gives_methodDeclaration (hr : r.Naming) :
    Gives (methodDeclaration r) fun m => (Node.method m).Named := by
  have hname : Gives (methodName r) fun a =>
      (∀ t ∈ a.1, (Node.typeTree t).Named) ∧ (Node.identifier a.2).Named :=
    Makes.orElse
      (((gives_typeReference hr).map fun _ ht _ hi =>
        ⟨fun _ h => Option.some.inj h ▸ ht, hi⟩).seq gives_named_identifier)
      (gives_named_identifier.map fun _ hi => ⟨by simp, hi⟩)
  have hending : Gives (MethodEnding.body <$> block r <|> MethodEnding.terminator <$> semicolon)
      fun e => ∀ b, e.block? = some b → (Node.block b).Named :=
    Makes.orElse ((gives_block hr).map fun _ hb _ h => Option.some.inj h ▸ hb)
      (makes_any.map fun _ _ => by simp [MethodEnding.block?])
  refine ((((((makes_lead.map ?_).seq (gives_modifiers hr)).seq hname).seq
    (makes_delimited (gives_formalParameter hr)).named).seq (gives_typeClause hr).optional).seq
    hending).named
  rintro lead - ms hms ⟨returnType, name⟩ ⟨htype, hname⟩ d hd throws hthrows ending hending
  refine named_plain (by simp) rfl ?_
  simp only [Node.children, List.mem_append, List.mem_cons, List.mem_map, Option.mem_toList,
    Option.map_eq_some_iff]
  rintro k ((((⟨m, hm, rfl⟩ | ⟨t, ht, rfl⟩) | rfl | ⟨p, hp, rfl⟩) | ⟨l, hl, rfl⟩) | ⟨b, hb, rfl⟩)
  · exact hms m hm
  · exact htype t ht
  · exact hname
  · exact hd p hp
  · exact hthrows l hl
  · exact hending b hb

theorem gives_classDeclaration (hr : r.Naming) :
    Gives (classDeclaration r) fun c => (Node.classDeclaration c).Named := by
  refine (((((((makes_lead.map ?_).seq (gives_modifiers hr)).seq makes_any).seq
    gives_named_identifier).seq (gives_typeClause hr).optional).seq
    (gives_typeClause hr).optional).seq hr.classBody).named
  rintro lead - ms hms ⟨kindLead, kind⟩ - name hname superclasses hsuper interfaces hinterfaces
    body hbody
  refine named_plain (by simp) rfl ?_
  simp only [Node.children, List.mem_append, List.mem_cons, List.mem_map, Option.mem_toList,
    Option.map_eq_some_iff, List.not_mem_nil, or_false]
  rintro k (((⟨m, hm, rfl⟩ | rfl | ⟨l, hl, rfl⟩) | ⟨l, hl, rfl⟩) | rfl)
  · exact hms m hm
  · exact hname
  · exact hsuper l hl
  · exact hinterfaces l hl
  · exact hbody

theorem gives_member (hr : r.Naming) : Gives (member r) fun m => (Node.member m).Named := by
  refine Makes.orElse ((gives_classDeclaration hr).map ?nested) <|
    Makes.orElse ((gives_methodDeclaration hr).map ?method) <|
    Makes.orElse ((gives_variableDeclarations hr).map ?field) (makes_any.map ?empty)
  case nested => exact fun c hc => named_member (by simpa [Member.children] using hc)
  case method => exact fun m hm => named_member (by simpa [Member.children] using hm)
  case field => exact fun d hd => named_member (by simpa [Member.children] using hd)
  case empty => exact fun _ _ => named_member (by simp [Member.children])

theorem gives_classBody (hr : r.Naming) :
    Gives (classBody r) fun b => (Node.classBody b).Named := by
  refine (((makes_any.map ?_).seq (gives_member hr).many).seq makes_any).named
  intro lead _ ms hms close _
  exact named_plain (by simp) rfl (by simpa [Node.children] using hms)

/-! ## All depths -/

theorem rules_naming (depth : Nat) : (rules depth).Naming := by
  induction depth with
  | zero => exact ⟨makes_fail, makes_fail, makes_fail, makes_fail, makes_fail, makes_fail⟩
  | succ depth ih =>
    simp only [rules, later_eq]
    exact ⟨gives_typeReference ih, gives_unaryExpression ih, gives_expression ih,
      gives_classBody ih, gives_statement ih, gives_blockStatement ih⟩

/-! ## Units -/

theorem gives_compilationUnit (hr : r.Naming) :
    Gives (compilationUnit r) fun u => (Node.unit u).Named := by
  have hpackage : Gives (packageDeclaration r.bound) fun d => (Node.package d).Named := by
    refine (((makes_keyword.map ?_).seq gives_qualifiedName).seq makes_any).named
    rintro lead - ⟨nameLead, name⟩ hname terminator -
    exact named_of (by simp) (by simpa using hname) (by simp [Node.children])
  have himport : Gives (importDeclaration r.bound) fun i => (Node.importDeclaration i).Named :=
    (makes_importDeclaration (P := fun w => isIdentifier w = true) fun w hw => hw w rfl).mono
      fun i hname =>
        named_of (by simp) (by simpa [QualifiedName.Legal] using hname) (by simp [Node.children])
  refine (((hpackage.optional.map ?_).seq himport.many).seq (gives_classDeclaration hr).many).seq
    makes_any
  intro package hpackage imports himports classes hclasses tail _
  refine named_plain (by simp) rfl ?_
  simp only [Node.children, List.mem_append, List.mem_map, Option.mem_toList,
    Option.map_eq_some_iff]
  rintro k ((⟨d, hd, rfl⟩ | ⟨i, hi, rfl⟩) | ⟨c, hc, rfl⟩)
  · exact hpackage d hd
  · exact himports i hi
  · exact hclasses c hc

end Grammar

end LosslessJava
