import LosslessJava.Proofs.Grammar.Arranging.Expression
import LosslessJava.Proofs.Grammar.Build.Text

/-!
# Arranged statements and declarations

A class body can stand in an expression, so the rules for what stands in a class body have to make
arranged nodes as well.

* `rules_arranging`: the recursive rules of every depth make arranged nodes, by induction on the
  depth.
* `parseExpression_arranged`: so everything in an expression that is read from a text is arranged.
-/

namespace LosslessJava

namespace Grammar

open Step LosslessJava.Grammar.Parser Node

variable {α β : Type} {r : Rules}

/-- A node that only wraps another node is arranged with it. -/
theorem arranging_wrap {p : Parser α} {f : α → β} {inner : α → Node} {outer : β → Node}
    (hp : Reads p fun _ a => (inner a).AllArranged) (harranged : ∀ a, (outer (f a)).Arranged)
    (hchildren : ∀ a, (outer (f a)).children = [inner a]) :
    Reads (f <$> p) fun _ b => (outer b).AllArranged := by
  apply (hp.map f).mono
  rintro xs b ⟨a, ha, rfl⟩
  exact Node.all_iff.mpr ⟨harranged a, by simpa [hchildren a] using ha⟩

/-! ## Modifiers and variables -/

theorem arranging_modifiers (hr : r.Arranging) :
    Reads (modifiers r) fun _ ms => ∀ m ∈ ms, (Node.modifier m).AllArranged := by
  have hat : Reads at_ (IsMark '@') := reads_delimiter rfl
  refine forall_many (Reads.orElse ?_ ?_)
  · apply ((((hat.map _).seq reads_qualifiedName).seq
      (forall_optional (arranging_arguments hr))).named .annotationUse).mono
    rintro xs m ⟨_, _, _, o, rfl, ⟨_, _, _, ⟨nameLead, name⟩, rfl, ⟨t, -, rfl⟩, -, rfl⟩, ho, rfl⟩
    refine Node.all_iff.mpr ⟨trivial, ?_⟩
    cases o with
    | none => simp [Node.children, Modifier.children, Delimited.optionalList]
    | some d => simpa [Node.children, Modifier.children, Delimited.optionalList] using ho
  · apply (reads_wordOf.map _).mono
    rintro xs m ⟨⟨t, k⟩, -, rfl⟩
    exact Node.all_iff.mpr ⟨trivial, by simp [Node.children, Modifier.children]⟩

theorem arranging_variableDeclarator (hr : r.Arranging) :
    Reads (variableDeclarator r) fun _ v => (Node.namedVariable v).AllArranged := by
  have hequals : Reads equals (IsSymbol "=") := reads_symbol
  have hinit : Reads (initializer r) fun _ i => (Node.initializer i).AllArranged := by
    apply ((hequals.map _).seq hr.expression).mono
    rintro xs i ⟨_, _, _, e, rfl, ⟨t, -, rfl⟩, he, rfl⟩
    exact Node.all_iff.mpr ⟨trivial, by simpa [Node.children] using he.all⟩
  apply ((((reads_identifier.map _).seq (reads_dimensions false r.bound)).seq
    (forall_optional hinit)).named .variableDeclarator).mono
  rintro xs v ⟨_, _, _, o, rfl, ⟨_, _, _, ds, rfl, ⟨i, -, rfl⟩, -, rfl⟩, ho, rfl⟩
  refine Node.all_iff.mpr ⟨trivial, ?_⟩
  simp only [Node.children, List.mem_append, List.mem_cons, List.mem_map, Option.mem_toList,
    Option.map_eq_some_iff]
  rintro k ((rfl | ⟨d, -, rfl⟩) | ⟨i, hi, rfl⟩)
  · exact allArranged_identifier _
  · exact allArranged_dimension d
  · exact ho i hi

/-- Modifiers and variables that a declaration is made of. -/
theorem allArranged_declarations {d : VariableDeclarations}
    (hm : ∀ m ∈ d.modifiers, (Node.modifier m).AllArranged)
    (hv : ∀ p ∈ d.declared, (Node.namedVariable p.element).AllArranged) :
    (Node.declarations d).AllArranged := by
  refine Node.all_iff.mpr ⟨trivial, ?_⟩
  simp only [Node.children, List.mem_append, List.mem_cons, List.mem_map]
  rintro k (⟨m, hmem, rfl⟩ | rfl | ⟨p, hp, rfl⟩)
  · exact hm m hmem
  · exact allArranged_typeTree _
  · exact hv p hp

theorem arranging_variableDeclarations (hr : r.Arranging) :
    Reads (variableDeclarations r) fun _ d => (Node.declarations d).AllArranged := by
  refine (takesLead_variableDeclarations r).gives (reads_variableDeclarations hr.sound) fun t => ?_
  apply (((((arranging_modifiers hr).map _).seq (reads_typeReference hr.sound)).seq
    (forall_separated (arranging_variableDeclarator hr))).seq (reads_semicolon.map some)).mono
  rintro xs d ⟨_, _, _, _, rfl, ⟨_, _, _, ps, rfl, ⟨_, _, _, type, rfl, ⟨ms, hms, rfl⟩, -, rfl⟩,
    hps, rfl⟩, ⟨u, -, rfl⟩, rfl⟩
  exact allArranged_declarations hms hps

theorem arranging_formalParameter (hr : r.Arranging) :
    Reads (formalParameter r) fun _ d => (Node.declarations d).AllArranged := by
  refine (takesLead_formalParameter r).gives (reads_formalParameter hr.sound) fun t => ?_
  apply ((((arranging_modifiers hr).map _).seq (reads_typeReference hr.sound)).seq
    (arranging_variableDeclarator hr)).mono
  rintro xs d ⟨_, _, _, v, rfl, ⟨_, _, _, type, rfl, ⟨ms, hms, rfl⟩, -, rfl⟩, hv, rfl⟩
  exact allArranged_declarations hms (by simpa [Padded.ofElement] using hv)

/-! ## Statements -/

theorem arranging_block (hr : r.Arranging) :
    Reads (block r) fun _ b => (Node.block b).AllArranged := by
  apply ((((reads_leftBrace.map _).seq (forall_many hr.blockStatement)).seq
    reads_rightBrace).named .block).mono
  rintro xs b ⟨_, _, _, u, rfl, ⟨_, _, _, ss, rfl, ⟨t, -, rfl⟩, hss, rfl⟩, -, rfl⟩
  exact Node.all_iff.mpr ⟨trivial, by simpa [Node.children] using hss⟩

theorem arranging_returnStatement (hr : r.Arranging) :
    Reads (returnStatement r) fun _ s => (Node.ret s).AllArranged := by
  apply ((((reads_keyword.map _).seq (forall_optional hr.expression)).seq reads_semicolon).named
    .returnStatement).mono
  rintro xs s ⟨_, _, _, u, rfl, ⟨_, _, _, o, rfl, ⟨t, -, rfl⟩, ho, rfl⟩, -, rfl⟩
  refine Node.all_iff.mpr ⟨trivial, ?_⟩
  cases o with
  | none => simp [Node.children]
  | some e => simpa [Node.children] using (ho e rfl).all

theorem arranging_condition (hr : r.Arranging) :
    Reads (condition r) fun _ c => (Node.condition c).AllArranged := by
  apply ((((reads_leftParenthesis.map _).seq hr.expression).seq reads_rightParenthesis).named
    .condition).mono
  rintro xs c ⟨_, _, _, u, rfl, ⟨_, _, _, inner, rfl, ⟨t, -, rfl⟩, hinner, rfl⟩, -, rfl⟩
  exact Node.all_iff.mpr ⟨trivial, by simpa [Node.children] using hinner.all⟩

/-- The statement is arranged, and so is everything in it. -/
abbrev MakesArranged (p : Parser Statement) : Prop :=
  Reads p fun _ s => (Node.statement s).AllArranged

theorem arranging_throwStatement (hr : r.Arranging) : MakesArranged (throwStatement r) := by
  apply ((((reads_keyword.map _).seq hr.expression).seq reads_semicolon).named
    .throwStatement).mono
  rintro xs s ⟨_, _, _, u, rfl, ⟨_, _, _, e, rfl, ⟨t, -, rfl⟩, he, rfl⟩, -, rfl⟩
  exact Node.all_iff.mpr ⟨trivial, by simpa [Node.children, Statement.children] using he.all⟩

theorem arranging_ifStatement (hr : r.Arranging) : MakesArranged (ifStatement r) := by
  have helse : Reads (elseClause r) fun _ a => (Node.statement a.2).AllArranged := by
    apply (((reads_keyword.map _).seq hr.statement).named .elseClause).mono
    rintro xs a ⟨_, _, _, s, rfl, ⟨t, -, rfl⟩, hs, rfl⟩
    exact hs
  apply (((((reads_keyword.map _).seq (arranging_condition hr)).seq hr.statement).seq
    (forall_optional helse)).named .ifStatement).mono
  rintro xs s ⟨_, _, _, o, rfl, ⟨_, _, _, thenPart, rfl, ⟨_, _, _, c, rfl, ⟨t, -, rfl⟩, hc,
    rfl⟩, hthen, rfl⟩, ho, rfl⟩
  refine Node.all_iff.mpr ⟨by cases o <;> trivial, ?_⟩
  cases o with
  | none => simpa [Node.children, Statement.children] using ⟨hc, hthen⟩
  | some a => simpa [Node.children, Statement.children] using ⟨hc, hthen, ho a rfl⟩

theorem arranging_whileStatement (hr : r.Arranging) : MakesArranged (whileStatement r) := by
  apply ((((reads_keyword.map _).seq (arranging_condition hr)).seq hr.statement).named
    .whileStatement).mono
  rintro xs s ⟨_, _, _, body, rfl, ⟨_, _, _, c, rfl, ⟨t, -, rfl⟩, hc, rfl⟩, hbody, rfl⟩
  exact Node.all_iff.mpr ⟨trivial, by simpa [Node.children, Statement.children] using ⟨hc, hbody⟩⟩

theorem arranging_expressionStatement (hr : r.Arranging) :
    MakesArranged (expressionStatement r) := by
  apply ((((arranging_expression hr).map _).seq reads_semicolon).named .expressionStatement).mono
  rintro xs s ⟨_, _, _, u, rfl, ⟨e, he, rfl⟩, -, rfl⟩
  exact Node.all_iff.mpr ⟨trivial, by simpa [Node.children, Statement.children] using he.bare.all⟩

theorem arranging_statement (hr : r.Arranging) : MakesArranged (statement r) := by
  have hblock : MakesArranged (Statement.block <$> block r) :=
    arranging_wrap (arranging_block hr) (fun _ => trivial) fun _ => rfl
  have hreturn : MakesArranged (Statement.ret <$> returnStatement r) :=
    arranging_wrap (arranging_returnStatement hr) (fun _ => trivial) fun _ => rfl
  have hempty : MakesArranged emptyStatement := by
    apply ((reads_semicolon.map _).named .emptyStatement).mono
    rintro xs s ⟨t, -, rfl⟩
    exact Node.all_iff.mpr ⟨trivial, by simp [Node.children, Statement.children]⟩
  exact hblock.orElse <| hreturn.orElse <| (arranging_throwStatement hr).orElse <|
    (arranging_ifStatement hr).orElse <| (arranging_whileStatement hr).orElse <|
    hempty.orElse (arranging_expressionStatement hr)

theorem arranging_blockStatement (hr : r.Arranging) : MakesArranged (blockStatement r) := by
  have hdeclaration : MakesArranged (Statement.declaration <$> variableDeclarations r) :=
    arranging_wrap (arranging_variableDeclarations hr) (fun _ => trivial) fun _ => rfl
  exact hdeclaration.orElse (arranging_statement hr)

/-! ## Declarations -/

theorem arranging_methodDeclaration (hr : r.Arranging) :
    Reads (methodDeclaration r) fun _ m => (Node.method m).AllArranged := by
  have hending : Reads (MethodEnding.body <$> block r <|> MethodEnding.terminator <$> semicolon)
      fun _ e => ∀ b, e.block? = some b → (Node.block b).AllArranged := by
    refine Reads.orElse (((arranging_block hr).map _).mono ?_) ((reads_semicolon.map _).mono ?_)
    · rintro xs e ⟨b, hb, rfl⟩ b' heq
      cases heq
      exact hb
    · rintro xs e ⟨t, -, rfl⟩ b' heq
      cases heq
  refine (takesLead_methodDeclaration r).gives (reads_methodDeclaration hr.sound) fun t => ?_
  apply ((((((arranging_modifiers hr).map _).seq (reads_methodName hr.sound)).seq
    ((forall_delimited (arranging_formalParameter hr)).named .formalParameters)).seq
    (reads_typeClause hr.sound).optional).seq hending).mono
  rintro xs m ⟨_, _, _, ending, rfl, ⟨_, _, _, throws, rfl, ⟨_, _, _, d, rfl, ⟨_, _, _,
    ⟨returnType, name⟩, rfl, ⟨ms, hms, rfl⟩, -, rfl⟩, hd, rfl⟩, -, rfl⟩, hending, rfl⟩
  refine Node.all_iff.mpr ⟨trivial, ?_⟩
  simp only [Node.children, List.mem_append, List.mem_cons, List.mem_map, Option.mem_toList,
    Option.map_eq_some_iff]
  rintro k ((((⟨m, hm, rfl⟩ | ⟨t, -, rfl⟩) | rfl | ⟨p, hp, rfl⟩) | ⟨l, -, rfl⟩) | ⟨b, hb, rfl⟩)
  · exact hms m hm
  · exact allArranged_typeTree t
  · exact allArranged_identifier _
  · exact hd p hp
  · exact allArranged_typeList l
  · exact hending b hb

theorem arranging_classDeclaration (hr : r.Arranging) :
    Reads (classDeclaration r) fun _ c => (Node.classDeclaration c).AllArranged := by
  refine (takesLead_classDeclaration r).gives (reads_classDeclaration hr.sound) fun t => ?_
  apply (((((((arranging_modifiers hr).map _).seq reads_wordOf).seq reads_identifier).seq
    (reads_typeClause hr.sound).optional).seq (reads_typeClause hr.sound).optional).seq
    hr.classBody).mono
  rintro xs c ⟨_, _, _, body, rfl, ⟨_, _, _, interfaces, rfl, ⟨_, _, _, superclasses, rfl,
    ⟨_, _, _, name, rfl, ⟨_, _, _, ⟨kindLead, kind⟩, rfl, ⟨ms, hms, rfl⟩, -, rfl⟩, -, rfl⟩, -,
    rfl⟩, -, rfl⟩, hbody, rfl⟩
  refine Node.all_iff.mpr ⟨trivial, ?_⟩
  simp only [Node.children, List.mem_append, List.mem_cons, List.mem_map, Option.mem_toList,
    Option.map_eq_some_iff, List.not_mem_nil, or_false]
  rintro k (((⟨m, hm, rfl⟩ | rfl | ⟨l, -, rfl⟩) | ⟨l, -, rfl⟩) | rfl)
  · exact hms m hm
  · exact allArranged_identifier _
  · exact allArranged_typeList l
  · exact allArranged_typeList l
  · exact hbody

theorem arranging_member (hr : r.Arranging) :
    Reads (member r) fun _ m => (Node.member m).AllArranged := by
  refine Reads.orElse ?nested (Reads.orElse ?method (Reads.orElse ?field ?empty))
  case nested =>
    exact arranging_wrap (arranging_classDeclaration hr) (fun _ => trivial) fun _ => rfl
  case method =>
    exact arranging_wrap (arranging_methodDeclaration hr) (fun _ => trivial) fun _ => rfl
  case field =>
    exact arranging_wrap (arranging_variableDeclarations hr) (fun _ => trivial) fun _ => rfl
  case empty =>
    apply (reads_semicolon.map _).mono
    rintro xs m ⟨t, -, rfl⟩
    exact Node.all_iff.mpr ⟨trivial, by simp [Node.children, Member.children]⟩

theorem arranging_classBody (hr : r.Arranging) :
    Reads (classBody r) fun _ b => (Node.classBody b).AllArranged := by
  apply ((((reads_leftBrace.map _).seq (forall_many (arranging_member hr))).seq reads_rightBrace).named
    .classBody).mono
  rintro xs b ⟨_, _, _, u, rfl, ⟨_, _, _, ms, rfl, ⟨t, -, rfl⟩, hms, rfl⟩, -, rfl⟩
  exact Node.all_iff.mpr ⟨trivial, by simpa [Node.children] using hms⟩

/-! ## All depths -/

theorem rules_arranging (depth : Nat) : (rules depth).Arranging := by
  induction depth with
  | zero => exact ⟨rules_sound 0, reads_fail, reads_fail, reads_fail, reads_fail, reads_fail⟩
  | succ depth ih =>
    have hsound := rules_sound (depth + 1)
    simp only [rules, later_eq] at hsound ⊢
    exact ⟨hsound, arranging_unaryExpression ih, arranging_expression ih,
      arranging_classBody ih, arranging_statement ih, arranging_blockStatement ih⟩

end Grammar

open Grammar

theorem parseExpression_arranged {source : String} {e : Expression}
    (h : parseExpression source = .ok e) : (Node.expression e).AllArranged := by
  obtain ⟨⟨rest, hparse⟩, -⟩ := (read_eq_ok buildsText_expression).mp h
  have hreads := (arranging_expression (rules_arranging
    ((Lexeme.ofText source.toList).length + 1))).seqLeft reads_endOfInput
  obtain ⟨_, -, _, _, _, _, -, ⟨f, hf, rfl⟩, -, rfl⟩ :=
    hreads _ _ _ (Lexeme.legal_ofText _) hparse
  exact hf.all

end LosslessJava
