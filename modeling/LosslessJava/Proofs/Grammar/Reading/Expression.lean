import LosslessJava.Grammar.Expression
import LosslessJava.Proofs.Grammar.Reading.Type

/-!
# Readings of expressions

An operand in front of an operator, a selector or a question mark becomes the first child of a new
node and gives its lead to that node (`Reading.barePiece`). A chain of operands is arranged by
precedence only after it is read; `text_attach` and `all_tidy_attach` say that this moves no text
and leaves everything tidy.

* `reads_expression`: the rule reads an expression.
-/

namespace LosslessJava

open Step

namespace Expression

/-! ## Leads of operands -/

theorem gap_lead {e : Expression} (h : (Node.expression e).All Node.Tidy) :
    Lex.IsGap false e.lead.toList := by
  cases e with
  | literal l => exact (h.child (List.mem_singleton_self _)).self.gaps _ (List.mem_singleton_self _)
  | identifier i =>
    exact (h.child (List.mem_singleton_self _)).self.gaps _ (List.mem_singleton_self _)
  | _ => exact h.self.gaps _ List.mem_cons_self

theorem closes_steps {e : Expression} (h : (Node.expression e).All Node.Tidy) :
    Closes e.steps :=
  @Whole.closes e.lead _ h.self.shaped

/-- The first operand of a tidy expression has no lead. -/
theorem whole_first {lead : Trivia} {first : Expression} {ss : List Step}
    (h : Whole lead (.trivia lead :: first.steps ++ ss))
    (hfirst : (Node.expression first).All Node.Tidy) : Whole .empty first.steps := by
  have hw : Whole first.lead first.steps := hfirst.self.shaped
  obtain ⟨rest, heq, hb, -⟩ := h
  cases heq
  obtain ⟨tail, htail, hb', hc⟩ := hw
  rw [htail] at hb ⊢
  rw [hb.of_trivia.1]
  exact ⟨tail, rfl, hb', hc⟩

/-! ## Operators behind operands -/

theorem text_ofBinary (left : Expression) (operatorLead : Trivia) (operator : BinaryOperator)
    (right : Expression) :
    text (left.ofBinary operatorLead operator right).steps =
      text left.steps ++ text (spaced operatorLead operator.symbol) ++ text right.steps := by
  simp only [ofBinary, steps, text_append, text_cons, chars, text_bare left, List.append_assoc,
    List.cons_append]

theorem all_tidy_binary {lead operatorLead : Trivia} {left right : Expression}
    {operator : BinaryOperator} (hlead : Lex.IsGap false lead.toList)
    (hl : (Node.expression left).All Node.Tidy) (hw : Whole .empty left.steps)
    (ht : Lex.IsGap false operatorLead.toList) (hr : (Node.expression right).All Node.Tidy) :
    (Node.expression (.binary lead left operatorLead operator right)).All Node.Tidy := by
  refine Node.all_iff.mpr ⟨⟨?_, ?_⟩, ?_⟩
  · have hclose := (closes_steps hr).append (spaced operatorLead operator.symbol)
    have := (hw.cons lead).append hclose
    rwa [← List.append_assoc] at this
  · intro t htm
    simp only [Node.trivia, trivia, List.mem_cons, List.not_mem_nil, or_false] at htm
    rcases htm with rfl | rfl
    · exact hlead
    · exact ht
  · intro k hk
    simp only [Node.children, children, List.mem_cons, List.not_mem_nil, or_false] at hk
    rcases hk with rfl | rfl
    · exact hl
    · exact hr

theorem all_tidy_ofBinary {left right : Expression} {operatorLead : Trivia}
    {operator : BinaryOperator} (hl : (Node.expression left).All Node.Tidy)
    (ht : Lex.IsGap false operatorLead.toList) (hr : (Node.expression right).All Node.Tidy) :
    (Node.expression (left.ofBinary operatorLead operator right)).All Node.Tidy :=
  all_tidy_binary (gap_lead hl) (all_tidy_bare hl) (whole_bare hl) ht hr

theorem lead_attach (left : Expression) (operatorLead : Trivia) (operator : BinaryOperator)
    (right : Expression) : (left.attach operatorLead operator right).lead = left.lead := by
  fun_cases attach left operatorLead operator right with
  | case1 => rfl
  | case2 => rfl
  | case3 => rfl

/-- An operator goes into a chain without moving any text. -/
theorem text_attach (left : Expression) (operatorLead : Trivia) (operator : BinaryOperator)
    (right : Expression) :
    text (left.attach operatorLead operator right).steps =
      text left.steps ++ text (spaced operatorLead operator.symbol) ++ text right.steps := by
  fun_induction attach left operatorLead operator right with
  | case1 lead first lastLead last second hlt ih =>
    simp only [steps, text_append, text_cons, ih, List.append_assoc, List.cons_append]
  | case2 lead first lastLead last second hlt => exact text_ofBinary _ _ _ _
  | case3 left hne => exact text_ofBinary _ _ _ _

theorem all_tidy_attach {left right : Expression} {operatorLead : Trivia}
    {operator : BinaryOperator} (hl : (Node.expression left).All Node.Tidy)
    (ht : Lex.IsGap false operatorLead.toList) (hr : (Node.expression right).All Node.Tidy) :
    (Node.expression (left.attach operatorLead operator right)).All Node.Tidy := by
  fun_induction attach left operatorLead operator right with
  | case1 lead first lastLead last second hlt ih =>
    have hfirst : (Node.expression first).All Node.Tidy :=
      hl.child (by simp [Node.children, children])
    have hsecond : (Node.expression second).All Node.Tidy :=
      hl.child (by simp [Node.children, children])
    have hgaps := hl.self.gaps
    have hshape : Whole lead (.trivia lead :: first.steps ++ spaced lastLead last.symbol ++
      second.steps) := hl.self.shaped
    rw [List.append_assoc] at hshape
    exact all_tidy_binary (hgaps _ (by simp [Node.trivia, trivia])) hfirst
      (whole_first hshape hfirst) (hgaps _ (by simp [Node.trivia, trivia])) (ih hsecond)
  | case2 lead first lastLead last second hlt => exact all_tidy_ofBinary hl ht hr
  | case3 left hne => exact all_tidy_ofBinary hl ht hr

end Expression

namespace Grammar

open LosslessJava.Grammar.Parser

variable {r : Rules}

/-- The lexemes are the expression. -/
abbrev IsExpression (xs : List Lexeme) (e : Expression) : Prop := Reading false (.expression e) xs

namespace Reading

variable {s : Bool} {e : Expression} {xs ys : List Lexeme}

theorem closes (h : Reading s (.expression e) xs) : Closes e.steps := Expression.closes_steps h.tidy

/-- An operand that gives its lead to its parent. -/
theorem barePiece (h : Reading s (.expression e) xs) :
    Piece s (.trivia e.lead :: e.bare.steps) [.expression e.bare] [e.lead] xs := by
  refine ⟨?_, ?_, ?_, h.phrase⟩
  · rw [text_cons, chars, ← Expression.text_bare]
    exact h.text
  · intro n hn
    rw [List.mem_singleton.mp hn]
    exact Expression.all_tidy_bare h.tidy
  · intro t ht
    rw [List.mem_singleton.mp ht]
    exact Expression.gap_lead h.tidy

/-- What follows an operand that gives its lead to its parent. -/
theorem whole_bare_append (h : Reading s (.expression e) xs) {ss : List Step} (hc : Closes ss) :
    Whole e.lead (.trivia e.lead :: e.bare.steps ++ ss) :=
  ((Expression.whole_bare h.tidy).cons e.lead).append hc

end Reading

/-! ## Primary expressions -/

theorem reads_arguments (hr : r.Sound) :
    Reads (arguments r) fun xs d => IsDelimited "(" ")" .expression xs d :=
  (reads_parenthesized hr.expression).named .arguments

/-- The steps of arguments end with their parenthesis. -/
theorem closes_arguments (d : Delimited Expression) (ss : List Step) :
    Closes (ss ++ spaced d.close ")") :=
  (closes_spaced (crisp_delimiter ")" (by decide)) d.close).append ss

theorem isExpression_literal {xs : List Lexeme} {l : Literal} (h : IsLiteral xs l) :
    IsExpression xs (.literal l) := by
  have hl := h.reading false
  exact hl.wrap rfl rfl rfl rfl hl.shaped

theorem isExpression_identifier {xs : List Lexeme} {i : Identifier} (h : IsName xs i) :
    IsExpression xs (.identifier i) := by
  have hi := h.reading false
  exact hi.wrap rfl rfl rfl rfl hi.shaped

theorem reads_thisExpression : Reads thisExpression IsExpression := by
  apply (reads_keyword.map _).mono
  rintro xs e ⟨t, ht, rfl⟩
  exact .of_piece (ht.piece false) rfl (by simp [Node.children, Expression.children])
    (by simp [Node.trivia, Expression.trivia]) (Whole.spaced ht.crisp t) (ht.opens (by decide))

theorem reads_newClass (hr : r.Sound) : Reads (newClass r) IsExpression := by
  apply ((((reads_keyword.map _).seq hr.type).seq (reads_arguments hr)).seq
    hr.classBody.optional |>.named .newClass).mono
  rintro xs e ⟨_, ds, _, body, rfl, ⟨_, cs, _, d, rfl, ⟨ks, ts, _, type, rfl, ⟨lead, hk, rfl⟩,
    htype, rfl⟩, hd, rfl⟩, hbody, rfl⟩
  have hopens := (((hk.opens (by decide)).append ts).append cs).append ds
  have hsteps : ∀ b : Option ClassBody,
      (Node.expression (.newClass lead type d b)).steps = spaced lead "new" ++ type.steps ++
        (spaced d.before "(" ++ Padded.steps Expression.steps d.elements ++ spaced d.close ")") ++
        ((b.map fun b => (Node.classBody b).steps).getD []) := by
    intro b
    obtain ⟨before, elements, close⟩ := d
    cases b <;>
      simp [Node.steps, Expression.steps, Expression.listSteps_eq, spaced, List.append_assoc]
  have hbody' := piece_perhaps .classBody (fun _ _ h => h) hbody
  refine .of_piece ((((hk.piece false).append htype.piece).append (hd false)).append hbody')
    ?_ ?_ ?_ ?_ hopens
  · rw [hsteps]
    rfl
  · simp [Node.children, Expression.children]
  · simp [Node.trivia, Expression.trivia]
  · show Whole lead (Node.steps _)
    rw [hsteps]
    refine Whole.append_optional ?_ ?_
    · rw [List.append_assoc]
      exact Whole.spaced_append hk.crisp lead ((closes_arguments d _).append _)
    · cases hbody with
      | none => exact Or.inl rfl
      | some hb => exact Or.inr (Whole.closes hb.shaped)

theorem reads_methodCall (hr : r.Sound) : Reads (methodCall r) IsExpression := by
  apply (((reads_identifier.map _).seq (reads_arguments hr)).named .methodCall).mono
  rintro xs e ⟨ys, zs, _, d, rfl, ⟨i, hi, rfl⟩, hd, rfl⟩
  have hsteps : (Node.expression (.ofCall i d)).steps =
      .trivia i.lead :: spaced .empty i.name ++
        (spaced d.before "(" ++ Padded.steps Expression.steps d.elements ++
          spaced d.close ")") := by
    obtain ⟨before, elements, close⟩ := d
    simp [Node.steps, Expression.ofCall, Expression.steps, Expression.listSteps_eq, spaced,
      Identifier.steps, Identifier.withLead]
  have hname : Piece false (.trivia i.lead :: spaced .empty i.name)
      [.identifier (i.withLead .empty)] [i.lead] ys := by
    refine ⟨?_, ?_, by simpa using hi.gap, hi.isKeyword.phrase false⟩
    · rw [(hi.isKeyword.piece false).text]
      simp [spaced, chars]
    · intro n hn
      rw [List.mem_singleton.mp hn]
      exact hi.all_tidy .nil
  refine .of_piece (hname.append (hd false)) ?_ ?_ ?_ ?_ (hi.opens.append zs)
  · rw [hsteps]
    rfl
  · simp [Node.children, Expression.ofCall, Expression.children]
  · simp [Node.trivia, Expression.ofCall, Expression.trivia]
  · show Whole i.lead (Node.steps _)
    rw [hsteps]
    exact ((Whole.spaced hi.isKeyword.crisp .empty).cons i.lead).append (closes_arguments d _)

theorem reads_parenthesizedExpression (hr : r.Sound) :
    Reads (parenthesized r) IsExpression := by
  apply ((((reads_leftParenthesis.map _).seq hr.expression).seq reads_rightParenthesis).named
    .parenthesized).mono
  rintro xs e ⟨_, zs, _, u, rfl, ⟨xs, ys, _, inner, rfl, ⟨t, ht, rfl⟩, hinner, rfl⟩, hu, rfl⟩
  have hopens := ((ht.opens rfl).append ys).append zs
  refine .of_piece (piece_parentheses ht hinner.piece hu) rfl ?_ ?_ ?_ hopens
  · simp [Node.children, Expression.children]
  · simp [Node.trivia, Expression.trivia]
  · exact whole_between (by decide) (by decide) t u _

theorem reads_primary (hr : r.Sound) : Reads (primary r) IsExpression := by
  have hliteral : Reads (Expression.literal <$> literal) IsExpression := by
    apply (reads_literal.map _).mono
    rintro xs e ⟨l, hl, rfl⟩
    exact isExpression_literal hl
  have hidentifier : Reads (Expression.identifier <$> identifier) IsExpression := by
    apply (reads_identifier.map _).mono
    rintro xs e ⟨i, hi, rfl⟩
    exact isExpression_identifier hi
  exact hliteral.orElse <| reads_thisExpression.orElse <| (reads_newClass hr).orElse <|
    (reads_methodCall hr).orElse <| hidentifier.orElse (reads_parenthesizedExpression hr)

/-! ## Selectors -/

/-- Behind an expression the lexemes make another expression of it. -/
def IsSuffix (xs : List Lexeme) (f : Expression → Expression) : Prop :=
  ∀ ys e, IsExpression ys e → IsExpression (ys ++ xs) (f e)

/-- The dot and the name of a selector. -/
theorem piece_dotName {xs ys : List Lexeme} {t : Trivia} {i : Identifier} (ht : IsMark '.' xs t)
    (hi : IsName ys i) :
    Piece false (spaced t "." ++ i.steps) [.identifier i] [t] (xs ++ ys) :=
  (ht.piece (s := false) rfl rfl rfl).append (hi.reading false).piece

theorem isSuffix_fieldAccess {xs ys : List Lexeme} {t : Trivia} {i : Identifier}
    (ht : IsMark '.' xs t) (hi : IsName ys i) :
    IsSuffix (xs ++ ys) fun e => e.select ⟨t, i, none⟩ := by
  intro zs e he
  refine .of_piece (he.barePiece.append (piece_dotName ht hi)) ?_ ?_ ?_ ?_ (he.opens.append _)
  · simp [Node.steps, Expression.select, Expression.steps]
  · simp [Node.children, Expression.select, Expression.children]
  · simp [Node.trivia, Expression.select, Expression.trivia]
  · have hc := closes_spaced hi.isKeyword.crisp i.lead
    have := he.whole_bare_append (hc.append (spaced t "."))
    rwa [← List.append_assoc] at this

theorem isSuffix_invocation {xs ys zs : List Lexeme} {t : Trivia} {i : Identifier}
    {d : Delimited Expression} (ht : IsMark '.' xs t) (hi : IsName ys i)
    (hd : IsDelimited "(" ")" .expression zs d) :
    IsSuffix (xs ++ ys ++ zs) fun e => e.select ⟨t, i, some d⟩ := by
  intro ws e he
  have hsteps : (Node.expression (e.select ⟨t, i, some d⟩)).steps =
      (.trivia e.lead :: e.bare.steps) ++ (spaced t "." ++ i.steps ++
        (spaced d.before "(" ++ Padded.steps Expression.steps d.elements ++
          spaced d.close ")")) := by
    obtain ⟨before, elements, close⟩ := d
    simp [Node.steps, Expression.select, Expression.steps, Expression.listSteps_eq]
  refine .of_piece (he.barePiece.append ((piece_dotName ht hi).append (hd false))) ?_ ?_ ?_ ?_
    (he.opens.append _)
  · rw [hsteps]
    rfl
  · simp [Node.children, Expression.select, Expression.children]
  · simp [Node.trivia, Expression.select, Expression.trivia]
  · show Whole e.lead (Node.steps _)
    rw [hsteps]
    exact he.whole_bare_append ((closes_arguments d _).append _)

theorem reads_selector (hr : r.Sound) :
    Reads (selector r) fun xs s => IsSuffix xs fun e => e.select s := by
  have hdot : Reads dot (IsMark '.') := reads_delimiter rfl
  have hcall := (((hdot.map Expression.Selector.mk).seq reads_identifier).seq
    ((reads_arguments hr).map some)).named .methodSelector
  have hfield := ((hdot.map (Expression.Selector.mk · · none)).seq reads_identifier).named
    .fieldSelector
  refine Reads.orElse (hcall.mono ?_) (hfield.mono ?_)
  · rintro xs s ⟨_, zs, _, _, rfl, ⟨xs, ys, _, i, rfl, ⟨t, ht, rfl⟩, hi, rfl⟩, ⟨d, hd, rfl⟩,
      rfl⟩
    exact isSuffix_invocation ht hi hd
  · rintro xs s ⟨xs, ys, _, i, rfl, ⟨t, ht, rfl⟩, hi, rfl⟩
    exact isSuffix_fieldAccess ht hi

theorem isExpression_foldl {α : Type} {f : Expression → α → Expression} {C : List Lexeme → α → Prop}
    (hC : ∀ xs a, C xs a → IsSuffix xs fun e => f e a) {xs ys : List Lexeme} {e : Expression}
    {as : List α} (h : Several C ys as) (he : IsExpression xs e) :
    IsExpression (xs ++ ys) (as.foldl f e) := by
  induction h generalizing xs e with
  | nil => rwa [List.append_nil]
  | cons h _ ih =>
    have := ih (hC _ _ h xs e he)
    rwa [List.append_assoc] at this

theorem reads_postfixExpression (hr : r.Sound) : Reads (postfixExpression r) IsExpression := by
  apply ((((reads_primary hr).map _).seq ((reads_selector hr).many r.bound)).named
    .postfixExpression).mono
  rintro xs e ⟨ys, zs, _, ss, rfl, ⟨first, hfirst, rfl⟩, hss, rfl⟩
  exact isExpression_foldl (fun _ _ h => h) hss hfirst

/-! ## Operators -/

theorem isExpression_prefixed {xs ys : List Lexeme} {t : Trivia} {o : PrefixOperator}
    {e : Expression} (ho : IsSymbol o.symbol xs t) (he : IsExpression ys e) :
    IsExpression (xs ++ ys) (.prefixed t o e) := by
  have hopens : Opens t (xs ++ ys) := by
    obtain ⟨rfl, -⟩ := ho
    cases o <;> exact ⟨_, _, rfl, rfl, rfl⟩
  refine .of_piece (ho.append (isOperator_prefixed o) he.piece he.opens) rfl ?_ ?_ ?_ hopens
  · simp [Node.children, Expression.children]
  · simp [Node.trivia, Expression.trivia]
  · exact Whole.spaced_append (crisp_prefixed o) t he.closes

theorem isSuffix_postfixed {xs : List Lexeme} {t : Trivia} {o : PostfixOperator}
    (ho : IsSymbol o.symbol xs t) : IsSuffix xs fun e => e.ofPostfixed t o := by
  intro ys e he
  have hphrase : Phrase false xs := by
    obtain ⟨rfl, -⟩ := ho
    cases o <;> exact ⟨rfl, rfl⟩
  have htext : Lexeme.textOf xs = text (spaced t o.symbol) := by
    cases o
    · exact ho.text (isOperator_prefixed .increment)
    · exact ho.text (isOperator_prefixed .decrement)
  have hpiece : Piece false (spaced t o.symbol) [] [t] xs :=
    ⟨htext, by simp, by simpa using ho.2, hphrase⟩
  refine .of_piece (he.barePiece.append hpiece) rfl ?_ ?_ ?_ (he.opens.append xs)
  · simp [Node.children, Expression.ofPostfixed, Expression.children]
  · simp [Node.trivia, Expression.ofPostfixed, Expression.trivia]
  · exact he.whole_bare_append (closes_spaced (crisp_postfixed o) t)

theorem reads_unaryExpression (hr : r.Sound) : Reads (unaryExpression r) IsExpression := by
  refine (Reads.orElse ?_ ?_).named .unaryExpression
  · apply ((reads_prefixOperator.map _).seq hr.unary).mono
    rintro xs e ⟨ys, zs, _, operand, rfl, ⟨⟨t, o⟩, ho, rfl⟩, hoperand, rfl⟩
    exact isExpression_prefixed ho hoperand
  · apply (((reads_postfixExpression hr).map _).seq reads_postfixOperator.optional).mono
    rintro xs e ⟨ys, zs, _, o, rfl, ⟨operand, hoperand, rfl⟩, ho, rfl⟩
    cases ho with
    | none => rwa [List.append_nil]
    | some ho => exact isSuffix_postfixed ho ys operand hoperand

/-- The lexemes are a binary operator and an operand. -/
def IsLink (xs : List Lexeme) (a : (Trivia × BinaryOperator) × Expression) : Prop :=
  ∃ ys zs, xs = ys ++ zs ∧ IsSymbol a.1.2.symbol ys a.1.1 ∧ IsExpression zs a.2

theorem isSuffix_attach {xs : List Lexeme} {a : (Trivia × BinaryOperator) × Expression}
    (h : IsLink xs a) : IsSuffix xs fun e => e.attach a.1.1 a.1.2 a.2 := by
  obtain ⟨ys, zs, rfl, ho, ha⟩ := h
  intro ws e he
  have hpiece := ho.append (isOperator_binary _) ha.piece ha.opens
  refine ⟨?_, Expression.all_tidy_attach he.tidy ho.2 ha.tidy, he.phrase.append hpiece.phrase, ?_⟩
  · rw [Lexeme.textOf_append, he.text, hpiece.text, text_append]
    show _ = text (Expression.steps _)
    rw [Expression.text_attach, List.append_assoc]
    rfl
  · show Opens (Expression.lead _) _
    rw [Expression.lead_attach]
    exact he.opens.append _

theorem reads_chain (hr : r.Sound) : Reads (chain r) (Several IsLink) := by
  refine ((reads_binaryOperator.map _).seq (reads_unaryExpression hr) |>.mono ?_).many r.bound
  rintro xs a ⟨ys, zs, _, e, rfl, ⟨o, ho, rfl⟩, he, rfl⟩
  exact ⟨ys, zs, rfl, ho, he⟩

theorem reads_branches (hr : r.Sound) : Reads (branches r) IsSuffix := by
  have hcolon : Reads colon (IsMark ':') := reads_delimiter rfl
  apply ((((reads_question.map _).seq hr.expression).seq hcolon).seq hr.expression).mono
  rintro xs f ⟨_, zs, _, elsePart, rfl, ⟨_, cs, _, u, rfl, ⟨qs, ys, _, thenPart, rfl, ⟨t, ht, rfl⟩,
    hthen, rfl⟩, hu, rfl⟩, helse, rfl⟩
  intro ws e he
  have hquestion : Piece false (spaced t "?") [] [t] qs := ht.piece rfl rfl rfl
  have hcolon : Piece false (spaced u ":") [] [u] cs := hu.piece rfl rfl rfl
  refine .of_piece (he.barePiece.append (((hquestion.append hthen.piece).append hcolon).append
    helse.piece)) ?_ ?_ ?_ ?_ (he.opens.append _)
  · simp [Node.steps, Expression.ofConditional, Expression.steps]
  · simp [Node.children, Expression.ofConditional, Expression.children]
  · simp [Node.trivia, Expression.ofConditional, Expression.trivia]
  · have hc := (helse.closes.append (spaced t "?" ++ thenPart.steps ++ spaced u ":"))
    have := he.whole_bare_append hc
    simpa [Node.Shaped, Node.form, Node.lead, Node.steps, Expression.ofConditional,
      Expression.steps, Expression.lead] using this

theorem reads_assigned (hr : r.Sound) : Reads (assigned r) IsSuffix := by
  apply (((reads_assignmentOperator.map _).seq hr.expression).around .assignment).mono
  rintro xs f ⟨ys, zs, _, value, rfl, ⟨⟨t, o⟩, ho, rfl⟩, hvalue, rfl⟩
  intro ws e he
  have hpiece := ho.append (isOperator_assignment o) hvalue.piece hvalue.opens
  refine .of_piece (he.barePiece.append hpiece) ?_ ?_ ?_ ?_ (he.opens.append _)
  · simp [Node.steps, Expression.ofAssignment, Expression.steps]
  · simp [Node.children, Expression.ofAssignment, Expression.children]
  · simp [Node.trivia, Expression.ofAssignment, Expression.trivia]
  · have := he.whole_bare_append (hvalue.closes.append (spaced t o.symbol))
    rwa [← List.append_assoc] at this

theorem reads_computed (hr : r.Sound) : Reads (computed r) IsSuffix := by
  apply ((((reads_chain hr).map _).seq (reads_branches hr).optional).around
    .conditionalExpression).mono
  rintro xs f ⟨ys, zs, _, o, rfl, ⟨rest, hrest, rfl⟩, ho, rfl⟩
  intro ws e he
  have hchain : IsExpression (ws ++ ys) (Expression.ofChain e rest) :=
    isExpression_foldl (fun _ _ h => isSuffix_attach h) hrest he
  rw [← List.append_assoc]
  cases ho with
  | none => rwa [List.append_nil]
  | some hf => exact hf _ _ hchain

theorem reads_expression (hr : r.Sound) : Reads (expression r) IsExpression := by
  apply ((((reads_unaryExpression hr).map _).seq
    ((reads_assigned hr).orElse (reads_computed hr))).summary .expression).mono
  rintro xs e ⟨ys, zs, _, finish, rfl, ⟨first, hfirst, rfl⟩, hfinish, rfl⟩
  exact hfinish ys first hfirst

end Grammar

end LosslessJava
