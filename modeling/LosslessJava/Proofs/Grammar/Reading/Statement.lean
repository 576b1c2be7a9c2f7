import LosslessJava.Grammar.Statement
import LosslessJava.Proofs.Grammar.Reading.Variable

/-!
# Readings of statements

A statement ends with a semicolon or a brace. Whether its steps end with a terminator is decided by
the statement that stands last in it (`Framed.prepend`).

* `reads_statement`, `reads_blockStatement`: the rules read statements.
-/

namespace LosslessJava.Grammar

open Step LosslessJava.Grammar.Parser

variable {r : Rules}

/-! ## Blocks -/

theorem ended_rightBrace {xs : List Lexeme} {t : Trivia} (h : IsMark '}' xs t) : Ended xs :=
  ⟨[], t, '}', h.1, Or.inr rfl⟩

theorem reads_block (hr : r.Sound) :
    Reads (block r) fun xs b => (∀ s, Reading s (.block b) xs) ∧ Ended xs := by
  apply ((((reads_leftBrace.map _).seq (hr.blockStatement.many r.bound)).seq
    reads_rightBrace).named .block).mono
  rintro xs b ⟨_, zs, _, u, rfl, ⟨xs, ys, _, ss, rfl, ⟨t, ht, rfl⟩, hss, rfl⟩, hu, rfl⟩
  refine ⟨fun s => ?_, (ended_rightBrace hu).append _⟩
  have hlist := piece_several .statement (fun _ _ h => h.1) hss
  have hopens : Opens t (xs ++ ys ++ zs) := ((ht.opens rfl).append ys).append zs
  refine .of_piece (piece_braces ht hlist hu) ?_ ?_ ?_ ?_ hopens
  · simp only [Node.steps, Block.steps, Statement.listSteps_eq]
  · simp [Node.children]
  · simp [Node.trivia]
  · exact whole_between (by decide) (by decide) t u _

/-! ## Statements that end with a semicolon -/

theorem reads_returnStatement (hr : r.Sound) :
    Reads (returnStatement r) fun xs s => Reading true (.ret s) xs ∧ Ended xs := by
  apply ((((reads_keyword.map _).seq hr.expression.optional).seq reads_semicolon).named
    .returnStatement).mono
  rintro xs s ⟨_, zs, _, u, rfl, ⟨xs, ys, _, o, rfl, ⟨t, ht, rfl⟩, ho, rfl⟩, hu, rfl⟩
  refine ⟨?_, (ended_semicolon hu).append _⟩
  have hvalue := piece_perhaps .expression (fun _ _ h => h) ho
  have hsteps : (Node.ret ⟨t, o, u⟩).steps = spaced t "return" ++
      (o.map fun e => (Node.expression e).steps).getD [] ++ [.terminator u] := by
    cases o <;> rfl
  have hopens := ((ht.opens (by decide)).append ys).append zs
  refine .of_piece (((ht.piece true).append hvalue.weaken).append (piece_semicolon hu)) ?_ ?_ ?_ ?_
    hopens
  · rw [hsteps]
  · simp [Node.children]
  · simp [Node.trivia]
  · have hwhole : Whole t (spaced t "return" ++
        (o.map fun e => (Node.expression e).steps).getD []) := by
      refine (Whole.spaced ht.crisp t).append_optional ?_
      cases ho with
      | none => exact Or.inl rfl
      | some he => exact Or.inr he.closes
    exact .ended hwhole hsteps hu.2

theorem reads_throwStatement (hr : r.Sound) : Reads (throwStatement r) IsStatement := by
  apply ((((reads_keyword.map _).seq hr.expression).seq reads_semicolon).named
    .throwStatement).mono
  rintro xs s ⟨_, zs, _, u, rfl, ⟨xs, ys, _, e, rfl, ⟨t, ht, rfl⟩, he, rfl⟩, hu, rfl⟩
  refine ⟨?_, (ended_semicolon hu).append _⟩
  have hopens := ((ht.opens (by decide)).append ys).append zs
  refine .of_piece (((ht.piece true).append he.piece.weaken).append (piece_semicolon hu)) rfl ?_ ?_
    ?_ hopens
  · simp [Node.children, Statement.children]
  · simp [Node.trivia, Statement.trivia]
  · exact .ended (Whole.spaced_append ht.crisp t he.closes) rfl hu.2

theorem reads_emptyStatement : Reads emptyStatement IsStatement := by
  apply ((reads_semicolon.map _).named .emptyStatement).mono
  rintro xs s ⟨t, ht, rfl⟩
  refine ⟨?_, ended_semicolon ht⟩
  exact .of_piece (piece_semicolon ht) rfl (by simp [Node.children, Statement.children])
    (by simp [Node.trivia, Statement.trivia]) (.lone rfl ht.2) (ht.opens rfl)

theorem reads_expressionStatement (hr : r.Sound) :
    Reads (expressionStatement r) IsStatement := by
  apply ((((reads_expression hr).map _).seq reads_semicolon).named .expressionStatement).mono
  rintro xs s ⟨ys, zs, _, u, rfl, ⟨e, he, rfl⟩, hu, rfl⟩
  refine ⟨?_, (ended_semicolon hu).append ys⟩
  refine .of_piece (he.barePiece.weaken.append (piece_semicolon hu)) rfl ?_ ?_ ?_
    (he.opens.append zs)
  · simp [Node.children, Statement.children]
  · simp [Node.trivia, Statement.trivia]
  · exact .ended ((Expression.whole_bare he.tidy).cons e.lead) rfl hu.2

/-! ## Branches and loops -/

theorem reads_condition (hr : r.Sound) :
    Reads (condition r) fun xs c => Reading false (.condition c) xs := by
  apply ((((reads_leftParenthesis.map _).seq hr.expression).seq reads_rightParenthesis).named
    .condition).mono
  rintro xs c ⟨_, zs, _, u, rfl, ⟨xs, ys, _, inner, rfl, ⟨t, ht, rfl⟩, hinner, rfl⟩, hu, rfl⟩
  have hopens := ((ht.opens rfl).append ys).append zs
  refine .of_piece (piece_parentheses ht hinner.piece hu) rfl ?_ ?_ ?_ hopens
  · simp [Node.children]
  · simp [Node.trivia]
  · exact whole_between (by decide) (by decide) t u _

/-- The lexemes are an `else` and a statement. -/
def IsElse (xs : List Lexeme) (a : Trivia × Statement) : Prop :=
  ∃ ys zs, xs = ys ++ zs ∧ IsKeyword "else" ys a.1 ∧ IsStatement zs a.2

theorem reads_elseClause (hr : r.Sound) : Reads (elseClause r) IsElse := by
  apply (((reads_keyword.map _).seq hr.statement).named .elseClause).mono
  rintro xs a ⟨ys, zs, _, s, rfl, ⟨t, ht, rfl⟩, hs, rfl⟩
  exact ⟨ys, zs, rfl, ht, hs⟩

/-- A keyword and a condition in front of a statement. -/
theorem whole_condition {w : String} {xs ys : List Lexeme} {t : Trivia} {c : Condition}
    (ht : IsKeyword w xs t) (hc : Reading false (.condition c) ys) :
    Whole t (spaced t w ++ c.steps) :=
  Whole.spaced_append ht.crisp t (@Whole.closes c.lead _ hc.shaped)

theorem reads_ifStatement (hr : r.Sound) : Reads (ifStatement r) IsStatement := by
  apply (((((reads_keyword.map _).seq (reads_condition hr)).seq hr.statement).seq
    (reads_elseClause hr).optional).named .ifStatement).mono
  rintro xs s ⟨_, ws, _, o, rfl, ⟨_, zs, _, thenPart, rfl, ⟨xs, ys, _, c, rfl, ⟨t, ht, rfl⟩, hc,
    rfl⟩, hthen, rfl⟩, ho, rfl⟩
  have hopens := (((ht.opens (by decide)).append ys).append zs).append ws
  have hfront := ((ht.piece true).append hc.piece.weaken).append hthen.1.piece
  have hframed : Framed t (spaced t "if" ++ c.steps ++ thenPart.steps) :=
    hthen.1.shaped.prepend (whole_condition ht hc)
  cases ho with
  | none =>
    rw [List.append_nil] at hopens ⊢
    refine ⟨.of_piece hfront rfl ?_ ?_ hframed hopens, hthen.2.append _⟩
    · simp [Node.children, Statement.children]
    · simp [Node.trivia, Statement.trivia]
  | @some _ a ha =>
    obtain ⟨elseLead, elsePart⟩ := a
    obtain ⟨us, vs, rfl, helse, hpart⟩ := ha
    refine ⟨?_, (hpart.2.append us).append _⟩
    refine .of_piece (hfront.append ((helse.piece true).append hpart.1.piece)) ?_ ?_ ?_ ?_ hopens
    · simp [Node.steps, Statement.steps]
    · simp [Node.children, Statement.children]
    · simp [Node.trivia, Statement.trivia]
    · have hpre : Whole t (spaced t "if" ++ c.steps ++ thenPart.steps ++
          spaced elseLead "else") := by
        have hclose := (closes_spaced helse.crisp elseLead).append thenPart.steps
        have := (whole_condition ht hc).append hclose
        rwa [← List.append_assoc] at this
      exact hpart.1.shaped.prepend hpre

theorem reads_whileStatement (hr : r.Sound) : Reads (whileStatement r) IsStatement := by
  apply ((((reads_keyword.map _).seq (reads_condition hr)).seq hr.statement).named
    .whileStatement).mono
  rintro xs s ⟨_, zs, _, body, rfl, ⟨xs, ys, _, c, rfl, ⟨t, ht, rfl⟩, hc, rfl⟩, hbody, rfl⟩
  have hopens := ((ht.opens (by decide)).append ys).append zs
  refine ⟨?_, hbody.2.append _⟩
  refine .of_piece (((ht.piece true).append hc.piece.weaken).append hbody.1.piece) rfl ?_ ?_ ?_
    hopens
  · simp [Node.children, Statement.children]
  · simp [Node.trivia, Statement.trivia]
  · exact hbody.1.shaped.prepend (whole_condition ht hc)

/-! ## All statements -/

theorem reads_statement (hr : r.Sound) : Reads (statement r) IsStatement := by
  have hblock : Reads (Statement.block <$> block r) IsStatement := by
    apply ((reads_block hr).map _).mono
    rintro xs s ⟨b, ⟨hb, hend⟩, rfl⟩
    exact ⟨(hb true).wrap rfl rfl rfl rfl (.whole (hb true).shaped), hend⟩
  have hreturn : Reads (Statement.ret <$> returnStatement r) IsStatement := by
    apply ((reads_returnStatement hr).map _).mono
    rintro xs s ⟨b, ⟨hb, hend⟩, rfl⟩
    exact ⟨hb.wrap rfl rfl rfl rfl hb.shaped, hend⟩
  exact hblock.orElse <| hreturn.orElse <| (reads_throwStatement hr).orElse <|
    (reads_ifStatement hr).orElse <| (reads_whileStatement hr).orElse <|
    reads_emptyStatement.orElse (reads_expressionStatement hr)

theorem reads_blockStatement (hr : r.Sound) : Reads (blockStatement r) IsStatement := by
  have hdeclaration : Reads (Statement.declaration <$> variableDeclarations r) IsStatement := by
    apply ((reads_variableDeclarations hr).map _).mono
    rintro xs s ⟨d, ⟨hd, hend⟩, rfl⟩
    exact ⟨hd.wrap rfl rfl rfl rfl hd.shaped, hend⟩
  exact hdeclaration.orElse (reads_statement hr)

end LosslessJava.Grammar
