import LosslessJava.Grammar.Statement
import LosslessJava.Proofs.Grammar.AgreeTerminal

/-!
# Leads of what is read

What is read depends on the trivia in front of its first token in one place only, which is the lead.
So the same text with other trivia in front of it is read as the same node with another lead.

* `PassesLead R p`: of the same tokens with another lead `t`, the parser makes values that `R t`
  relates.
* `passesLead_expression` and the theorems behind it: the rules make the same node with another
  lead.
-/

namespace LosslessJava

open Grammar Grammar.Parser

namespace Grammar

variable {α β : Type} {R : Trivia → α → α → Prop} {S : Trivia → β → β → Prop}

/-! ## Combinations -/

/-- With another lead in front of its first lexeme, the parser makes a related value, and takes the
same lexemes. -/
def PassesLead (R : Trivia → α → α → Prop) (p : Parser α) : Prop :=
  ∀ t l ls, p.parse (l :: ls) = none ∧ p.parse (⟨t, l.token⟩ :: ls) = none ∨
    ∃ a a' m, p.parse (l :: ls) = some (a, m) ∧ p.parse (⟨t, l.token⟩ :: ls) = some (a', m) ∧
      R t a a'

namespace PassesLead

theorem mono {Q : Trivia → α → α → Prop} {p : Parser α} (h : PassesLead Q p)
    (hR : ∀ t a a', Q t a a' → R t a a') : PassesLead R p := by
  intro t l ls
  rcases h t l ls with hnone | ⟨a, a', m, ha, ha', hq⟩
  · exact .inl hnone
  · exact .inr ⟨a, a', m, ha, ha', hR t a a' hq⟩

theorem map {p : Parser α} {f : α → β} (h : PassesLead (fun t a a' => S t (f a) (f a')) p) :
    PassesLead S (f <$> p) := by
  intro t l ls
  rcases h t l ls with ⟨hp, hp'⟩ | ⟨a, a', m, ha, ha', hS⟩
  · exact .inl ⟨Option.map_eq_none_iff.mpr hp, Option.map_eq_none_iff.mpr hp'⟩
  · exact .inr ⟨f a, f a', m, parse_map_eq_some.mpr ⟨a, ha, rfl⟩,
      parse_map_eq_some.mpr ⟨a', ha', rfl⟩, hS⟩

/-- The lead goes into the first part, and the second one can be anything that it yields. -/
theorem seq_of_yields {p : Parser (α → β)} {q : Parser α} {P : α → Prop}
    (h : PassesLead (fun t f f' => ∀ a, P a → S t (f a) (f' a)) p) (hq : Yields q P) :
    PassesLead S (p <*> q) := by
  intro t l ls
  rw [parse_seq, parse_seq]
  rcases h t l ls with ⟨hp, hp'⟩ | ⟨f, f', m, hf, hf', hS⟩
  · rw [hp, hp']
    exact .inl ⟨rfl, rfl⟩
  · simp only [hf, hf']
    cases ha : q.parse m with
    | none => exact .inl ⟨rfl, rfl⟩
    | some r => exact .inr ⟨_, _, r.2, rfl, rfl, hS r.1 (hq m r.1 r.2 ha)⟩

theorem seq {p : Parser (α → β)} {q : Parser α}
    (h : PassesLead (fun t f f' => ∀ a, S t (f a) (f' a)) p) : PassesLead S (p <*> q) :=
  seq_of_yields (P := fun _ => True) (h.mono fun _ _ _ hS a _ => hS a) fun _ _ _ _ => trivial

theorem orElse {p q : Parser α} (h : PassesLead R p) (h' : PassesLead R q) :
    PassesLead R (p <|> q) := by
  intro t l ls
  rw [parse_orElse, parse_orElse]
  rcases h t l ls with ⟨hp, hp'⟩ | ⟨a, a', m, ha, ha', hR⟩
  · rw [hp, hp']
    exact h' t l ls
  · rw [ha, ha']
    exact .inr ⟨a, a', m, rfl, rfl, hR⟩

end PassesLead

/-! ## Tokens -/

theorem passesLead_lead {R : Trivia → Trivia → Trivia → Prop} (h : ∀ t u, R t u t) :
    PassesLead R lead :=
  fun t l ls => .inr ⟨l.lead, t, l.bare :: ls, rfl, rfl, h t l.lead⟩

/-- A token keeps its lead, if that is all its acceptance makes of it. -/
theorem passesLead_token {rule : Rule} {accept : List Lexeme → Option (α × Nat)}
    (h : ∀ t l ls, accept (l :: ls) = none ∧ accept (⟨t, l.token⟩ :: ls) = none ∨
      ∃ a a' n, accept (l :: ls) = some (a, n + 1) ∧
        accept (⟨t, l.token⟩ :: ls) = some (a', n + 1) ∧ R t a a') :
    PassesLead R (token rule accept) := by
  intro t l ls
  rcases h t l ls with ⟨hp, hp'⟩ | ⟨a, a', n, ha, ha', hR⟩
  · exact .inl ⟨by simp [token, hp], by simp [token, hp']⟩
  · exact .inr ⟨a, a', ls.drop n, by simp [token, ha], by simp [token, ha'], hR⟩

theorem passesLead_wordOf {rule : Rule} {f : String → Option α}
    {R : Trivia → Trivia × α → Trivia × α → Prop} (h : ∀ t u a, R t (u, a) (t, a)) :
    PassesLead R (wordOf rule f) := by
  refine passesLead_token fun t l ls => ?_
  obtain ⟨u, token⟩ := l
  cases token with
  | word w =>
    cases hw : f w with
    | none => exact .inl ⟨by simp [acceptWord, hw], by simp [acceptWord, hw]⟩
    | some a => exact .inr ⟨(u, a), (t, a), 0, by simp [acceptWord, hw], by simp [acceptWord, hw],
        h t u a⟩
  | _ => exact .inl ⟨rfl, rfl⟩

theorem passesLead_keyword {rule : Rule} {w : String} {R : Trivia → Trivia → Trivia → Prop}
    (h : ∀ t u, R t u t) : PassesLead R (keyword rule w) :=
  .map (passesLead_wordOf fun t u _ => h t u)

theorem passesLead_identifier {R : Trivia → Identifier → Identifier → Prop}
    (h : ∀ t i, R t i (i.withLead t)) : PassesLead R identifier :=
  .map (passesLead_wordOf fun t u name => h t ⟨u, name, none⟩)

theorem passesLead_literal {R : Trivia → Literal → Literal → Prop}
    (h : ∀ t l, R t l (l.withLead t)) : PassesLead R literal := by
  have hkind : ∀ {rule kind}, PassesLead R (literalOf rule kind) := by
    intro rule kind
    refine passesLead_token fun t l ls => ?_
    obtain ⟨u, token⟩ := l
    cases token with
    | literal k w =>
      by_cases hk : k = kind
      · let value := (kind.decode w.toList).getD .null
        exact .inr ⟨⟨u, value, w⟩, ⟨t, value, w⟩, 0, by simp [acceptLiteral, hk, value],
          by simp [acceptLiteral, hk, value], h t ⟨u, value, w⟩⟩
      · exact .inl ⟨by simp [acceptLiteral, hk], by simp [acceptLiteral, hk]⟩
    | _ => exact .inl ⟨rfl, rfl⟩
  refine hkind.orElse <| hkind.orElse <| hkind.orElse <| hkind.orElse <| .orElse ?_ ?_
  · exact .map (passesLead_wordOf fun t u value => h t ((Literal.boolean value).withLead u))
  · exact .map (passesLead_keyword fun t u => h t (Literal.null.withLead u))

theorem acceptSymbol_lead (w : String) (stop : List Char) (t : Trivia) (l : Lexeme)
    (ls : List Lexeme) :
    acceptSymbol w stop (l :: ls) = none ∧ acceptSymbol w stop (⟨t, l.token⟩ :: ls) = none ∨
      ∃ n, acceptSymbol w stop (l :: ls) = some (l.lead, n + 1) ∧
        acceptSymbol w stop (⟨t, l.token⟩ :: ls) = some (t, n + 1) := by
  obtain ⟨u, token⟩ := l
  cases token with
  | mark d =>
    cases hw : w.toList with
    | nil => exact .inl ⟨acceptSymbol_of_nil hw stop _, acceptSymbol_of_nil hw stop _⟩
    | cons c cs =>
      by_cases hc : (c == d && startsTight cs ls && !continues stop (ls.drop cs.length)) = true
      · refine .inr ⟨cs.length, ?_, ?_⟩
        · simp only [acceptSymbol, hw, if_pos hc]
        · simp only [acceptSymbol, hw, if_pos hc]
      · refine .inl ⟨?_, ?_⟩
        · simp only [acceptSymbol, hw, if_neg hc]
        · simp only [acceptSymbol, hw, if_neg hc]
  | _ => exact .inl ⟨rfl, rfl⟩

theorem passesLead_symbol {rule : Rule} {w : String} {stop : List Char}
    {R : Trivia → Trivia → Trivia → Prop} (h : ∀ t u, R t u t) :
    PassesLead R (symbol rule w stop) := by
  refine passesLead_token fun t l ls => ?_
  rcases acceptSymbol_lead w stop t l ls with hnone | ⟨n, ha, ha'⟩
  · exact .inl hnone
  · exact .inr ⟨l.lead, t, n, ha, ha', h t l.lead⟩

theorem passesLead_symbolOf {rule : Rule} {table : List (α × String × List Char)}
    {R : Trivia → Trivia × α → Trivia × α → Prop} (h : ∀ t u a, R t (u, a) (t, a)) :
    PassesLead R (symbolOf rule table) := by
  refine passesLead_token fun t l ls => ?_
  unfold acceptSymbolOf
  induction table with
  | nil => exact .inl ⟨rfl, rfl⟩
  | cons e table ih =>
    obtain ⟨a, w, stop⟩ := e
    rw [List.findSome?_cons, List.findSome?_cons]
    rcases acceptSymbol_lead w stop t l ls with ⟨hnone, hnone'⟩ | ⟨n, ha, ha'⟩
    · simp only [hnone, hnone', Option.map_none]
      exact ih
    · simp only [ha, ha', Option.map_some]
      exact .inr ⟨(l.lead, a), (t, a), n, rfl, rfl, h t l.lead a⟩

end Grammar

/-! ## Expressions -/

namespace Expression

theorem bare_withLead (t : Trivia) (e : Expression) : (e.withLead t).bare = e.bare :=
  withLead_withLead .empty t e

theorem select_withLead (t : Trivia) (e : Expression) (s : Selector) :
    (e.withLead t).select s = (e.select s).withLead t := by
  cases h : s.arguments with
  | none =>
    simp only [select, h, lead_withLead, bare_withLead]
    rfl
  | some arguments =>
    simp only [select, h, lead_withLead, bare_withLead]
    rfl

theorem foldl_select_withLead (t : Trivia) (e : Expression) (ss : List Selector) :
    ss.foldl select (e.withLead t) = (ss.foldl select e).withLead t := by
  induction ss generalizing e with
  | nil => rfl
  | cons s ss ih => rw [List.foldl_cons, List.foldl_cons, select_withLead, ih]

theorem ofPostfixed_withLead (t : Trivia) (e : Expression) (operatorLead : Trivia)
    (operator : PostfixOperator) : (e.withLead t).ofPostfixed operatorLead operator =
      (e.ofPostfixed operatorLead operator).withLead t := by
  rw [ofPostfixed, lead_withLead, bare_withLead]
  rfl

theorem ofAssignment_withLead (t : Trivia) (e : Expression) (operatorLead : Trivia)
    (operator : AssignmentOperator) (value : Expression) :
    (e.withLead t).ofAssignment operatorLead operator value =
      (e.ofAssignment operatorLead operator value).withLead t := by
  rw [ofAssignment, lead_withLead, bare_withLead]
  rfl

theorem ofConditional_withLead (t : Trivia) (e : Expression) (questionLead : Trivia)
    (thenPart : Expression) (colonLead : Trivia) (elsePart : Expression) :
    (e.withLead t).ofConditional questionLead thenPart colonLead elsePart =
      (e.ofConditional questionLead thenPart colonLead elsePart).withLead t := by
  rw [ofConditional, lead_withLead, bare_withLead]
  rfl

theorem attach_withLead (t : Trivia) (e : Expression) (operatorLead : Trivia)
    (operator : BinaryOperator) (right : Expression) :
    (e.withLead t).attach operatorLead operator right =
      (e.attach operatorLead operator right).withLead t := by
  cases e with
  | binary lead first lastLead last second =>
    simp only [withLead, attach]
    split
    · rfl
    · rfl
  | _ => rfl

theorem ofChain_withLead (t : Trivia) (e : Expression)
    (rest : List ((Trivia × BinaryOperator) × Expression)) :
    (e.withLead t).ofChain rest = (e.ofChain rest).withLead t := by
  unfold ofChain
  induction rest generalizing e with
  | nil => rfl
  | cons o rest ih =>
    obtain ⟨⟨operatorLead, operator⟩, right⟩ := o
    simp only [List.foldl_cons, attach_withLead, ih]

end Expression

namespace Grammar

/-- The same expression with another lead. -/
abbrev SameExpression (t : Trivia) (e e' : Expression) : Prop := e' = e.withLead t

variable (r : Rules)

theorem passesLead_primary : PassesLead SameExpression (primary r) := by
  refine .orElse ?_ <| .orElse ?_ <| .orElse ?_ <| .orElse ?_ <| .orElse ?_ ?_
  · exact .map (passesLead_literal fun _ _ => rfl)
  · exact .map (passesLead_keyword fun _ _ => rfl)
  · exact .seq <| .seq <| .seq <| .map <| passesLead_keyword fun _ _ _ _ _ => rfl
  · exact .seq <| .map <| passesLead_identifier fun _ _ _ => rfl
  · exact .map (passesLead_identifier fun _ _ => rfl)
  · exact .seq <| .seq <| .map <| passesLead_symbol fun _ _ _ _ => rfl

theorem passesLead_postfixExpression : PassesLead SameExpression (postfixExpression r) := by
  refine .seq <| .map <| (passesLead_primary r).mono fun t e e' h ss => ?_
  rw [h]
  exact Expression.foldl_select_withLead t e ss

theorem passesLead_unaryExpression : PassesLead SameExpression (unaryExpression r) := by
  refine .orElse ?_ ?_
  · exact .seq <| .map <| passesLead_symbolOf fun _ _ _ _ => rfl
  · refine .seq <| .map <| (passesLead_postfixExpression r).mono fun t e e' h operator => ?_
    rw [h]
    cases operator with
    | none => rfl
    | some o => exact Expression.ofPostfixed_withLead t e o.1 o.2

/-- A function of the first operand keeps the lead that the operand has. -/
def KeepsLead (finish : Expression → Expression) : Prop :=
  ∀ t e, finish (e.withLead t) = (finish e).withLead t

theorem keepsLead_assigned : Yields (assigned r) KeepsLead :=
  .around <| .seq <| .map fun o value t e => Expression.ofAssignment_withLead t e o.1 o.2 value

theorem keepsLead_branches : Yields (branches r) KeepsLead :=
  .seq <| .seq <| .seq <| .map fun questionLead thenPart colonLead elsePart t e =>
    Expression.ofConditional_withLead t e questionLead thenPart colonLead elsePart

theorem KeepsLead.getD {finish : Option (Expression → Expression)}
    (h : ∀ f ∈ finish, KeepsLead f) : KeepsLead (finish.getD id) := by
  cases finish with
  | none => exact fun _ _ => rfl
  | some f => exact h f rfl

theorem keepsLead_computed : Yields (computed r) KeepsLead := by
  refine .around <| .seq_of (.map fun rest finish hfinish t e => ?_) (keepsLead_branches r).optional
  show finish.getD id ((e.withLead t).ofChain rest) = (finish.getD id (e.ofChain rest)).withLead t
  rw [Expression.ofChain_withLead]
  exact KeepsLead.getD hfinish t _

theorem passesLead_expression : PassesLead SameExpression (expression r) := by
  refine .seq_of_yields (.map <| (passesLead_unaryExpression r).mono fun t e e' h finish hf => ?_)
    (.orElse (keepsLead_assigned r) (keepsLead_computed r))
  rw [h]
  exact hf t e

/-! ## Statements -/

/-- The same statement with another lead. -/
abbrev SameStatement (t : Trivia) (s s' : Statement) : Prop := s' = s.withLead t

theorem passesLead_ret : PassesLead SameStatement (Statement.ret <$> returnStatement r) :=
  .map <| .seq <| .seq <| .map <| passesLead_keyword fun _ _ _ _ => rfl

theorem passesLead_throwStatement : PassesLead SameStatement (throwStatement r) :=
  .seq <| .seq <| .map <| passesLead_keyword fun _ _ _ _ => rfl

theorem passesLead_emptyStatement : PassesLead SameStatement emptyStatement :=
  .map <| passesLead_symbol fun _ _ => rfl

theorem passesLead_expressionStatement : PassesLead SameStatement (expressionStatement r) := by
  refine .seq <| .map <| (passesLead_expression r).mono fun t e e' h terminator => ?_
  rw [h, Expression.lead_withLead, Expression.bare_withLead]
  rfl

theorem passesLead_declaration :
    PassesLead SameStatement (Statement.declaration <$> variableDeclarations r) :=
  .map <| .seq <| .seq <| .seq <| .seq <| .map <| passesLead_lead fun _ _ _ _ _ _ => rfl

end Grammar

end LosslessJava
