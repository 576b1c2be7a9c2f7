import LosslessJava.Proofs.Grammar.Build.Type

/-!
# Building of operands

An operand is built without the trivia in front of it, and so is the primary expression that it
starts with.

* `matches_arguments`: argument lists.
* `matches_primary`, `matches_postfixExpression`, `matches_unaryExpression`: the rules of operands.
-/

namespace LosslessJava.Grammar

open LosslessJava.Grammar.Parser
open Build Building

variable {source : List Char} {r : Rules} {b : Builders}

/-! ## Primary expressions -/

theorem matches_arguments (h : BuiltBy source r b) :
    Matches source (Grammar.arguments r) (Made source [.arguments] (Build.arguments source b)) :=
  matches_delimited r.bound h.expression (finds_nextIf .expression) (by decide) (by decide) rfl
    (by decide)

theorem matches_newClass (h : BuiltBy source r b) :
    Matches source (Grammar.newClass r) (Bare source [.newClass] (Build.newClass source b)) := by
  have hkeyword : Walked source (keyword .newWord "new") (Building.token .newWord)
      (.one [.newWord]) (· = ·) := matches_keyword.token
  have htype := (hkeyword.map_same Expression.newClass).apply h.type.child rfl
  have harguments := htype.apply (matches_arguments h).child rfl
  have hwalk := harguments.apply h.classBody.perhaps rfl
  refine Matches.walked_bare (hwalk.withoutLead.named rfl ?_ .newClass) rfl fun pair => ?_
  · exact .seq <| .seq <| .seq <| .map <| passesLead_keyword fun _ _ _ _ _ => rfl
  · simp only [Build.newClass, seq_eq_bind_map, map_eq_pure_bind, bind_assoc, pure_bind]
    rfl

/-- An identifier that is built without its lead. -/
theorem walked_bareIdentifier :
    Walked source Grammar.identifier
      (Building.child .identifier fun _ => Build.identifier source .empty) (.one [.identifier])
      fun i j => i = j.withLead .empty := by
  refine matches_name.passed (passes_child .identifier _) ?_
  rintro offset xs pair i - ⟨-, hbuild, -⟩
  exact ⟨_, rfl, hbuild .empty⟩

theorem matches_methodCall (h : BuiltBy source r b) :
    Matches source (Grammar.methodCall r)
      (Bare source [.methodCall] (Build.methodCall source b)) := by
  refine Matches.walked_bare
    (x := (fun name arguments => .call .empty name arguments none) <$>
      Building.child .identifier (fun _ => Build.identifier source .empty) <*>
      Building.child .arguments (Build.arguments source b))
    (Walked.named (.seq (.map walked_bareIdentifier ?_) (matches_arguments h).child rfl) rfl ?_
      .methodCall) rfl fun pair => ?_
  · rintro _ name rfl _ arguments rfl
    rfl
  · exact .seq <| .map <| passesLead_identifier fun _ _ _ => rfl
  · simp only [Build.methodCall, seq_eq_bind_map, map_eq_pure_bind, bind_assoc, pure_bind]

theorem matches_parenthesized (h : BuiltBy source r b) :
    Matches source (Grammar.parenthesized r)
      (Bare source [.parenthesized] (Build.parenthesized source b)) := by
  have hopen : Walked source leftParenthesis (Building.token .leftParenthesis)
      (.one [.leftParenthesis]) (· = ·) := walked_delimiter (by decide)
  have hclose : Walked source rightParenthesis (Building.token .rightParenthesis)
      (.one [.rightParenthesis]) (· = ·) := walked_delimiter (by decide)
  have hinner := (hopen.map_same Expression.parentheses).apply h.expression.child rfl
  have hwalk := hinner.apply hclose rfl
  refine Matches.walked_bare (hwalk.withoutLead.named rfl ?_ .parenthesized) rfl fun pair => ?_
  · exact .seq <| .seq <| .map <| passesLead_symbol fun _ _ _ _ => rfl
  · simp only [Build.parenthesized, seq_eq_bind_map, map_eq_pure_bind, bind_assoc, pure_bind]
    rfl

/-- The rules of primary expressions. -/
def primaryRules : List Rule :=
  literalRules ++ [.thisExpression, .newClass, .methodCall, .identifier, .parenthesized]

/-- What is built of the pairs of a rule, by builders that agree on them. -/
theorem Matches.bare_as {p : Parser Expression} {rule : Rule} {f g : Pair → Built Expression}
    (h : Matches source p (Bare source [rule] f))
    (hfg : ∀ start stop inner, g ⟨rule, start, stop, inner⟩ = f ⟨rule, start, stop, inner⟩) :
    Matches source p (Bare source [rule] g) := by
  refine h.mono_single ?_
  rintro offset xs ⟨_, start, stop, inner⟩ e hrule - ⟨hf, hlead⟩
  obtain rfl := List.mem_singleton.mp hrule
  exact ⟨(hfg _ _ _).trans hf, hlead⟩

theorem matches_primary (h : BuiltBy source r b) :
    Matches source (Grammar.primary r) (Bare source primaryRules (Build.primary source b)) := by
  have hliteral : Matches source (Expression.literal <$> Grammar.literal)
      (Bare source literalRules (Build.primary source b)) := by
    refine matches_literal.image _ ?_
    rintro offset xs ⟨rule, start, stop, inner⟩ l hrule - ⟨hlead, hbuild⟩
    have hprimary : Build.primary source b ⟨rule, start, stop, inner⟩ =
        Expression.literal <$> Build.literal source .empty ⟨rule, start, stop, inner⟩ := by
      simp only [literalRules, List.mem_cons, List.not_mem_nil, or_false] at hrule
      rcases hrule with rfl | rfl | rfl | rfl | rfl | rfl <;> rfl
    refine ⟨?_, hlead⟩
    rw [hprimary, hbuild, verdict_map]
    rfl
  have hthis : Matches source thisExpression
      (Bare source [.thisExpression] (Build.primary source b)) := by
    refine matches_keyword.image _ ?_
    rintro offset xs ⟨_, start, stop, inner⟩ t hrule - ⟨rfl, hvalid⟩
    obtain rfl := List.mem_singleton.mp hrule
    exact ⟨(verdict_of_none hvalid _).symm, rfl⟩
  have hidentifier : Matches source (Expression.identifier <$> Grammar.identifier)
      (Bare source [.identifier] (Build.primary source b)) := by
    refine matches_name.image _ ?_
    rintro offset xs ⟨_, start, stop, inner⟩ i hrule - ⟨hlead, hbuild, -⟩
    obtain rfl := List.mem_singleton.mp hrule
    refine ⟨?_, hlead⟩
    show Expression.identifier <$> Build.identifier source .empty _ = _
    rw [hbuild, verdict_map]
    rfl
  have hnewClass : Matches source (Grammar.newClass r)
      (Bare source [.newClass] (Build.primary source b)) :=
    (matches_newClass h).bare_as fun _ _ _ => rfl
  have hmethodCall : Matches source (Grammar.methodCall r)
      (Bare source [.methodCall] (Build.primary source b)) :=
    (matches_methodCall h).bare_as fun _ _ _ => rfl
  have hparenthesized : Matches source (Grammar.parenthesized r)
      (Bare source [.parenthesized] (Build.primary source b)) :=
    (matches_parenthesized h).bare_as fun _ _ _ => rfl
  exact hliteral.choice <| hthis.choice <| hnewClass.choice <| hmethodCall.choice <|
    hidentifier.choice hparenthesized

/-! ## Selectors -/

theorem matches_selector (h : BuiltBy source r b) :
    Matches source (Grammar.selector r)
      (Made source ([.methodSelector] ++ [.fieldSelector]) (Build.selector source b)) := by
  have hdot : Walked source dot (Building.token .dot) (.one [.dot]) (· = ·) :=
    walked_delimiter (by decide)
  refine .choice (.made_as (f := fun lead pair => pair.walk source do
      let _ ← Building.token .dot
      let name ← Building.child .identifier (Build.identifier source)
      let arguments ← Building.child .arguments (Build.arguments source b)
      return ⟨lead, name, some arguments⟩) ?_ fun _ _ _ _ => rfl)
    (.made_as (f := fun lead pair => pair.walk source do
      let _ ← Building.token .dot
      let name ← Building.child .identifier (Build.identifier source)
      return ⟨lead, name, none⟩) ?_ fun _ _ _ _ => rfl)
  · have hname := (hdot.map_same Expression.Selector.mk).apply matches_identifier.child rfl
    have hwalk := hname.apply ((matches_arguments h).child.map_same some) rfl
    refine Matches.walked_eq (fun t s => { s with dotLead := t })
      (hwalk.named rfl ?_ .methodSelector) rfl fun t pair => ?_
    · exact .seq <| .seq <| .map <| passesLead_symbol fun _ _ _ _ => rfl
    · simp only [seq_eq_bind_map, map_eq_pure_bind, bind_assoc, pure_bind]
  · have hhead := hdot.map_same (Expression.Selector.mk · · none)
    have hwalk := hhead.apply matches_identifier.child rfl
    refine Matches.walked_eq (fun t s => { s with dotLead := t })
      (hwalk.named rfl ?_ .fieldSelector) rfl fun t pair => ?_
    · exact .seq <| .map <| passesLead_symbol fun _ _ _ => rfl
    · simp only [seq_eq_bind_map, map_eq_pure_bind, bind_assoc, pure_bind]

theorem matches_postfixExpression (h : BuiltBy source r b) :
    Matches source (Grammar.postfixExpression r)
      (Bare source [.postfixExpression] (Build.postfixExpression source b)) := by
  have hfirst : Walked source (Grammar.primary r)
      (do let found ← expectAny "a primary expression"; Build.primary source b found.2)
      (.one primaryRules) fun d e => d = e.bare :=
    (matches_primary h).bare (Passes.bind (f := fun _ first => Build.primary source b first)
      (passes_expectAny "a primary expression" primaryRules))
  have hselectors := (matches_selector h).all (finds_next _) r.bound
  refine Matches.walked_bare
    (x := List.foldl Expression.select <$>
      (do let found ← expectAny "a primary expression"; Build.primary source b found.2) <*>
      all next (Build.selector source b))
    (Walked.named (.seq (.map hfirst ?_) hselectors rfl) rfl ?_ .postfixExpression) rfl
    fun pair => ?_
  · rintro _ e rfl ss _ rfl
    exact Expression.foldl_select_withLead .empty e ss
  · exact passesLead_postfixExpression r
  · simp only [Build.postfixExpression, seq_eq_bind_map, map_eq_pure_bind, bind_assoc, pure_bind]

/-! ## Operators in front of operands and behind them -/

theorem walked_prefixed (h : BuiltBy source r b) :
    Walked source ((fun (lead, operator) operand => Expression.prefixed lead operator operand) <$>
        Grammar.prefixOperator <*> r.unary) (Build.unary source b)
      ((Lookahead.one [.prefixOperator]).seq (.one [.unaryExpression])) fun d e => d = e.bare := by
  have hoperator : Walked source Grammar.prefixOperator
      (do let found ← expect .prefixOperator; Build.prefixOperator source found.2)
      (.one [.prefixOperator]) fun o a => o = a.2 := by
    refine matches_prefixOperator.passed
      (Passes.bind (f := fun _ operator => Build.prefixOperator source operator)
        (passes_expect .prefixOperator)) ?_
    rintro offset xs pair ⟨t, o⟩ - ⟨-, ho, hvalid⟩
    exact ⟨o, rfl, by rw [ho, verdict_of_none hvalid]⟩
  refine Walked.congr
    (x := (fun operator operand => .prefixed .empty operator operand) <$>
      (do let found ← expect .prefixOperator; Build.prefixOperator source found.2) <*>
      Building.child .unaryExpression fun lead pair => Expression.withLead lead <$> b.unary pair)
    (.seq (.map hoperator ?_) h.unary.made_of_bare.child rfl) rfl ?_
  · rintro _ ⟨t, o⟩ rfl _ operand rfl
    rfl
  · rintro c ⟨rule, hrule, hc⟩
    obtain rfl := List.mem_singleton.mp hrule
    rw [Build.unary, nextIf_bind_of_eq hc]
    simp only [Build.prefixed, seq_eq_bind_map, map_eq_pure_bind, bind_assoc, pure_bind]

theorem walked_postfixed (h : BuiltBy source r b) :
    Walked source ((fun operand operator =>
        match operator with
        | some (operatorLead, operator) => Expression.ofPostfixed operand operatorLead operator
        | none => operand) <$> Grammar.postfixExpression r <*> optional Grammar.postfixOperator)
      (Build.unary source b)
      ((Lookahead.one [.postfixExpression]).seq
        (.upTo [.postfixOperator] fun o => o != some .postfixOperator)) fun d e => d = e.bare := by
  have hoperator : Walked source Grammar.postfixOperator (expect .postfixOperator)
      (.one [.postfixOperator]) fun found a =>
        found.1 = a.1 ∧ Build.postfixOperator source found.2 = a.2 := by
    refine matches_postfixOperator.passed (passes_expect .postfixOperator) ?_
    rintro offset xs pair ⟨t, o⟩ - ⟨rfl, ho, hvalid⟩
    exact ⟨_, ⟨rfl, ho⟩, (verdict_of_none hvalid _).symm⟩
  refine Walked.congr
    (x := (fun operand operator =>
        operator.elim operand fun found =>
          .postfixed .empty operand found.1 (Build.postfixOperator source found.2)) <$>
      Building.child .postfixExpression (fun _ => Build.postfixExpression source b) <*>
      Building.nextIf .postfixOperator)
    (.seq (.map ((matches_postfixExpression h).bare (passes_child .postfixExpression _)) ?_)
      hoperator.nextIf rfl) rfl ?_
  · rintro _ operand rfl _ _ (@⟨⟨t, pair⟩, ⟨u, o⟩, hlead, ho⟩ | _)
    · obtain rfl : t = u := hlead
      obtain rfl : Build.postfixOperator source pair = o := ho
      rfl
    · rfl
  · rintro c ⟨rule, hrule, hc⟩
    obtain rfl := List.mem_singleton.mp hrule
    rw [Build.unary, nextIf_bind_of_ne (by simp [hc])]
    simp only [Build.postfixed, seq_eq_bind_map, map_eq_pure_bind, bind_assoc, pure_bind]
    refine congrFun (bind_congr fun operand => bind_congr fun operator => ?_) c
    cases operator <;> rfl

theorem matches_unaryExpression (h : BuiltBy source r b) :
    Matches source (Grammar.unaryExpression r)
      (Bare source [.unaryExpression] (Build.unaryExpression source b)) :=
  Matches.walked_bare (Walked.named (.orElse (walked_prefixed h) (walked_postfixed h)) rfl
    (passesLead_unaryExpression r) .unaryExpression) rfl fun _ => rfl

end LosslessJava.Grammar
