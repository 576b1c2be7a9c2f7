import LosslessJava.Proofs.Grammar.Build.Chain

/-!
# Building of expressions

The grammar reads the first operand of an expression once, and only then finds the rules that the
operand belongs to. The pairs are as if each of these rules had read it for itself.

* `flatExpression`: the rule without that detour, and `behind_flatExpression`.
* `matches_expression`: the rule.
-/

namespace LosslessJava.Grammar

open LosslessJava.Grammar.Parser
open Build Building

variable {α : Type} {source : List Char} {r : Rules} {b : Builders}

/-! ## Rules that read their first operand -/

def flatAssignment (r : Rules) : Parser Expression :=
  named .assignment <|
    (fun target (operatorLead, operator) value =>
      target.ofAssignment operatorLead operator value) <$>
      unaryExpression r <*> Grammar.assignmentOperator <*> r.expression

def flatConditional (r : Rules) : Parser Expression :=
  named .conditionalExpression <|
    (fun condition finish => finish.getD id condition) <$> flatChain r <*>
      optional (Grammar.branches r)

def flatExpression (r : Rules) : Parser Expression := flatAssignment r <|> flatConditional r

theorem matches_flatAssignment (h : BuiltBy source r b) :
    Matches source (flatAssignment r) (Bare source [.assignment] (Build.assignment source b)) := by
  have hoperator : Walked source Grammar.assignmentOperator
      (do
        let found ← expect .assignmentOperator
        let operator ← Build.assignmentOperator source found.2
        return (found.1, operator))
      (.one [.assignmentOperator]) (· = ·) := by
    have hpasses := Passes.bind (f := fun lead operator => do
        let operator ← Build.assignmentOperator source operator
        return (lead, operator)) (passes_expect .assignmentOperator)
    simp only [liftM_bind, liftM_pure] at hpasses
    refine matches_assignmentOperator.passed hpasses ?_
    rintro offset xs pair ⟨t, o⟩ - ⟨rfl, ho, hvalid⟩
    exact ⟨_, rfl, by rw [ho, verdict_of_none hvalid]; rfl⟩
  have htarget := (matches_unaryExpression h).bare (passes_child .unaryExpression _)
  refine Matches.walked_bare
    (x := (fun target found value => .assignment .empty target found.1 found.2 value) <$>
      Building.child .unaryExpression (fun _ => Build.unaryExpression source b) <*>
      (do
        let found ← expect .assignmentOperator
        let operator ← Build.assignmentOperator source found.2
        return (found.1, operator)) <*>
      Building.child .expression b.expression)
    (Walked.named (.seq (.seq (.map htarget ?_) hoperator rfl) h.expression.child rfl) rfl ?_
      .assignment) rfl fun pair => ?_
  · rintro _ target rfl _ o rfl _ value rfl
    rfl
  · refine .seq <| .seq <| .map <| (passesLead_unaryExpression r).mono fun t e e' heq o value => ?_
    rw [heq]
    exact Expression.ofAssignment_withLead t e o.1 o.2 value
  · simp only [Build.assignment, seq_eq_bind_map, map_eq_pure_bind, bind_assoc, pure_bind]

/-- Both make the same of a first operand, but for its lead. -/
def SameFinish (f g : Expression → Expression) : Prop := ∀ e, f e.bare = (g e).bare

theorem walked_branches (h : BuiltBy source r b) :
    Walked source (Grammar.branches r)
      (do let (lead, _) ← expect .question; Build.branches b lead)
      ((((Lookahead.one [.question]).seq (.one [.expression])).seq (.one [.colon])).seq
        (.one [.expression])) SameFinish := by
  have hwalk : Walked source (Grammar.branches r)
      ((fun questionLead thenPart colonLead elsePart condition =>
          .conditional .empty condition questionLead thenPart colonLead elsePart) <$>
        Building.token .question <*> Building.child .expression b.expression <*>
        Building.token .colon <*> Building.child .expression b.expression)
      ((((Lookahead.one [.question]).seq (.one [.expression])).seq (.one [.colon])).seq
        (.one [.expression])) SameFinish := by
    refine .seq (.seq (.seq (.map (walked_delimiter (by decide)) ?_) h.expression.child rfl)
      (walked_delimiter (by decide)) rfl) h.expression.child rfl
    rintro _ t rfl _ thenPart rfl _ u rfl _ elsePart rfl e
    rfl
  refine hwalk.congr rfl fun c _ => ?_
  simp only [Build.branches, Building.token, seq_eq_bind_map, map_eq_pure_bind, bind_assoc,
    pure_bind]

theorem matches_flatConditional (h : BuiltBy source r b) :
    Matches source (flatConditional r)
      (Bare source [.conditionalExpression] (Build.conditional source b)) := by
  have hcondition := (matches_flatChain h).bare (passes_child .binaryExpression _)
  refine Matches.walked_bare
    (x := (fun condition finish => finish.getD id condition) <$>
      Building.child .binaryExpression (fun _ => Build.binary source b) <*>
      whenFound (nextIf .question) fun lead _ => Build.branches b lead)
    (Walked.named (.seq (.map hcondition ?_) ((walked_branches h).whenFound rfl rfl) rfl) rfl ?_
      .conditionalExpression) rfl fun pair => ?_
  · rintro _ condition rfl _ _ (@⟨f, g, hfg⟩ | _)
    · exact hfg condition
    · rfl
  · refine .seq_of_yields (.map ?_) (keepsLead_branches r).optional
    refine (passesLead_flatChain r).mono fun t e e' heq finish hfinish => ?_
    rw [heq]
    exact KeepsLead.getD hfinish t e
  · simp only [Build.conditional, seq_eq_bind_map, map_eq_pure_bind, bind_assoc, pure_bind]

/-! ## The rule -/

/-- A rule that starts in front of it starts with the pair there. -/
theorem Matches.map_around {p : Parser α} {C : Relation α} (h : Matches source p C) {offset : Nat}
    {ls : List Lexeme} (hls : Within source offset ls) (u : Pair) (rule : Rule) (other : Nat) :
    (p.pairs [u] ⟨offset, ls⟩).map (fun m => Match.mk
        [⟨rule, (m.pairs.head?.map Pair.start).getD other, m.stop, m.pairs⟩] m.stop m.place) =
      (p.pairs [u] ⟨offset, ls⟩).map fun m =>
        Match.mk [⟨rule, u.start, m.stop, m.pairs⟩] m.stop m.place := by
  rcases h offset ls hls with ⟨-, hp⟩ | ⟨a, xs, rest, ps, stop, -, -, hp, -, -⟩
  · rw [hp]
    rfl
  · rw [hp]
    rfl

theorem parse_flatExpression (r : Rules) (ls : List Lexeme) :
    ((fun first finish => finish first) <$> unaryExpression r <*>
      (assigned r <|> computed r)).parse ls = (flatExpression r).parse ls := by
  have hassignment : (flatAssignment r).parse ls =
      match (unaryExpression r).parse ls with
      | none => none
      | some (e, rest) => ((assigned r).parse rest).map fun (finish, rest) => (finish e, rest) := by
    unfold flatAssignment assigned
    simp only [named, around, parse_seq, parse_map]
    cases (unaryExpression r).parse ls with
    | none => rfl
    | some e =>
      simp only [Option.map_some]
      cases Grammar.assignmentOperator.parse e.2 with
      | none => rfl
      | some o =>
        simp only [Option.map_some]
        cases r.expression.parse o.2 <;> rfl
  have hconditional : (flatConditional r).parse ls =
      match (unaryExpression r).parse ls with
      | none => none
      | some (e, rest) => ((computed r).parse rest).map fun (finish, rest) => (finish e, rest) := by
    unfold flatConditional flatChain computed chain
    simp only [named, around, parse_seq, parse_map]
    cases (unaryExpression r).parse ls with
    | none => rfl
    | some e =>
      simp only [Option.map_some, many]
      cases (optional (Grammar.branches r)).parse (parseMany _ r.bound e.2).2 <;> rfl
  rw [flatExpression, parse_orElse, parse_seq, parse_map, hassignment, hconditional]
  cases (unaryExpression r).parse ls with
  | none => rfl
  | some e =>
    simp only [Option.map_some, parse_orElse]
    cases (assigned r).parse e.2 <;> rfl

theorem behind_flatExpression (h : BuiltBy source r b) :
    Behind source ((fun first finish => finish first) <$> unaryExpression r <*>
      (assigned r <|> computed r)) (flatExpression r) := by
  have hunary := matches_unaryExpression h
  have hbehind := hunary.behind fun _ _ _ _ => by
    rintro ⟨_, rfl, -⟩ hnil
    cases hnil
  refine ⟨?_, fun offset hls => ?_, fun l ls => parse_flatExpression r (l.bare :: ls),
    fun offset l ls hls => ?_⟩
  · rw [parse_seq, parse_map, hbehind.nil]
    rfl
  · rw [pairs_seq, pairs_map, hbehind.pairs_nil offset hls]
  have hstart : Place.start ⟨offset, l.bare :: ls⟩ = offset := start_eq offset (l.bare :: ls)
  rcases hunary offset (l.bare :: ls) hls with
    ⟨-, hp⟩ | ⟨e, xs, rest, _, stop, hxs, -, hp, -, ⟨u, rfl, -, hspans, -⟩⟩
  · simp only [flatExpression, flatAssignment, flatConditional, flatChain, named, pairOf, skip_bare,
      hstart, pairs_orElse, pairs_seq, pairs_map, hp, Option.map_none]
  · rw [hxs] at hls
    have hu : u.start = offset := by
      have hleads : leadOf xs = .empty := by
        rw [← leadOf_append hspans.ne_nil rest, ← hxs]
        rfl
      rw [hspans.start, hleads]
      rfl
    have hassigned := Matches.map_around
      (p := Prod.mk <$> Grammar.assignmentOperator <*> r.expression)
      ((matches_assignmentOperator.map _).seq h.expression) hls.right u .assignment
    simp only [pairs_seq, pairs_map, hu] at hassigned
    simp only [flatExpression, flatAssignment, flatConditional, flatChain, assigned, computed,
      chain, around, named, pairOf, skip_bare, hstart, pairs_orElse, pairs_seq, pairs_map, hp,
      List.nil_append, hassigned]
    rcases ((matches_binaryOperator.map Prod.mk).seq hunary |>.many r.bound) _ rest hls.right with
      ⟨-, hq⟩ | ⟨_, ys, rest', ps, stop', rfl, -, hq, -, -⟩
    · simp only [hq, Option.map_none]
    · have hcomputed := (Matches.optional (walked_branches h)).map_around hls.right.right
        ⟨.binaryExpression, offset, stop', u :: ps⟩ .conditionalExpression
      simp only [hq, Option.map_some, List.cons_append, List.nil_append, List.head?_cons,
        Option.getD_some, hu, hcomputed]

/-! ## The rule -/

theorem matches_expression (h : BuiltBy source r b) :
    Matches source (Grammar.expression r)
      (Made source [.expression] (Build.expression source b)) := by
  have hflat : Matches source (flatExpression r)
      (Bare source ([.assignment] ++ [.conditionalExpression])
        (Build.assignmentOrConditional source b)) :=
    .choice (.bare_as (matches_flatAssignment h) fun _ _ _ => rfl)
      (.bare_as (matches_flatConditional h) fun _ _ _ => rfl)
  have hwalk := hflat.bare (Passes.bind
    (f := fun _ pair => Build.assignmentOrConditional source b pair)
    (passes_expectAny "an expression" _))
  have hpair := Matches.summary hwalk (fun _ _ _ _ hw hnil => nomatch hw.nullable hnil)
    (behind_flatExpression h) (passesLead_expression r) .expression
  exact (hpair.walked_bare rfl fun _ => rfl).made_of_bare

end LosslessJava.Grammar
