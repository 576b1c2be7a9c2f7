import LosslessJava.Proofs.Grammar.Build.Matches

/-!
# Walks along matches

A walk over the pairs of a match comes to the value that the parser reads, or to the error of the
first literal that denotes no value. The steps of the walk follow the parts of the parser. A step
that can end at different places looks at the next pair, so it matters which pairs can follow.

* `Lookahead`: the rules that a step can start with, and those that it ends in front of.
* `Walked`: the step builds what the parser reads, and passes what the parser matches.
* `Walked.map`, `Walked.seq`, `Walked.optional`, `Matches.all`, `Matches.elements`: steps put
  together as parsers are.
* `Made`, `Walked.made`: the pair of a rule is built as the rule reads it.
-/

namespace LosslessJava.Grammar

open LosslessJava.Grammar.Parser
open Build Building

variable {α β γ δ : Type} {source : List Char}

/-! ## Looking ahead -/

/-- What a step of a walk sees of the pairs ahead. -/
structure Lookahead where
  /-- The rules that the first pair can have. -/
  first : List Rule
  /-- Whether the step ends in front of a pair of the rule, or at the end of the pairs. -/
  follow : Option Rule → Bool
  /-- Whether the step can pass no pair. -/
  nullable : Bool

namespace Lookahead

/-- One pair. -/
def one (rules : List Rule) : Lookahead := ⟨rules, fun _ => true, false⟩

/-- Any number of pairs, and none of the rules behind them. -/
def upTo (rules : List Rule) (follow : Option Rule → Bool) : Lookahead := ⟨rules, follow, true⟩

def seq (s t : Lookahead) : Lookahead where
  first := if s.nullable then s.first ++ t.first else s.first
  follow o := t.follow o && (!t.nullable || s.follow o)
  nullable := s.nullable && t.nullable

def orElse (s t : Lookahead) : Lookahead where
  first := s.first ++ t.first
  follow o := s.follow o && t.follow o
  nullable := s.nullable || t.nullable

/-- The first step ends in front of everything that the second one can start with. -/
def admits (s t : Lookahead) : Bool := t.first.all fun r => s.follow (some r)

theorem one_admits (rules : List Rule) (t : Lookahead) : (one rules).admits t = true :=
  List.all_eq_true.mpr fun _ _ => rfl

end Lookahead

/-! ## Steps -/

/-- The step passes these pairs and no others that follow, up to the end of the lexemes. It comes to
a value related to that of the lexemes, or to the first error in them. -/
structure Walks (source : List Char) (x : Building β) (s : Lookahead) (V : β → α → Prop)
    (offset : Nat) (xs : List Lexeme) (ps : List Pair) (a : α) : Prop where
  first : ∀ p ∈ ps.head?, p.rule ∈ s.first
  nullable : ps = [] → s.nullable = true
  run : ∃ b, V b a ∧ ∀ qs : List Pair, s.follow (qs.head?.map Pair.rule) = true →
    x ⟨source, offset, ps ++ qs⟩ = verdict offset xs (b, ⟨source, after offset xs, qs⟩)

/-- The step builds what the parser reads, and passes what the parser matches. -/
def Walked (source : List Char) (p : Parser α) (x : Building β) (s : Lookahead)
    (V : β → α → Prop) : Prop := Matches source p (Walks source x s V)

theorem seq_run (x : Building (α → β)) (y : Building α) (c : Cursor) :
    (x <*> y) c = x c >>= fun r => (fun q => (r.1 q.1, q.2)) <$> y r.2 := by
  rfl

theorem map_run (f : α → β) (x : Building α) (c : Cursor) :
    (f <$> x) c = (fun q => (f q.1, q.2)) <$> x c := by
  rfl

theorem bind_run (x : Building α) (k : α → Building β) (c : Cursor) :
    (x >>= k) c = x c >>= fun r => k r.1 r.2 := by
  rfl

namespace Walked

variable {p q : Parser α} {x y : Building β} {s t : Lookahead} {V : β → α → Prop}

theorem mono {W : β → α → Prop} (h : Walked source p x s V) (hV : ∀ b a, V b a → W b a) :
    Walked source p x s W :=
  Matches.mono h fun _ _ _ _ ⟨hfirst, hnull, b, hb, hrun⟩ =>
    ⟨hfirst, hnull, b, hV _ _ hb, hrun⟩

theorem map {f : β → δ} {g : α → γ} {W : δ → γ → Prop} (h : Walked source p x s V)
    (hV : ∀ b a, V b a → W (f b) (g a)) : Walked source (g <$> p) (f <$> x) s W := by
  refine (Matches.map h g).mono ?_
  rintro offset xs ps _ ⟨a, ⟨hfirst, hnull, b, hb, hrun⟩, rfl⟩
  refine ⟨hfirst, hnull, f b, hV b a hb, fun qs hqs => ?_⟩
  rw [map_run, hrun qs hqs, verdict_map]

/-- The same function of the same value. -/
theorem map_same {p : Parser α} {x : Building α} (h : Walked source p x s (· = ·)) (f : α → γ) :
    Walked source (f <$> p) (f <$> x) s (· = ·) :=
  h.map fun _ _ heq => by rw [heq]

/-- A function of what the step comes to. -/
theorem image {f : β → δ} {W : δ → α → Prop} (h : Walked source p x s V)
    (hV : ∀ b a, V b a → W (f b) a) : Walked source p (f <$> x) s W := by
  refine Matches.mono h ?_
  rintro offset xs ps a ⟨hfirst, hnull, b, hb, hrun⟩
  refine ⟨hfirst, hnull, f b, hV b a hb, fun qs hqs => ?_⟩
  rw [map_run, hrun qs hqs, verdict_map]

/-- The same expression, without its lead. -/
theorem withoutLead {p : Parser Expression} {x : Building Expression}
    (h : Walked source p x s (· = ·)) :
    Walked source p (Expression.bare <$> x) s fun d e => d = e.bare :=
  h.image fun _ _ heq => by rw [heq]

/-- One step behind the other. The first one ends in front of what the second one starts with. -/
theorem seq {p : Parser (α → γ)} {q : Parser α} {x : Building (β → δ)} {y : Building β}
    {W : δ → γ → Prop} (h : Walked source p x s fun f g => ∀ b a, V b a → W (f b) (g a))
    (h' : Walked source q y t V) (hadmits : s.admits t = true) :
    Walked source (p <*> q) (x <*> y) (s.seq t) W := by
  refine (Matches.seq h h').mono ?_
  rintro offset _ _ _ ⟨xs, ys, ps, qs, g, a, rfl, rfl, ⟨hfirst, hnull, f, hf, hrun⟩,
    ⟨hfirst', hnull', b, hb, hrun'⟩, rfl⟩
  refine ⟨?_, ?_, f b, hf b a hb, fun rs hrs => ?_⟩
  · intro pair hpair
    cases ps with
    | nil =>
      simp only [Lookahead.seq, hnull rfl, if_true]
      exact List.mem_append_right _ (hfirst' pair hpair)
    | cons p ps =>
      have hmem := hfirst pair hpair
      simp only [Lookahead.seq]
      split
      · exact List.mem_append_left _ hmem
      · exact hmem
  · intro hnil
    obtain ⟨hps, hqs⟩ := List.append_eq_nil_iff.mp hnil
    simp only [Lookahead.seq, hnull hps, hnull' hqs, Bool.and_self]
  · simp only [Lookahead.seq, Bool.and_eq_true, Bool.or_eq_true, Bool.not_eq_true'] at hrs
    have hfollow : s.follow ((qs ++ rs).head?.map Pair.rule) = true := by
      cases qs with
      | nil =>
        rcases hrs.2 with hnot | hfollow
        · rw [hnull' rfl] at hnot
          cases hnot
        · exact hfollow
      | cons q qs => exact List.all_eq_true.mp hadmits _ (hfirst' q rfl)
    rw [List.append_assoc, seq_run, hrun _ hfollow]
    refine verdict_bind ?_
    rw [hrun' rs hrs.1, verdict_map, after_append]

/-- The same steps with the same values. -/
theorem apply {p : Parser (α → γ)} {q : Parser α} {x : Building (α → γ)} {y : Building α}
    (h : Walked source p x s (· = ·)) (h' : Walked source q y t (· = ·))
    (hadmits : s.admits t = true) : Walked source (p <*> q) (x <*> y) (s.seq t) (· = ·) :=
  (h.mono fun _ _ heq _ _ heq' => by rw [heq, heq']).seq h' hadmits

/-- One step for either parser. -/
theorem orElse (h : Walked source p x s V) (h' : Walked source q x t V) :
    Walked source (p <|> q) x (s.orElse t) V := by
  refine Matches.orElse (Matches.mono h ?_) (Matches.mono h' ?_)
  · rintro offset xs ps a ⟨hfirst, hnull, b, hb, hrun⟩
    refine ⟨fun r hr => List.mem_append_left _ (hfirst r hr), fun hnil => ?_, b, hb,
      fun qs hqs => hrun qs (Bool.and_eq_true_iff.mp hqs).1⟩
    simp only [Lookahead.orElse, hnull hnil, Bool.true_or]
  · rintro offset xs ps a ⟨hfirst, hnull, b, hb, hrun⟩
    refine ⟨fun r hr => List.mem_append_right _ (hfirst r hr), fun hnil => ?_, b, hb,
      fun qs hqs => hrun qs (Bool.and_eq_true_iff.mp hqs).2⟩
    simp only [Lookahead.orElse, hnull hnil, Bool.or_true]

/-- Another step that is the same in front of what is passed. -/
theorem congr (h : Walked source p x s V) (hs : s.nullable = false)
    (hxy : ∀ c : Cursor, (∃ r ∈ s.first, c.pairs.head?.map Pair.rule = some r) → y c = x c) :
    Walked source p y s V := by
  refine Matches.mono h ?_
  rintro offset xs ps a ⟨hfirst, hnull, b, hb, hrun⟩
  refine ⟨hfirst, hnull, b, hb, fun qs hqs => ?_⟩
  cases ps with
  | nil =>
    have := hnull rfl
    rw [hs] at this
    cases this
  | cons p ps => rw [hxy _ ⟨p.rule, hfirst p rfl, rfl⟩, hrun qs hqs]

theorem optional {y : Building (Option β)} (h : Walked source p x s V) (hs : s.nullable = false)
    (follow : Option Rule → Bool)
    (hsome : ∀ c : Cursor, (∃ r ∈ s.first, c.pairs.head?.map Pair.rule = some r) →
      y c = (some <$> x) c)
    (hnone : ∀ c : Cursor, follow (c.pairs.head?.map Pair.rule) = true → y c = .ok (none, c)) :
    Walked source (optional p) y (.upTo s.first fun o => s.follow o && follow o)
      (Option.Rel V) := by
  refine (Matches.optional h).mono ?_
  rintro offset xs ps o (_ | hC)
  · refine ⟨by simp, fun _ => rfl, none, .none, fun qs hqs => ?_⟩
    rw [List.nil_append, hnone _ (Bool.and_eq_true_iff.mp hqs).2]
    rfl
  · obtain ⟨hfirst, hnull, b, hb, hrun⟩ := hC
    refine ⟨hfirst, fun _ => rfl, some b, .some hb, fun qs hqs => ?_⟩
    cases ps with
    | nil =>
      have := hnull rfl
      rw [hs] at this
      cases this
    | cons p ps =>
      rw [hsome _ ⟨p.rule, hfirst p rfl, rfl⟩, map_run, hrun qs (Bool.and_eq_true_iff.mp hqs).1,
        verdict_map]

end Walked

/-! ## Single pairs -/

/-- The step passes one pair of one of the rules, and makes a value of it. -/
def Passes (x : Building β) (rules : List Rule) (g : Trivia → Pair → Built β) : Prop :=
  ∀ source position pair qs, pair.rule ∈ rules → x ⟨source, position, pair :: qs⟩ =
    (·, ⟨source, pair.tokenEnd, qs⟩) <$> g (gap source position pair.start) pair

theorem next_cons (source : List Char) (position : Nat) (pair : Pair) (qs : List Pair) :
    next ⟨source, position, pair :: qs⟩ = .ok
      (some (gap source position pair.start, pair), ⟨source, pair.tokenEnd, qs⟩) := rfl

theorem nextIf_of_eq {rule : Rule} {c : Cursor} (h : c.pairs.head?.map Pair.rule = some rule) :
    nextIf rule c = next c := by
  rw [nextIf, nextWhere, h, Option.any_some, beq_self_eq_true, if_pos rfl]

theorem nextIf_of_ne {rule : Rule} {c : Cursor} (h : c.pairs.head?.map Pair.rule ≠ some rule) :
    nextIf rule c = .ok (none, c) := by
  rw [nextIf, nextWhere, if_neg]
  cases hc : c.pairs.head?.map Pair.rule with
  | none => simp
  | some r =>
    rw [hc] at h
    simpa using fun hr => h (congrArg some hr)

theorem passes_expect (rule : Rule) :
    Passes (expect rule) [rule] fun lead pair => .ok (lead, pair) := by
  intro source position pair qs hrule
  obtain rfl := List.mem_singleton.mp hrule
  rw [expect, bind_run, nextIf_of_eq rfl]
  rfl

theorem passes_expectAny (expected : String) (rules : List Rule) :
    Passes (expectAny expected) rules fun lead pair => .ok (lead, pair) :=
  fun _ _ _ _ _ => rfl

theorem passes_token (rule : Rule) :
    Passes (Building.token rule) [rule] fun lead _ => .ok lead := by
  intro source position pair qs hrule
  rw [Building.token, map_run, passes_expect rule source position pair qs hrule]
  rfl

/-- A pair that is passed, and what is made of it. -/
theorem Passes.bind {rules : List Rule} {x : Building (Trivia × Pair)} {f : Trivia → Pair → Built β}
    (h : Passes x rules fun lead pair => .ok (lead, pair)) :
    Passes (do let (lead, pair) ← x; f lead pair) rules f := by
  intro source position pair qs hrule
  rw [bind_run, h source position pair qs hrule]
  rfl

/-- The next pair is asked for by its rule, or whatever it is. -/
theorem expectAny_bind {expected : String} {rule : Rule} {k k' : Trivia × Pair → Building β}
    {c : Cursor} (hc : c.pairs.head?.map Pair.rule = some rule)
    (hk : ∀ lead (pair : Pair), pair.rule = rule → k (lead, pair) = k' (lead, pair)) :
    (expectAny expected >>= k) c = (expect rule >>= k') c := by
  obtain ⟨source, position, _ | ⟨p, ps⟩⟩ := c
  · cases hc
  · obtain rfl : p.rule = rule := Option.some.inj hc
    rw [bind_run, bind_run, passes_expect p.rule source position p ps (List.mem_singleton_self _),
      passes_expectAny expected [p.rule] source position p ps (List.mem_singleton_self _)]
    show k (gap source position p.start, p) _ = k' (gap source position p.start, p) _
    rw [hk _ _ rfl]

theorem passes_child (rule : Rule) (f : Trivia → Pair → Built β) :
    Passes (child rule f) [rule] f := (passes_expect rule).bind

theorem Matches.passed {p : Parser α} {x : Building β} {rules : List Rule}
    {g : Trivia → Pair → Built β} {V : β → α → Prop}
    {Q : Nat → List Lexeme → Pair → α → Prop} (h : Matches source p (Single source rules Q))
    (hx : Passes x rules g) (hQ : ∀ offset xs pair a, pair.rule ∈ rules → Q offset xs pair a →
      ∃ b, V b a ∧ g (leadOf xs) pair = verdict offset xs b) :
    Walked source p x (.one rules) V := by
  refine Matches.mono h ?_
  rintro offset xs _ a ⟨pair, rfl, hrule, hspans, hpair⟩
  obtain ⟨b, hb, hg⟩ := hQ offset xs pair a hrule hpair
  refine ⟨by simpa [Lookahead.one] using hrule, by simp, b, hb, fun qs _ => ?_⟩
  rw [List.singleton_append, hx source offset pair qs hrule, hspans.gap, hg, verdict_map,
    hspans.stop]

/-! ## Pairs of rules -/

/-- The lexemes are a token that is no literal, of which only the lead is kept. -/
def Kept (source : List Char) (rule : Rule) : Relation Trivia :=
  Single source [rule] fun offset xs _ t => t = leadOf xs ∧ firstInvalid offset xs = none

/-- The value is built of the pair and the trivia in front of it. -/
def Made (source : List Char) (rules : List Rule) (f : Trivia → Pair → Built α) : Relation α :=
  Single source rules fun offset xs pair a => f (leadOf xs) pair = verdict offset xs a

/-- The expression is built of the pair without the trivia in front of it. -/
def Bare (source : List Char) (rules : List Rule) (f : Pair → Built Expression) :
    Relation Expression :=
  Single source rules fun offset xs pair e => f pair = verdict offset xs e.bare ∧ e.lead = leadOf xs

theorem Matches.token {p : Parser Trivia} {rule : Rule} (h : Matches source p (Kept source rule)) :
    Walked source p (Building.token rule) (.one [rule]) (· = ·) := by
  refine h.passed (passes_token rule) ?_
  rintro offset xs pair _ - ⟨rfl, hvalid⟩
  exact ⟨_, rfl, (verdict_of_none hvalid _).symm⟩

theorem Matches.made {p : Parser α} {x : Building α} {rules : List Rule}
    {f : Trivia → Pair → Built α} (h : Matches source p (Made source rules f))
    (hx : Passes x rules f) : Walked source p x (.one rules) (· = ·) :=
  h.passed hx fun _ _ _ a _ hf => ⟨a, rfl, hf⟩

theorem Matches.child {p : Parser α} {rule : Rule} {f : Trivia → Pair → Built α}
    (h : Matches source p (Made source [rule] f)) :
    Walked source p (Building.child rule f) (.one [rule]) (· = ·) := h.made (passes_child rule f)

/-- An expression that is built without its lead. -/
theorem Matches.bare {p : Parser Expression} {x : Building Expression} {rules : List Rule}
    {f : Pair → Built Expression} (h : Matches source p (Bare source rules f))
    (hx : Passes x rules fun _ pair => f pair) :
    Walked source p x (.one rules) fun d e => d = e.bare :=
  h.passed hx fun _ _ _ _ _ hf => ⟨_, rfl, hf.1⟩

theorem Matches.made_of_bare {p : Parser Expression} {rules : List Rule}
    {f : Pair → Built Expression} (h : Matches source p (Bare source rules f)) :
    Matches source p (Made source rules fun lead pair => Expression.withLead lead <$> f pair) := by
  refine h.mono_single ?_
  rintro offset xs pair e - - ⟨hf, hlead⟩
  show Expression.withLead (leadOf xs) <$> f pair = verdict offset xs e
  rw [hf, verdict_map, ← hlead, Expression.bare, Expression.withLead_withLead,
    Expression.withLead_lead]

namespace Walked

variable {p q : Parser α} {x : Building β} {s : Lookahead} {V : β → α → Prop}
  {R : Trivia → α → α → Prop}

/-- A walk over the parts of a rule. -/
theorem behind (h : Walked source p x s V) (hs : s.nullable = false) : Behind source p p := by
  refine Matches.behind h fun _ _ _ _ hw hnil => ?_
  have hnull := hw.nullable hnil
  rw [hs] at hnull
  cases hnull

theorem namedBehind (h : Walked source q x s V) (hs : s.nullable = false)
    (hbehind : Behind source p q) (hlead : PassesLead R p) (rule : Rule) :
    Matches source (Parser.named rule p)
      (Single source [rule] (PartsOf (Walks source x s V) R)) := by
  refine Matches.named h (fun _ _ _ _ hw hnil => ?_) hbehind hlead rule
  have hnull := hw.nullable hnil
  rw [hs] at hnull
  cases hnull

theorem named (h : Walked source p x s V) (hs : s.nullable = false) (hlead : PassesLead R p)
    (rule : Rule) :
    Matches source (Parser.named rule p) (Single source [rule] (PartsOf (Walks source x s V) R)) :=
  h.namedBehind hs (h.behind hs) hlead rule

end Walked

/-- The walk over the parts of a pair. -/
theorem PartsOf.walk {x : Building β} {s : Lookahead} {V : β → α → Prop}
    {R : Trivia → α → α → Prop} {offset : Nat} {xs : List Lexeme} {pair : Pair} {a : α}
    (h : PartsOf (Walks source x s V) R offset xs pair a) (hspans : Spans source offset xs pair)
    (hend : s.follow none = true) :
    ∃ b c, V b c ∧ R (leadOf xs) c a ∧ ∀ (k : β → Built γ) (d : γ), k b = .ok d →
      pair.walk source (do let b ← x; k b) = verdict offset xs d := by
  obtain ⟨l, ys, c, rfl, ⟨-, -, b, hb, hrun⟩, hR⟩ := h
  refine ⟨b, c, hb, hR, fun k d hk => ?_⟩
  have hrun := hrun [] hend
  rw [List.append_nil] at hrun
  have hvalue : ∀ r : β × Cursor, r.1 = b →
      Prod.fst <$> (liftM (k r.1) : Building γ) r.2 = .ok d := by
    rintro ⟨_, cursor⟩ rfl
    rw [hk]
    rfl
  rw [Pair.walk, bind_run, hrun, hspans.start, leadOf, ← verdict_bare offset l ys d, verdict,
    verdict]
  cases firstInvalid (offset + byteLength l.lead.toList) (l.bare :: ys) with
  | none => exact hvalue _ rfl
  | some e => rfl

/-- The walk over the parts of a rule makes its value. -/
theorem Matches.walked {p : Parser α} {rule : Rule} {x : Building β} {s : Lookahead}
    {V : β → α → Prop} {f : Trivia → Pair → Built α} (put : Trivia → α → α)
    (h : Matches source p
      (Single source [rule] (PartsOf (Walks source x s V) fun t a b => b = put t a)))
    (hend : s.follow none = true) (k : Trivia → β → Built α)
    (hk : ∀ t b a, V b a → k t b = .ok (put t a))
    (hf : ∀ t pair, f t pair = pair.walk source (do let b ← x; k t b)) :
    Matches source p (Made source [rule] f) := by
  refine h.mono_single ?_
  intro offset xs pair a _ hspans hparts
  obtain ⟨b, c, hb, rfl, hwalk⟩ := hparts.walk hspans hend
  rw [hf, hwalk (k (leadOf xs)) _ (hk _ b c hb)]

/-- The walk over the parts of a rule makes its value, with the lead that the pair has. -/
theorem Matches.walked_eq {p : Parser α} {rule : Rule} {x : Building α} {s : Lookahead}
    {f : Trivia → Pair → Built α} (put : Trivia → α → α)
    (h : Matches source p
      (Single source [rule] (PartsOf (Walks source x s (· = ·)) fun t a b => b = put t a)))
    (hend : s.follow none = true) (hf : ∀ t pair, f t pair = pair.walk source (put t <$> x)) :
    Matches source p (Made source [rule] f) :=
  h.walked put hend (fun t b => .ok (put t b)) (fun t _ _ heq => by rw [heq]) fun t pair => by
    rw [hf, map_eq_pure_bind]
    rfl

/-- The walk over the parts of an expression makes it without its lead. -/
theorem Matches.walked_bare {p : Parser Expression} {rule : Rule} {x : Building Expression}
    {s : Lookahead} {f : Pair → Built Expression}
    (h : Matches source p (Single source [rule]
      (PartsOf (Walks source x s fun d e => d = e.bare) SameExpression)))
    (hend : s.follow none = true) (hf : ∀ pair, f pair = pair.walk source x) :
    Matches source p (Bare source [rule] f) := by
  refine h.mono_single ?_
  intro offset xs pair e _ hspans hparts
  obtain ⟨_, c, rfl, rfl, hwalk⟩ := hparts.walk (γ := Expression) hspans hend
  refine ⟨?_, Expression.lead_withLead _ _⟩
  have hpure : (do let b ← x; (.ok b : Built Expression)) = x := bind_pure x
  have hwalk := hwalk .ok c.bare rfl
  rw [hpure] at hwalk
  rw [hf, hwalk, Expression.bare_withLead]

theorem whenFound_of_eq {rule : Rule} {k : Trivia → Pair → Building β} {c : Cursor}
    (hc : c.pairs.head?.map Pair.rule = some rule) : whenFound (nextIf rule) k c =
      (some <$> (do let (lead, pair) ← expect rule; k lead pair)) c := by
  obtain ⟨source, position, _ | ⟨p, ps⟩⟩ := c
  · cases hc
  · obtain rfl : p.rule = rule := Option.some.inj hc
    rw [whenFound, bind_run, nextIf_of_eq rfl, map_run, bind_run,
      passes_expect p.rule source position p ps (List.mem_singleton_self _)]
    rfl

theorem whenFound_of_ne {rule : Rule} {k : Trivia → Pair → Building β} {c : Cursor}
    (hc : c.pairs.head?.map Pair.rule ≠ some rule) :
    whenFound (nextIf rule) k c = .ok (none, c) := by
  rw [whenFound, bind_run, nextIf_of_ne hc]
  rfl

/-- A part that starts with a pair of the rule, or is not there. -/
theorem Walked.whenFound {p : Parser α} {rule : Rule} {k : Trivia → Pair → Building β}
    {s : Lookahead} {V : β → α → Prop}
    (h : Walked source p (do let (lead, pair) ← expect rule; k lead pair) s V)
    (hs : s.nullable = false) (hfirst : s.first = [rule]) :
    Walked source (Parser.optional p) (whenFound (nextIf rule) k)
      (.upTo s.first fun o => s.follow o && o != some rule) (Option.Rel V) := by
  refine h.optional hs (fun o => o != some rule) (fun c hc => ?_) fun c hc => ?_
  · obtain ⟨r, hr, hc⟩ := hc
    rw [hfirst, List.mem_singleton] at hr
    exact whenFound_of_eq (hr ▸ hc)
  · exact whenFound_of_ne (bne_iff_ne.mp hc)

/-- A pair of the rule, or nothing. -/
theorem Walked.nextIf {p : Parser α} {rule : Rule} {V : Trivia × Pair → α → Prop}
    (h : Walked source p (expect rule) (.one [rule]) V) :
    Walked source (Parser.optional p) (Building.nextIf rule) (.upTo [rule] fun o => o != some rule)
      (Option.Rel V) := by
  refine h.optional rfl (fun o => o != some rule) (fun c hc => ?_) fun c hc => ?_
  · obtain ⟨r, hr, hc⟩ := hc
    obtain rfl := List.mem_singleton.mp hr
    obtain ⟨source, position, _ | ⟨p, ps⟩⟩ := c
    · cases hc
    · obtain rfl : p.rule = r := Option.some.inj hc
      rw [nextIf_of_eq rfl, map_run,
        passes_expect p.rule source position p ps (List.mem_singleton_self _)]
      rfl
  · exact nextIf_of_ne (bne_iff_ne.mp hc)

theorem nextIf_bind_of_eq {rule : Rule} {k : Option (Trivia × Pair) → Building β} {c : Cursor}
    (hc : c.pairs.head?.map Pair.rule = some rule) :
    (Building.nextIf rule >>= k) c = (expect rule >>= fun found => k (some found)) c := by
  obtain ⟨source, position, _ | ⟨p, ps⟩⟩ := c
  · cases hc
  · obtain rfl : p.rule = rule := Option.some.inj hc
    rw [bind_run, bind_run, nextIf_of_eq rfl,
      passes_expect p.rule source position p ps (List.mem_singleton_self _)]
    rfl

theorem nextIf_bind_of_ne {rule : Rule} {k : Option (Trivia × Pair) → Building β} {c : Cursor}
    (hc : c.pairs.head?.map Pair.rule ≠ some rule) : (Building.nextIf rule >>= k) c = k none c := by
  rw [bind_run, nextIf_of_ne hc]
  rfl

theorem optionRel_eq {o o' : Option α} (h : Option.Rel (· = ·) o o') : o = o' := by
  cases h with
  | some h => rw [h]
  | none => rfl

theorem Matches.perhaps {p : Parser α} {rule : Rule} {f : Trivia → Pair → Built α}
    (h : Matches source p (Made source [rule] f)) :
    Walked source (Parser.optional p) (Building.perhaps rule f)
      (.upTo [rule] fun o => o != some rule) (· = ·) := by
  have hfound := Walked.whenFound (k := fun lead pair => liftM (f lead pair)) h.child rfl rfl
  exact Walked.mono hfound fun _ _ => optionRel_eq

/-! ## Repetitions -/

/-- The pairs of the rules are found, and nothing is found in front of those that may follow. -/
structure Finds (found : Building (Option (Trivia × Pair))) (rules : List Rule)
    (follow : Option Rule → Bool) : Prop where
  taken : ∀ c : Cursor, (∃ r ∈ rules, c.pairs.head?.map Pair.rule = some r) → found c = next c
  ended : ∀ c : Cursor, follow (c.pairs.head?.map Pair.rule) = true → found c = .ok (none, c)

theorem finds_nextWhere {accepts : Rule → Bool} {rules : List Rule}
    (h : ∀ r ∈ rules, accepts r = true) :
    Finds (nextWhere accepts) rules fun o => !o.any accepts := by
  refine ⟨fun c ⟨r, hr, hc⟩ => ?_, fun c hc => ?_⟩
  · rw [nextWhere, hc, Option.any_some, h r hr, if_pos rfl]
  · rw [nextWhere, if_neg (by simpa using hc)]

theorem finds_nextIf (rule : Rule) : Finds (nextIf rule) [rule] fun o => !o.any (· == rule) :=
  finds_nextWhere (by simp)

theorem finds_nextUnless {rule : Rule} {expected : String} {rules : List Rule}
    (h : rule ∉ rules) : Finds (nextUnless rule expected) rules fun o => o == some rule := by
  refine ⟨fun c ⟨r, hr, hc⟩ => ?_, fun c hc => ?_⟩
  · obtain ⟨source, position, _ | ⟨p, ps⟩⟩ := c
    · cases hc
    · obtain rfl : p.rule = r := Option.some.inj hc
      have hne : (p.rule == rule) = false := beq_eq_false_iff_ne.mpr fun heq => h (heq ▸ hr)
      simp only [nextUnless, hne, Bool.false_eq_true, if_false]
  · obtain ⟨source, position, _ | ⟨p, ps⟩⟩ := c
    · cases hc
    · have heq : (p.rule == rule) = true := by simpa using hc
      simp only [nextUnless, heq, if_true]

theorem finds_next (rules : List Rule) : Finds next rules fun o => o.isNone := by
  refine ⟨fun _ _ => rfl, fun c hc => ?_⟩
  obtain ⟨source, position, _ | ⟨p, ps⟩⟩ := c
  · rfl
  · cases hc

theorem lift_run (e : Built α) (c : Cursor) : (liftM e : Building α) c = (·, c) <$> e := by
  cases e <;> rfl

namespace Finds

variable {found : Building (Option (Trivia × Pair))} {rules : List Rule}
  {follow : Option Rule → Bool} {k : Trivia → Pair → Building β} {f : Trivia → Pair → Built α}

theorem whenFound_cons (h : Finds found rules follow) {position : Nat} {pair : Pair}
    (hrule : pair.rule ∈ rules) (qs : List Pair) :
    whenFound found k ⟨source, position, pair :: qs⟩ = (fun r => (some r.1, r.2)) <$>
      k (gap source position pair.start) pair ⟨source, pair.tokenEnd, qs⟩ := by
  rw [whenFound, bind_run, h.taken _ ⟨_, hrule, rfl⟩]
  rfl

theorem whenFound_ended (h : Finds found rules follow) {c : Cursor}
    (hc : follow (c.pairs.head?.map Pair.rule) = true) : whenFound found k c = .ok (none, c) := by
  rw [whenFound, bind_run, h.ended c hc]
  rfl

theorem repeated_ended (h : Finds found rules follow) {c : Cursor}
    (hc : follow (c.pairs.head?.map Pair.rule) = true) (bound : Nat) :
    repeated (whenFound found k) bound c = .ok ([], c) := by
  cases bound with
  | zero => rfl
  | succ bound =>
    rw [repeated, bind_run, h.whenFound_ended hc]
    rfl

/-- A pair of the repetition, and those behind it. -/
theorem repeated_cons (h : Finds found rules follow) {position : Nat} {pair : Pair}
    (hrule : pair.rule ∈ rules) {qs : List Pair} (qs' : List Pair) {offset : Nat}
    {xs ys : List Lexeme} (b : β) {bs : List β} {bound : Nat} {c : Cursor}
    (hk : k (gap source position pair.start) pair ⟨source, pair.tokenEnd, qs⟩ =
      verdict offset xs (b, ⟨source, after offset xs, qs'⟩))
    (hrest : repeated (whenFound found k) bound ⟨source, after offset xs, qs'⟩ =
      verdict (after offset xs) ys (bs, c)) :
    repeated (whenFound found k) (bound + 1) ⟨source, position, pair :: qs⟩ =
      verdict offset (xs ++ ys) (b :: bs, c) := by
  rw [repeated, bind_run, h.whenFound_cons hrule, hk, verdict_map]
  refine verdict_bind ?_
  show ((b :: ·) <$> repeated (whenFound found k) bound) ⟨source, after offset xs, qs'⟩ = _
  rw [map_run, hrest, verdict_map]

/-- The values of pairs one behind the other. -/
theorem repeated_several (h : Finds found rules follow) {offset : Nat} {xs : List Lexeme}
    {ps : List Pair} {as : List α} (hs : Several (Made source rules f) offset xs ps as)
    {bound : Nat} (hbound : ps.length ≤ bound) {qs : List Pair}
    (hqs : follow (qs.head?.map Pair.rule) = true) :
    repeated (whenFound found fun lead pair => f lead pair) bound ⟨source, offset, ps ++ qs⟩ =
      verdict offset xs (as, ⟨source, after offset xs, qs⟩) := by
  induction hs generalizing bound with
  | nil => exact h.repeated_ended hqs bound
  | @cons offset xs ys ps ps' a as hC hs ih =>
    obtain ⟨pair, rfl, hrule, hspans, hf⟩ := hC
    obtain ⟨bound, rfl⟩ : ∃ n, bound = n + 1 := ⟨bound - 1, by simp at hbound; omega⟩
    rw [after_append]
    refine h.repeated_cons hrule (ps' ++ qs) a ?_ (ih (by simpa using hbound))
    rw [lift_run, hspans.gap, hf, hspans.stop, verdict_map]
    rfl

/-- An element and the comma behind it, if there is one. -/
theorem element_run {offset : Nat} {xs : List Lexeme} {a : α} {lead : Trivia} {pair : Pair}
    {c c' : Cursor} {o : Option (Trivia × Pair)} (hf : f lead pair = verdict offset xs a)
    (hcomma : nextIf .comma c = .ok (o, c')) :
    element f lead pair c = verdict offset xs (⟨a, (o.map Prod.fst).getD .empty⟩, c') := by
  rw [element, bind_run, lift_run, hf, verdict_map]
  refine verdict_then ?_
  rw [bind_run, hcomma]
  rfl

/-- The values of pairs with commas between them. -/
theorem repeated_padded (h : Finds found rules follow) {middle : Nat} {ys : List Lexeme}
    {ps : List Pair} {rest : List (Trivia × α)}
    (hs : Several (Both (Image Prod.mk (Kept source .comma)) (Made source rules f)) middle ys ps
      rest)
    {qs : List Pair} (hqs : follow (qs.head?.map Pair.rule) = true)
    (hcomma : qs.head?.map Pair.rule ≠ some .comma) {offset : Nat} {xs : List Lexeme} {pair : Pair}
    {a : α} {bound : Nat} (hmiddle : after offset xs = middle) (hbound : ps.length < bound)
    (hrule : pair.rule ∈ rules) (hspans : Spans source offset xs pair)
    (hf : f (leadOf xs) pair = verdict offset xs a) :
    repeated (whenFound found (element f)) bound ⟨source, offset, pair :: (ps ++ qs)⟩ =
      verdict offset (xs ++ ys) (padded a rest, ⟨source, after offset (xs ++ ys), qs⟩) := by
  induction hs generalizing offset xs a pair bound with
  | nil =>
    subst hmiddle
    obtain ⟨bound, rfl⟩ : ∃ n, bound = n + 1 := ⟨bound - 1, by simp at hbound; omega⟩
    refine h.repeated_cons hrule qs (Padded.mk a .empty) ?_ ?_
    · rw [hspans.gap, hspans.stop]
      exact element_run hf (nextIf_of_ne hcomma)
    · rw [List.append_nil]
      exact h.repeated_ended hqs bound
  | @cons middle _ ys _ ps _ rest hC hs ih =>
    subst hmiddle
    obtain ⟨us, vs, _, _, _, b, rfl, rfl, ⟨_, ⟨comma, rfl, hrule', hspans', rfl, hvalid⟩, rfl⟩,
      ⟨pair', rfl, hrule'', hspans'', hf'⟩, rfl⟩ := hC
    simp only [List.cons_append, List.length_cons, List.nil_append] at hbound ⊢
    obtain ⟨bound, rfl⟩ : ∃ n, bound = n + 1 := ⟨bound - 1, by omega⟩
    have ih := ih (after_append _ us vs).symm (show ps.length < bound by omega) hrule'' hspans'' hf'
    rw [show xs ++ (us ++ vs ++ ys) = (xs ++ us) ++ (vs ++ ys) by simp]
    refine h.repeated_cons hrule (pair' :: (ps ++ qs)) (Padded.mk a (leadOf us)) ?_ ?_
    · rw [hspans.gap, hspans.stop, verdict_left hvalid]
      have hnext : nextIf .comma ⟨source, after offset xs, comma :: pair' :: (ps ++ qs)⟩ =
          .ok (some (leadOf us, comma),
            ⟨source, after offset (xs ++ us), pair' :: (ps ++ qs)⟩) := by
        rw [nextIf_of_eq (by simpa using hrule'), next_cons, hspans'.gap, hspans'.stop,
          after_append]
      exact element_run hf hnext
    · rw [after_append, ih, ← after_append offset, ← after_append offset]

end Finds

/-- The pairs start with one that the repetition can start with. -/
theorem first_of_several {rules : List Rule} {Q : Nat → List Lexeme → Pair → α → Prop}
    {offset : Nat} {xs : List Lexeme} {ps : List Pair} {as : List α}
    (h : Several (Single source rules Q) offset xs ps as) : ∀ p ∈ ps.head?, p.rule ∈ rules := by
  cases h with
  | nil => simp
  | cons h _ =>
    obtain ⟨pair, rfl, hrule, -⟩ := h
    simpa using hrule

namespace Matches

variable {p : Parser α} {found : Building (Option (Trivia × Pair))} {rules : List Rule}
  {follow : Option Rule → Bool} {f : Trivia → Pair → Built α}

theorem all (h : Matches source p (Made source rules f)) (hfound : Finds found rules follow)
    (bound : Nat) :
    Walked source (Parser.many bound p) (Building.all found f) (.upTo rules follow) (· = ·) := by
  refine (h.many bound).mono ?_
  intro offset xs ps as hs
  refine ⟨first_of_several hs, fun _ => rfl, as, rfl, fun qs hqs => ?_⟩
  rw [Building.all, hfound.repeated_several hs (by simp; omega) hqs]

/-- A list with commas. -/
theorem separated (h : Matches source p (Made source rules f)) (hfound : Finds found rules follow)
    (hcomma : Matches source comma (Kept source .comma)) (bound : Nat) :
    Walked source (Grammar.separated bound p) (Building.elements found f)
      ⟨rules, fun o => follow o && o != some .comma, false⟩ (· = ·) := by
  refine ((h.map padded).seq ((hcomma.map Prod.mk).seq h |>.many bound)).mono ?_
  rintro offset _ _ _
    ⟨xs, ys, _, ps, _, rest, rfl, rfl, ⟨a, ⟨pair, rfl, hrule, hspans, hf⟩, rfl⟩, hs, rfl⟩
  refine ⟨by simpa using hrule, by simp, padded a rest, rfl, fun qs hqs => ?_⟩
  obtain ⟨hfollow, hne⟩ := Bool.and_eq_true_iff.mp hqs
  exact hfound.repeated_padded hs hfollow (bne_iff_ne.mp hne) rfl (by simp; omega) hrule hspans hf

/-- A list with commas, or nothing where there is none. -/
theorem elements (h : Matches source p (Made source rules f)) (hfound : Finds found rules follow)
    (hcomma : Matches source comma (Kept source .comma)) (bound : Nat) :
    Walked source (Parser.optional (Grammar.separated bound p)) (Building.elements found f)
      (.upTo rules fun o => follow o && o != some .comma) fun as o => as = o.getD [] := by
  refine (Matches.optional (h.separated hfound hcomma bound)).mono ?_
  rintro offset xs ps o (_ | ⟨hfirst, -, as, rfl, hrun⟩)
  · refine ⟨by simp, fun _ => rfl, [], rfl, fun qs hqs => ?_⟩
    exact hfound.repeated_ended (Bool.and_eq_true_iff.mp hqs).1 _
  · exact ⟨hfirst, fun _ => rfl, as, rfl, hrun⟩

end Matches

end LosslessJava.Grammar
