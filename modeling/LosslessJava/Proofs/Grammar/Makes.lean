import LosslessJava.Proofs.Grammar.Sequence

/-!
# What is made of tokens

`Makes Q p P` says that where all tokens have the property `Q`, each value of `p` has the property
`P`. In contrast to `Reads` it does not follow which tokens a value is made of, so that a rule that
takes the trivia off its first token needs no lemma of its own.

There is one lemma for each way to combine parsers. A function that is read off the front takes
values with the property of its argument to values with the property of its result.
-/

namespace LosslessJava.Grammar.Parser

variable {α β : Type} {Q : Token → Prop} {P : α → Prop} {R : β → Prop}

/-- From tokens that satisfy `Q` the parser makes values that satisfy `P`. -/
def Makes (Q : Token → Prop) (p : Parser α) (P : α → Prop) : Prop :=
  ∀ ls a rest, (∀ l ∈ ls, Q l.token) → p.parse ls = some (a, rest) →
    P a ∧ ∀ l ∈ rest, Q l.token

/-! ## Combinations -/

theorem makes_fail : Makes Q fail P := by
  intro ls a rest _ h
  cases h

theorem Makes.mono {p : Parser α} {P' : α → Prop} (h : Makes Q p P) (hP : ∀ a, P a → P' a) :
    Makes Q p P' :=
  fun ls a rest hls hp => (h ls a rest hls hp).imp_left (hP a)

theorem Makes.map {p : Parser α} {g : α → β} (h : Makes Q p P) (hg : ∀ a, P a → R (g a)) :
    Makes Q (g <$> p) R := by
  intro ls b rest hls hp
  obtain ⟨a, ha, rfl⟩ := parse_map_eq_some.mp hp
  exact (h ls a rest hls ha).imp_left (hg a)

theorem Makes.seq {p : Parser (α → β)} {q : Parser α} (hp : Makes Q p fun f => ∀ a, P a → R (f a))
    (hq : Makes Q q P) : Makes Q (p <*> q) R := by
  intro ls b rest hls h
  obtain ⟨f, a, middle, hf, ha, rfl⟩ := parse_seq_eq_some.mp h
  obtain ⟨hf, hmiddle⟩ := hp ls f middle hls hf
  exact (hq middle a rest hmiddle ha).imp_left (hf a)

theorem Makes.seqRight {p : Parser α} {q : Parser β} (hp : Makes Q p P) (hq : Makes Q q R) :
    Makes Q (p *> q) R :=
  (hp.map fun _ _ _ hb => hb).seq hq

theorem Makes.orElse {p q : Parser α} (hp : Makes Q p P) (hq : Makes Q q P) :
    Makes Q (p <|> q) P := by
  intro ls a rest hls h
  rcases parse_orElse_eq_some.mp h with h | ⟨-, h⟩
  · exact hp ls a rest hls h
  · exact hq ls a rest hls h

theorem Makes.optional {p : Parser α} (hp : Makes Q p P) :
    Makes Q (optional p) fun o => ∀ a ∈ o, P a := by
  intro ls o rest hls h
  rcases parse_optional_eq_some.mp h with ⟨rfl, rfl, -⟩ | ⟨a, rfl, ha⟩
  · exact ⟨by simp, hls⟩
  · exact (hp ls a rest hls ha).imp_left fun h b hb => Option.some.inj hb ▸ h

theorem parseMany_makes {p : Parser α} (hp : Makes Q p P) (bound : Nat) {ls : List Lexeme}
    (hls : ∀ l ∈ ls, Q l.token) :
    (∀ a ∈ (parseMany p bound ls).1, P a) ∧ ∀ l ∈ (parseMany p bound ls).2, Q l.token := by
  induction bound generalizing ls with
  | zero => exact ⟨List.forall_mem_nil _, hls⟩
  | succ bound ih =>
    rw [parseMany]
    cases h : p.parse ls with
    | none => exact ⟨List.forall_mem_nil _, hls⟩
    | some r =>
      obtain ⟨a, rest⟩ := r
      obtain ⟨ha, hrest⟩ := hp ls a rest hls h
      exact (ih hrest).imp_left fun has => List.forall_mem_cons.mpr ⟨ha, has⟩

theorem Makes.many {p : Parser α} (hp : Makes Q p P) {bound : Nat} :
    Makes Q (many bound p) fun as => ∀ a ∈ as, P a := by
  intro ls as rest hls h
  have := parseMany_makes hp bound hls
  rw [Option.some.inj h] at this
  exact this

theorem Makes.named {p : Parser α} (hp : Makes Q p P) {rule : Rule} : Makes Q (named rule p) P := hp

theorem Makes.summary {p : Parser α} (hp : Makes Q p P) {rule : Rule} :
    Makes Q (summary rule p) P := hp

theorem Makes.compound {p : Parser α} (hp : Makes Q p P) {rule : Rule} :
    Makes Q (compound rule p) P := hp

theorem Makes.around {p : Parser α} (hp : Makes Q p P) {rule : Rule} :
    Makes Q (around rule p) P := hp

/-! ## Tokens -/

theorem makes_lead : Makes Q lead fun _ => True := by
  intro ls t rest hls h
  cases ls with
  | nil => cases h
  | cons l ls =>
    cases h
    exact ⟨trivial, List.forall_mem_cons.mpr (List.forall_mem_cons.mp hls)⟩

theorem makes_token {rule : Rule} {accept : List Lexeme → Option (α × Nat)}
    (h : ∀ ls a count, (∀ l ∈ ls, Q l.token) → accept ls = some (a, count) → P a) :
    Makes Q (token rule accept) P := by
  intro ls a rest hls hp
  obtain ⟨⟨b, count⟩, hb, heq⟩ := Option.map_eq_some_iff.mp hp
  obtain ⟨rfl, rfl⟩ := Prod.mk.inj heq
  exact ⟨h ls b count hls hb, fun l hl => hls l (List.mem_of_mem_drop hl)⟩

theorem makes_tightToken {rule : Rule} {accept : List Lexeme → Option (α × Nat)}
    (h : ∀ ls a count, (∀ l ∈ ls, Q l.token) → accept ls = some (a, count) → P a) :
    Makes Q (tightToken rule accept) P := by
  apply @makes_token _ _ _ rule
  intro ls a count hls hp
  cases ls with
  | nil => cases hp
  | cons l ls =>
    simp only at hp
    split at hp
    · exact h _ _ _ hls hp
    · cases hp

theorem makes_tightMark {c : Char} : Makes Q (tightMark c) fun _ => True := by
  intro ls a rest hls h
  refine ⟨trivial, ?_⟩
  unfold tightMark at h
  simp only at h
  split at h
  · split at h
    · cases h
      exact (List.forall_mem_cons.mp hls).2
    · cases h
  · cases h

/-- The token is taken for what it is. -/
theorem makes_any {rule : Rule} {accept : List Lexeme → Option (α × Nat)} :
    Makes Q (token rule accept) fun _ => True :=
  makes_token fun _ _ _ _ _ => trivial

theorem makes_keyword {rule : Rule} {word : String} : Makes Q (keyword rule word) fun _ => True :=
  makes_any.map fun _ h => h

/-! ## Lists -/

theorem makes_separated {p : Parser α} (hp : Makes Q p P) {bound : Nat} :
    Makes Q (separated bound p) fun ps => ∀ q ∈ ps, P q.element := by
  have hnext : Makes Q (Prod.mk <$> comma <*> p) fun b => P b.2 :=
    (makes_any.map fun _ _ _ ha => ha).seq hp
  exact (hp.map fun _ ha _ hrest => forall_padded ha hrest).seq hnext.many

theorem makes_delimited {p : Parser α} (hp : Makes Q p P) {bound : Nat} {opening closing : Rule}
    {left right : String} :
    Makes Q (delimited bound (delimiter opening left) p (delimiter closing right))
      fun d => ∀ a ∈ d.toList, P a := by
  refine ((makes_any.map ?_).seq (makes_separated hp).optional).seq makes_any
  rintro _ - o ho _ - a ha
  obtain ⟨q, hq, rfl⟩ := List.mem_map.mp ha
  cases o with
  | none => cases hq
  | some ps => exact ho ps rfl q hq

end LosslessJava.Grammar.Parser
