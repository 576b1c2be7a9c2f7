import LosslessJava.Proofs.Grammar.Sequence

/-!
# What the tokens of a reading are made into

`Takes k d p C` says that on fewer than `k` lexemes `p` takes at least `d` tokens, and that `C`
relates them to the value. In contrast to `Reads` it follows tokens without their trivia, so that a
rule that takes the trivia off its first token needs no lemma of its own. The bound on the lexemes
is what an induction over the depth of rules needs.

There is one lemma for each way to combine parsers. A function that is read off the front takes the
tokens of its argument to those of both.
-/

namespace LosslessJava.Grammar.Parser

open Lexeme (AllLegal)

variable {α β : Type} {k j d e : Nat} {C : List Token → α → Prop} {D : List Token → β → Prop}

/-- On fewer than `k` lexemes the parser takes at least `d` tokens, and `C` relates them to its
value. -/
def Takes (k d : Nat) (p : Parser α) (C : List Token → α → Prop) : Prop :=
  ∀ ls a rest, AllLegal ls → ls.length < k → p.parse ls = some (a, rest) →
    AllLegal rest ∧ ∃ ks, tokens ls = ks ++ tokens rest ∧ d ≤ ks.length ∧ C ks a

/-! ## Combinations -/

theorem Takes.of_reads {p : Parser α} {E : List Lexeme → α → Prop} (h : Reads p E)
    (hE : ∀ xs a, E xs a → d ≤ xs.length ∧ C (tokens xs) a) : Takes k d p C := by
  intro ls a rest hls _ hp
  obtain ⟨xs, rfl, hxs⟩ := h ls a rest hls hp
  obtain ⟨hlength, hC⟩ := hE xs a hxs
  exact ⟨hls.right, tokens xs, tokens_append xs rest, by simpa [tokens] using hlength, hC⟩

theorem Takes.mono {p : Parser α} {C' : List Token → α → Prop} (h : Takes k d p C)
    (hC : ∀ ks a, C ks a → C' ks a) : Takes k d p C' := by
  intro ls a rest hls hlength hp
  obtain ⟨hrest, ks, heq, hks, ha⟩ := h ls a rest hls hlength hp
  exact ⟨hrest, ks, heq, hks, hC ks a ha⟩

theorem Takes.of_le {p : Parser α} (h : Takes k d p C) (hj : j ≤ k) : Takes j d p C :=
  fun ls a rest hls hlength => h ls a rest hls (Nat.lt_of_lt_of_le hlength hj)

theorem Takes.weaken {p : Parser α} (h : Takes k d p C) : Takes k 0 p C := by
  intro ls a rest hls hlength hp
  obtain ⟨hrest, ks, heq, -, ha⟩ := h ls a rest hls hlength hp
  exact ⟨hrest, ks, heq, Nat.zero_le _, ha⟩

/-- The lexemes that are left are fewer by the tokens that were taken. -/
theorem Takes.left {p : Parser α} (h : Takes k d p C) {ls rest : List Lexeme} {a : α}
    (hls : AllLegal ls) (hlength : ls.length < k) (hp : p.parse ls = some (a, rest)) :
    AllLegal rest ∧ rest.length + d ≤ ls.length := by
  obtain ⟨hrest, ks, heq, hks, -⟩ := h ls a rest hls hlength hp
  have hcount := congrArg List.length heq
  simp only [tokens, List.length_append, List.length_map] at hcount
  exact ⟨hrest, by omega⟩

/-- Something else that is known of the value. -/
theorem Takes.and {p : Parser α} {P : α → Prop} (h : Takes k d p C)
    (hP : ∀ ls a rest, AllLegal ls → ls.length < k → p.parse ls = some (a, rest) → P a) :
    Takes k d p fun ks a => C ks a ∧ P a := by
  intro ls a rest hls hlength hp
  obtain ⟨hrest, ks, heq, hks, ha⟩ := h ls a rest hls hlength hp
  exact ⟨hrest, ks, heq, hks, ha, hP ls a rest hls hlength hp⟩

theorem Takes.map {p : Parser α} {g : α → β} (h : Takes k d p C)
    (hg : ∀ ks a, C ks a → D ks (g a)) : Takes k d (g <$> p) D := by
  intro ls b rest hls hlength hp
  obtain ⟨a, ha, rfl⟩ := parse_map_eq_some.mp hp
  obtain ⟨hrest, ks, heq, hks, ha⟩ := h ls a rest hls hlength ha
  exact ⟨hrest, ks, heq, hks, hg ks a ha⟩

theorem Takes.seq_of_le {p : Parser (α → β)} {q : Parser α}
    (hp : Takes k d p fun ks f => ∀ ks' a, C ks' a → D (ks ++ ks') (f a)) (hq : Takes j e q C)
    (hj : k ≤ j + d) : Takes k (d + e) (p <*> q) D := by
  intro ls b rest hls hlength h
  obtain ⟨f, a, middle, hf, ha, rfl⟩ := parse_seq_eq_some.mp h
  obtain ⟨hmiddle, ks, heq, hks, hf⟩ := hp ls f middle hls hlength hf
  have hcount := congrArg List.length heq
  simp only [tokens, List.length_append, List.length_map] at hcount
  obtain ⟨hrest, ks', heq', hks', ha⟩ := hq middle a rest hmiddle (by omega) ha
  refine ⟨hrest, ks ++ ks', ?_, ?_, hf ks' a ha⟩
  · rw [heq, heq', List.append_assoc]
  · rw [List.length_append]
    omega

/-- One parser after another. -/
theorem Takes.seq {p : Parser (α → β)} {q : Parser α}
    (hp : Takes k 0 p fun ks f => ∀ ks' a, C ks' a → D (ks ++ ks') (f a)) (hq : Takes k d q C) :
    Takes k d (p <*> q) D := by
  have := hp.seq_of_le hq (Nat.le_refl k)
  rwa [Nat.zero_add] at this

/-- Behind a parser that takes something, the other one has fewer lexemes in front of it. -/
theorem Takes.seq_behind {p : Parser (α → β)} {q : Parser α}
    (hp : Takes (k + 1) 1 p fun ks f => ∀ ks' a, C ks' a → D (ks ++ ks') (f a))
    (hq : Takes k e q C) : Takes (k + 1) 1 (p <*> q) D :=
  hp.seq_of_le hq.weaken (Nat.le_refl _)

theorem Takes.orElse {p q : Parser α} (hp : Takes k d p C) (hq : Takes k d q C) :
    Takes k d (p <|> q) C := by
  intro ls a rest hls hlength h
  rcases parse_orElse_eq_some.mp h with h | ⟨-, h⟩
  · exact hp ls a rest hls hlength h
  · exact hq ls a rest hls hlength h

theorem Takes.optional {p : Parser α} {D : List Token → Option α → Prop} (hp : Takes k d p C)
    (hnone : D [] none) (hsome : ∀ ks a, C ks a → D ks (some a)) : Takes k 0 (optional p) D := by
  intro ls o rest hls hlength h
  rcases parse_optional_eq_some.mp h with ⟨rfl, rfl, -⟩ | ⟨a, rfl, ha⟩
  · exact ⟨hls, [], rfl, Nat.le_refl 0, hnone⟩
  · obtain ⟨hrest, ks, heq, -, ha⟩ := hp ls a rest hls hlength ha
    exact ⟨hrest, ks, heq, Nat.zero_le _, hsome ks a ha⟩

/-- A repetition, by what the empty one makes and what each further value adds. -/
theorem Takes.many {p : Parser α} {D : List Token → List α → Prop} (hp : Takes k d p C)
    (hnil : D [] []) (hcons : ∀ ks ks' a as, C ks a → D ks' as → D (ks ++ ks') (a :: as))
    {bound : Nat} : Takes k 0 (many bound p) D := by
  intro ls as rest hls hlength h
  rw [Parser.many, Option.some.injEq] at h
  induction bound generalizing ls as with
  | zero =>
    cases h
    exact ⟨hls, [], rfl, Nat.le_refl 0, hnil⟩
  | succ bound ih =>
    rw [parseMany] at h
    cases ha : p.parse ls with
    | none =>
      rw [ha] at h
      cases h
      exact ⟨hls, [], rfl, Nat.le_refl 0, hnil⟩
    | some r =>
      obtain ⟨a, middle⟩ := r
      rw [ha] at h
      obtain ⟨hmiddle, ks, heq, -, ha⟩ := hp ls a middle hls hlength ha
      have hcount := congrArg List.length heq
      simp only [tokens, List.length_append, List.length_map] at hcount
      cases h
      obtain ⟨hrest, ks', heq', -, has⟩ := ih middle _ hmiddle (by omega) rfl
      exact ⟨hrest, ks ++ ks', by rw [heq, heq', List.append_assoc], Nat.zero_le _,
        hcons ks ks' a _ ha has⟩

theorem Takes.named {p : Parser α} (hp : Takes k d p C) {rule : Rule} :
    Takes k d (named rule p) C := hp

theorem Takes.summary {p : Parser α} (hp : Takes k d p C) {rule : Rule} :
    Takes k d (summary rule p) C := hp

theorem Takes.compound {p : Parser α} (hp : Takes k d p C) {rule : Rule} :
    Takes k d (compound rule p) C := hp

theorem Takes.around {p : Parser α} (hp : Takes k d p C) {rule : Rule} :
    Takes k d (around rule p) C := hp

/-- The trivia of a token are taken without the token. -/
theorem takes_lead : Takes k 0 lead fun ks _ => ks = [] := by
  intro ls t rest hls _ h
  cases ls with
  | nil => cases h
  | cons l ls =>
    cases h
    exact ⟨hls.bare, [], rfl, Nat.le_refl 0, rfl⟩

end LosslessJava.Grammar.Parser
