import LosslessJava.Grammar.Rules
import LosslessJava.Proofs.Grammar.Phrase
import LosslessJava.Proofs.Grammar.Reads

/-!
# Parsers that agree

A rule never reads past a closing bracket that it has not opened or past the end of the text, and
the rules inside parentheses do not read past a semicolon either. So what such a token is followed
by does not matter to them, and neither does the depth of the recursive rules, if it is large enough.

* `Agree s k d p q`: on texts that are the same up to such a token, `p` and `q` have the same
  outcome. They stop in front of the token, at least `d` lexemes further on. The bound `k` on the
  lexemes in front of the token is what the induction over the depth of rules needs.
* There is one lemma for each way to combine parsers, and `agree_bracket` for everything between
  brackets.
-/

namespace LosslessJava.Grammar

/-! ## Barriers -/

/-- The token ends a text of the kind, whatever is read of it. Inside braces that is the closing
brace, and everywhere the end of the whole text. -/
def isBarrier (s : Bool) (t : Token) : Bool :=
  t == .finish || if s then t == .mark '}' else t == .mark ')' || t == .mark ';'

/-- The lexemes start with a barrier. -/
def Barred (s : Bool) (ls : List Lexeme) : Prop := ∃ l rest, ls = l :: rest ∧ isBarrier s l.token

/-- What follows the texts that are compared: nothing at all, or barriers. -/
def Context (s : Bool) (tail tail' : List Lexeme) : Prop :=
  tail = [] ∧ tail' = [] ∨ Barred s tail ∧ Barred s tail'

/-- The lexemes in front of a barrier are nested. -/
def Inside (s : Bool) (tail xs : List Lexeme) : Prop := tail = [] ∨ Nested s (tokens xs)

/-- Both parsers read nothing, or both read the same and stop at the same place in front of the
tails. -/
def Outcome {α : Type} (s : Bool) (d n : Nat) (tail tail' : List Lexeme)
    (r r' : Option (α × List Lexeme)) : Prop :=
  r = none ∧ r' = none ∨
    ∃ a zs, r = some (a, zs ++ tail) ∧ r' = some (a, zs ++ tail') ∧ Inside s tail zs ∧
      zs.length + d ≤ n

/-- Parsers that read nothing at the end and nothing in front of a barrier. -/
theorem Context.outcome_none {α : Type} {s : Bool} {d n : Nat} {tail tail' : List Lexeme}
    (h : Context s tail tail') {p q : Parser α} (hp : p.parse [] = none) (hq : q.parse [] = none)
    (hbarred : ∀ ls, Barred s ls → p.parse ls = none)
    (hbarred' : ∀ ls, Barred s ls → q.parse ls = none) :
    Outcome s d n tail tail' (p.parse tail) (q.parse tail') := by
  rcases h with ⟨rfl, rfl⟩ | ⟨h, h'⟩
  · exact Or.inl ⟨hp, hq⟩
  · exact Or.inl ⟨hbarred tail h, hbarred' tail' h'⟩

/-- The parsers have the same outcome on fewer than `k` lexemes in front of the same end or of any
barriers, and they take at least `d` lexemes. -/
def Agree {α : Type} (s : Bool) (k d : Nat) (p q : Parser α) : Prop :=
  ∀ tail tail' xs, Context s tail tail' → Inside s tail xs → xs.length < k →
    Outcome s d xs.length tail tail' (p.parse (xs ++ tail)) (q.parse (xs ++ tail'))

namespace Agree

open LosslessJava.Grammar.Parser

variable {α β : Type} {s : Bool} {k d : Nat}

theorem of_le {p q : Parser α} {j : Nat} (h : Agree s k d p q) (hj : j ≤ k) : Agree s j d p q :=
  fun tail tail' xs hctx hxs hn => h tail tail' xs hctx hxs (Nat.lt_of_lt_of_le hn hj)

theorem zero (p q : Parser α) : Agree s 0 d p q :=
  fun _ _ _ _ _ hn => absurd hn (Nat.not_lt_zero _)

/-- Parsers that take something take no barrier. -/
theorem parse_barred {p q : Parser α} (h : Agree s k (d + 1) p q) (hk : 0 < k) {ls : List Lexeme}
    (hls : Barred s ls) : p.parse ls = none ∧ q.parse ls = none := by
  rcases h ls ls [] (Or.inr ⟨hls, hls⟩) (Or.inr .nil) hk with
    hnone | ⟨a, zs, -, -, -, hle⟩
  · exact hnone
  · exact absurd hle (Nat.not_succ_le_zero _)

/-- Parsers that take something agree as parsers. -/
theorem weaken {p q : Parser α} (h : Agree s k d p q) : Agree s k 0 p q := by
  intro tail tail' xs hctx hxs hn
  rcases h tail tail' xs hctx hxs hn with hnone | ⟨a, zs, hp, hq, hz, hle⟩
  · exact Or.inl hnone
  · exact Or.inr ⟨a, zs, hp, hq, hz, by omega⟩

theorem map {p q : Parser α} (h : Agree s k d p q) (g : α → β) :
    Agree s k d (g <$> p) (g <$> q) := by
  intro tail tail' xs hctx hxs hn
  show Outcome s d xs.length tail tail' ((p.parse _).map _) ((q.parse _).map _)
  rcases h tail tail' xs hctx hxs hn with ⟨hp, hq⟩ | ⟨a, zs, hp, hq, hz, hle⟩
  · rw [hp, hq]
    exact Or.inl ⟨rfl, rfl⟩
  · rw [hp, hq]
    exact Or.inr ⟨g a, zs, rfl, rfl, hz, hle⟩

theorem seq_of_le {p q : Parser (α → β)} {p' q' : Parser α} {j d' : Nat} (h : Agree s k d p q)
    (h' : Agree s j d' p' q') (hj : k ≤ j + d) : Agree s k (d + d') (p <*> p') (q <*> q') := by
  intro tail tail' xs hctx hxs hn
  rw [parse_seq, parse_seq]
  rcases h tail tail' xs hctx hxs hn with ⟨hp, hq⟩ | ⟨f, zs, hp, hq, hz, hle⟩
  · rw [hp, hq]
    exact Or.inl ⟨rfl, rfl⟩
  · simp only [hp, hq]
    rcases h' tail tail' zs hctx hz (by omega) with ⟨hp', hq'⟩ | ⟨a, ws, hp', hq', hw, hle'⟩
    · rw [hp', hq']
      exact Or.inl ⟨rfl, rfl⟩
    · rw [hp', hq']
      exact Or.inr ⟨f a, ws, rfl, rfl, hw, by omega⟩

/-- One parser after another. -/
theorem seq {p q : Parser (α → β)} {p' q' : Parser α} (h : Agree s k 0 p q)
    (h' : Agree s k d p' q') : Agree s k d (p <*> p') (q <*> q') := by
  have := h.seq_of_le h' (Nat.le_refl k)
  rwa [Nat.zero_add] at this

/-- Behind a parser that takes something, the other one has fewer lexemes in front of it. -/
theorem seq_behind {p q : Parser (α → β)} {p' q' : Parser α} (h : Agree s (k + 1) 1 p q)
    (h' : Agree s k 0 p' q') : Agree s (k + 1) 1 (p <*> p') (q <*> q') :=
  h.seq_of_le h' (Nat.le_refl _)

theorem orElse {p q p' q' : Parser α} (h : Agree s k d p q) (h' : Agree s k d p' q') :
    Agree s k d (p <|> p') (q <|> q') := by
  intro tail tail' xs hctx hxs hn
  rw [parse_orElse, parse_orElse]
  rcases h tail tail' xs hctx hxs hn with ⟨hp, hq⟩ | ⟨a, zs, hp, hq, hz, hle⟩
  · rw [hp, hq]
    exact h' tail tail' xs hctx hxs hn
  · rw [hp, hq]
    exact Or.inr ⟨a, zs, rfl, rfl, hz, hle⟩

theorem optional {p q : Parser α} (h : Agree s k 0 p q) :
    Agree s k 0 (optional p) (optional q) := by
  intro tail tail' xs hctx hxs hn
  simp only [Parser.optional]
  rcases h tail tail' xs hctx hxs hn with ⟨hp, hq⟩ | ⟨a, zs, hp, hq, hz, hle⟩
  · rw [hp, hq]
    exact Or.inr ⟨none, xs, rfl, rfl, hxs, Nat.le_refl _⟩
  · rw [hp, hq]
    exact Or.inr ⟨some a, zs, rfl, rfl, hz, hle⟩

/-- Two repetitions with enough room. -/
theorem parseMany {p q : Parser α} (h : Agree s k 1 p q) {tail tail' : List Lexeme}
    (hctx : Context s tail tail') (n : Nat) (hn : n < k) : ∀ (b c : Nat) (xs : List Lexeme),
    xs.length ≤ n → n ≤ b → n ≤ c → Inside s tail xs →
    ∃ as zs, Parser.parseMany p b (xs ++ tail) = (as, zs ++ tail) ∧
      Parser.parseMany q c (xs ++ tail') = (as, zs ++ tail') ∧ Inside s tail zs ∧
      zs.length ≤ xs.length := by
  induction n with
  | zero =>
    intro b c xs hlen _ _ hxs
    rcases h tail tail' xs hctx hxs (by omega) with ⟨hp, hq⟩ | ⟨a, zs, -, -, -, hle⟩
    · refine ⟨[], xs, ?_, ?_, hxs, Nat.le_refl _⟩
      · cases b with
        | zero => rfl
        | succ b => rw [Parser.parseMany, hp]
      · cases c with
        | zero => rfl
        | succ c => rw [Parser.parseMany, hq]
    · omega
  | succ n ih =>
    intro b c xs hlen hb hc hxs
    obtain ⟨b, rfl⟩ : ∃ b', b = b' + 1 := ⟨b - 1, by omega⟩
    obtain ⟨c, rfl⟩ : ∃ c', c = c' + 1 := ⟨c - 1, by omega⟩
    rw [Parser.parseMany, Parser.parseMany]
    rcases h tail tail' xs hctx hxs (by omega) with ⟨hp, hq⟩ | ⟨a, zs, hp, hq, hz, hle⟩
    · rw [hp, hq]
      exact ⟨[], xs, rfl, rfl, hxs, Nat.le_refl _⟩
    · obtain ⟨as, ws, hb', hc', hws, hle'⟩ :=
        ih (by omega) b c zs (by omega) (by omega) (by omega) hz
      simp only [hp, hq, hb', hc']
      exact ⟨a :: as, ws, rfl, rfl, hws, by omega⟩

theorem many {p q : Parser α} {b c : Nat} (h : Agree s k 1 p q) (hb : k ≤ b + 1)
    (hc : k ≤ c + 1) : Agree s k 0 (many b p) (many c q) := by
  intro tail tail' xs hctx hxs hn
  obtain ⟨as, zs, hp, hq, hz, hle⟩ := h.parseMany hctx xs.length hn b c xs (Nat.le_refl _)
    (by omega) (by omega) hxs
  simp only [Parser.many, hp, hq]
  exact Or.inr ⟨as, zs, rfl, rfl, hz, hle⟩

theorem named {p q : Parser α} (h : Agree s k d p q) (rule rule' : Rule) :
    Agree s k d (named rule p) (named rule' q) := h

theorem summary {p q : Parser α} (h : Agree s k d p q) (rule rule' : Rule) :
    Agree s k d (summary rule p) (summary rule' q) := h

theorem compound {p q : Parser α} (h : Agree s k d p q) (rule rule' : Rule) :
    Agree s k d (compound rule p) (compound rule' q) := h

theorem around {p q : Parser α} (h : Agree s k d p q) (rule rule' : Rule) :
    Agree s k d (around rule p) (around rule' q) := h

end Agree

end LosslessJava.Grammar
