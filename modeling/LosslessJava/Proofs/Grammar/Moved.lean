import LosslessJava.Proofs.Grammar.AgreeRules
import LosslessJava.Proofs.Grammar.Choice
import LosslessJava.Proofs.Grammar.Reading.Text

/-!
# Simple statements in another place

A statement ends with a semicolon or a brace, and reading it does not go on from there, with one
exception: behind an `if` without an `else`, an `else` would be read as well. So a statement is read
again in every place where no `else` follows.

* `Moves`: what the one parser reads, the other one reads in front of something else. An `else` may
  follow only where one followed before.
* `moves_returnStatement` and the theorems behind it: statements with a semicolon move, whatever the
  depths of the rules are.
-/

namespace LosslessJava.Grammar

open LosslessJava.Grammar.Parser
open Lexeme (AllLegal)

variable {α β : Type} {r r' : Rules} {k n : Nat}

/-! ## Text without a semicolon -/

/-- What the parser reads has no semicolon and no closing bracket of its own. -/
def Nests (p : Parser α) : Prop := Reads p fun xs _ => Nested false (tokens xs)

namespace Nests

theorem map {p : Parser α} (h : Nests p) (f : α → β) : Nests (f <$> p) :=
  (Reads.map h f).mono fun _ _ ⟨_, ha, _⟩ => ha

theorem seq {p : Parser (α → β)} {q : Parser α} (h : Nests p) (h' : Nests q) : Nests (p <*> q) := by
  apply (Reads.seq h h').mono
  rintro xs b ⟨ys, zs, f, a, rfl, hy, hz, -⟩
  rw [tokens_append]
  exact hy.append hz

theorem optional {p : Parser α} (h : Nests p) : Nests (optional p) := by
  apply (Reads.optional h).mono
  rintro xs o (- | hxs)
  · exact .nil
  · exact hxs

end Nests

theorem nests_keyword {rule : Rule} {w : String} : Nests (keyword rule w) :=
  reads_keyword.mono fun _ _ h => (h.phrase false).nested

theorem nests_returned (hr : r.Sound) : Nests (returned r) :=
  (nests_keyword.map _).seq (Nests.optional (hr.expression.mono fun _ _ h => h.phrase.nested))

theorem nests_thrown (hr : r.Sound) : Nests (thrown r) :=
  (nests_keyword.map _).seq (hr.expression.mono fun _ _ h => h.phrase.nested)

theorem nests_effect (hr : r.Sound) : Nests (effect r) :=
  Nests.map ((reads_expression hr).mono fun _ _ h => h.phrase.nested) _

theorem nests_declared (hr : r.Sound) : Nests (declared r) := by
  have hparts : ∀ t, Reads (declaredBehind r t) fun xs _ =>
      Nested false (tokens xs) ∧ xs ≠ [] := by
    intro t
    apply ((((reads_modifiers hr).map _).seq (reads_typeReference hr)).seq
      (reads_separated (reads_variableDeclarator hr))).mono
    rintro xs d ⟨_, zs, _, ps, rfl, ⟨xs, ys, _, type, rfl, ⟨ms, hms, rfl⟩, ht, rfl⟩, ⟨hps, -⟩, rfl⟩
    refine ⟨?_, ?_⟩
    · exact ((hms.piece.phrase.append ht.phrase).append hps.phrase).nested
    · simp [ht.opens.ne_nil]
  apply ((takesLead_declared r).reads hparts fun _ _ h => h.2 rfl).mono
  rintro xs d ⟨l, ys, rfl, -, hys, -⟩
  exact hys

/-! ## Else clauses -/

/-- The lexemes start with an `else`. -/
def StartsElse (ls : List Lexeme) : Prop := ∃ l rest, ls = l :: rest ∧ l.token = .word "else"

theorem not_startsElse {l : Lexeme} (hl : l.token ≠ .word "else") (ls : List Lexeme) :
    ¬ StartsElse (l :: ls) := by
  rintro ⟨x, rest, heq, hx⟩
  obtain ⟨rfl, -⟩ := List.cons.inj heq
  exact hl hx

/-- The lexemes start with an `else` clause. -/
def ReadsElse (ls : List Lexeme) : Prop :=
  ∃ d, ls.length ≤ d ∧ (elseClause (rules d)).parse ls ≠ none

theorem Agree.parse_eq {s : Bool} {d : Nat} {p q : Parser α} (h : Agree s k d p q)
    {ls : List Lexeme} (hn : ls.length < k) : p.parse ls = q.parse ls := by
  have hout := h [] [] ls (Or.inl ⟨rfl, rfl⟩) (Or.inl rfl) hn
  rw [List.append_nil] at hout
  rcases hout with ⟨hp, hq⟩ | ⟨a, zs, hp, hq, -⟩
  · rw [hp, hq]
  · rw [hp, hq]

/-- The depth of the rules does not matter, if there is enough of it. -/
theorem parse_elseClause_depth {d e : Nat} {ls : List Lexeme} (hd : ls.length ≤ d)
    (he : ls.length ≤ e) : (elseClause (rules d)).parse ls = (elseClause (rules e)).parse ls :=
  (agree_elseClause (rules_agree hd he)).parse_eq (Nat.lt_succ_self _)

/-- An `else` clause is the keyword and a statement. -/
theorem parse_elseClause {ls m : List Lexeme} {a : Trivia × Statement} :
    (elseClause r).parse ls = some (a, m) ↔ ∃ rest,
      ls = ⟨a.1, .word "else"⟩ :: rest ∧ r.statement.parse rest = some (a.2, m) := by
  have htakes : TakesToken (.word "else") Prod.mk
      (Prod.mk (β := Statement) <$> keyword .elseWord "else") := takesToken_keyword.map Prod.mk
  constructor
  · intro h
    obtain ⟨_, s, rest, hf, hs, rfl⟩ := parse_seq_eq_some.mp h
    obtain ⟨u, rfl, rfl⟩ := htakes.parse_eq_some.mp hf
    exact ⟨rest, rfl, hs⟩
  · obtain ⟨u, s⟩ := a
    rintro ⟨rest, rfl, hs⟩
    exact parse_seq_eq_some.mpr ⟨_, s, rest, htakes.parse_eq_some.mpr ⟨u, rfl, rfl⟩, hs, rfl⟩

theorem parse_elseClause_eq_none {ls : List Lexeme} (h : ¬ StartsElse ls) :
    (elseClause r).parse ls = none := by
  cases hp : (elseClause r).parse ls with
  | none => rfl
  | some a =>
    obtain ⟨rest, rfl, -⟩ := parse_elseClause.mp hp
    exact absurd ⟨_, rest, rfl, rfl⟩ h

/-! ## Moving -/

/-- What `p` reads off the front of at most `n` lexemes, `q` reads again in front of anything else,
if that are at most `k` lexemes. An `else` may follow them only where an `else` clause did. -/
def Moves (n k : Nat) (p q : Parser α) : Prop :=
  ∀ ls a m, AllLegal ls → ls.length ≤ n → p.parse ls = some (a, m) →
    ∃ xs, ls = xs ++ m ∧ xs ≠ [] ∧ (xs.length ≤ k →
      ∀ m', (StartsElse m' → ReadsElse m) → q.parse (xs ++ m') = some (a, m'))

theorem Moves.map {p q : Parser α} (h : Moves n k p q) (f : α → β) :
    Moves n k (f <$> p) (f <$> q) := by
  intro ls b m hls hn hp
  obtain ⟨a, ha, rfl⟩ := parse_map_eq_some.mp hp
  obtain ⟨xs, rfl, hne, hxs⟩ := h ls a m hls hn ha
  refine ⟨xs, rfl, hne, fun hlen m' helse => ?_⟩
  exact parse_map_eq_some.mpr ⟨a, hxs hlen m' helse, rfl⟩

/-! ## Text that ends with a semicolon -/

/-- What is read with a semicolon behind it ends with the semicolon. -/
theorem exists_semicolon {p : Parser (α → β)} {closing : Parser α} {take : Trivia → α}
    (hclosing : TakesToken (.mark ';') take closing) (hp : Nests p) {ls m : List Lexeme} {b : β}
    (hls : AllLegal ls) (h : (p <*> closing).parse ls = some (b, m)) :
    ∃ ys t, ls = ys ++ ⟨t, .mark ';'⟩ :: m ∧ Nested false (tokens ys) := by
  obtain ⟨f, a, middle, hf, ha, -⟩ := parse_seq_eq_some.mp h
  obtain ⟨ys, rfl, hys⟩ := hp _ f middle hls hf
  obtain ⟨t, rfl, -⟩ := hclosing.parse_eq_some.mp ha
  exact ⟨ys, t, rfl, hys⟩

/-- It is read again in front of everything. -/
theorem exists_moved_semicolon {p q : Parser (α → β)} {closing : Parser α} {take : Trivia → α}
    (hclosing : TakesToken (.mark ';') take closing) (h : Agree false k 0 p q) (hp : Nests p)
    {ls m : List Lexeme} {b : β} (hls : AllLegal ls)
    (hparse : (p <*> closing).parse ls = some (b, m)) :
    ∃ xs, ls = xs ++ m ∧ Ended xs ∧
      (xs.length ≤ k → ∀ m', (q <*> closing).parse (xs ++ m') = some (b, m')) := by
  obtain ⟨ys, t, rfl, hys⟩ := exists_semicolon hclosing hp hls hparse
  refine ⟨ys ++ [⟨t, .mark ';'⟩], by simp, ⟨ys, t, ';', rfl, .inl rfl⟩, fun hlen m' => ?_⟩
  rw [List.length_append, List.length_singleton] at hlen
  obtain ⟨hnone, -⟩ | ⟨b', hb, hb'⟩ :=
    parse_closed (l := ⟨t, .mark ';'⟩) rfl hclosing h rfl hys hlen m m'
  · rw [hnone] at hparse
    cases hparse
  · rw [hb] at hparse
    obtain ⟨rfl, -⟩ := Prod.mk.inj (Option.some.inj hparse)
    rw [List.append_assoc]
    exact hb'

theorem moves_semicolon {p q : Parser (α → β)} {closing : Parser α} {take : Trivia → α}
    (hclosing : TakesToken (.mark ';') take closing) (h : Agree false k 0 p q) (hp : Nests p) :
    Moves n k (p <*> closing) (q <*> closing) := by
  intro ls b m hls hn hparse
  obtain ⟨xs, rfl, ⟨ys, t, c, rfl, -⟩, hxs⟩ := exists_moved_semicolon hclosing h hp hls hparse
  exact ⟨_, rfl, by simp, fun hlen m' _ => hxs hlen m'⟩

theorem moves_returnStatement (h : r.Agree k r') (hr : r.Sound) :
    Moves n k (returnStatement r) (returnStatement r') :=
  moves_semicolon takesToken_semicolon ((agree_returned h).of_le (Nat.le_succ k)).weaken
    (nests_returned hr)

theorem moves_throwStatement (h : r.Agree k r') (hr : r.Sound) :
    Moves n k (throwStatement r) (throwStatement r') :=
  moves_semicolon takesToken_semicolon ((agree_thrown h).of_le (Nat.le_succ k)).weaken
    (nests_thrown hr)

theorem moves_expressionStatement (h : r.Agree k r') (hr : r.Sound) :
    Moves n k (expressionStatement r) (expressionStatement r') :=
  moves_semicolon takesToken_semicolon ((agree_effect h).of_le (Nat.le_succ k)).weaken
    (nests_effect hr)

theorem moves_variableDeclarations (h : r.Agree k r') (hr : r.Sound) :
    Moves n k (variableDeclarations r) (variableDeclarations r') :=
  moves_semicolon (takesToken_semicolon.map some)
    ((agree_declared h).of_le (Nat.le_succ k)).weaken (nests_declared hr)

theorem moves_emptyStatement : Moves n k emptyStatement emptyStatement := by
  have htakes : TakesToken (.mark ';') _ (Statement.empty <$> semicolon) :=
    takesToken_semicolon.map Statement.empty
  intro ls s m _ _ hp
  obtain ⟨t, rfl, rfl⟩ := htakes.parse_eq_some.mp hp
  refine ⟨[⟨t, .mark ';'⟩], rfl, by simp, fun _ m' _ => ?_⟩
  exact htakes.parse_eq_some.mpr ⟨t, rfl, rfl⟩

/-- A statement that is no declaration is none in another place. -/
theorem moves_unheaded (h : r.Agree k r') (hr : r.Sound) :
    Moves n k (unheaded r) (unheaded r') := by
  intro ls s m hls hn hp
  rcases parse_orElse_eq_some.mp hp with hp | ⟨hnone, hp⟩
  · obtain ⟨xs, rfl, hne, hxs⟩ :=
      (moves_variableDeclarations h hr).map Statement.declaration ls s m hls hn hp
    refine ⟨xs, rfl, hne, fun hlen m' helse => ?_⟩
    exact parse_orElse_eq_some.mpr (Or.inl (hxs hlen m' helse))
  · obtain ⟨xs, rfl, hne, hxs⟩ := moves_expressionStatement h hr ls s m hls hn hp
    refine ⟨xs, rfl, hne, fun hlen m' helse => ?_⟩
    refine parse_orElse_eq_some.mpr (Or.inr ⟨?_, hxs hlen m' helse⟩)
    obtain ⟨ys, t, heq, hys⟩ := exists_semicolon takesToken_semicolon (nests_effect hr) hls hp
    have hcancel : xs ++ m = ys ++ [⟨t, .mark ';'⟩] ++ m := by
      rw [heq, List.append_assoc]
      rfl
    obtain rfl := List.append_cancel_right hcancel
    rw [List.length_append, List.length_singleton] at hlen
    have hagree : Agree false k 0 (declared r) (declared r') :=
      ((agree_declared h).of_le (Nat.le_succ k)).weaken
    have hnone : (variableDeclarations r).parse (ys ++ [⟨t, .mark ';'⟩] ++ m) = none :=
      Option.map_eq_none_iff.mp hnone
    apply Option.map_eq_none_iff.mpr
    rw [List.append_assoc] at hnone ⊢
    rcases parse_closed (l := ⟨t, .mark ';'⟩) rfl (takesToken_semicolon.map some) hagree rfl hys
      hlen m m' with ⟨-, hq⟩ | ⟨d, hd, -⟩
    · exact hq
    · have hd : (variableDeclarations r).parse (ys ++ ⟨t, .mark ';'⟩ :: m) = some (d, m) := hd
      rw [List.singleton_append, hd] at hnone
      cases hnone

/-! ## Text with brackets -/

/-- A block is a brace, its statements and another brace. -/
theorem parse_block_iff {r : Rules} {ls m : List Lexeme} {b : Block} :
    (block r).parse ls = some (b, m) ↔ ∃ rest,
      ls = ⟨b.lead, .mark '{'⟩ :: rest ∧
      parseMany r.blockStatement r.bound rest = (b.statements, ⟨b.close, .mark '}'⟩ :: m) := by
  have hopening : TakesToken (.mark '{') id leftBrace := takesToken_delimiter rfl
  have hclosing : TakesToken (.mark '}') id rightBrace := takesToken_delimiter rfl
  constructor
  · intro h
    obtain ⟨_, u, middle, hf, hu, rfl⟩ := parse_seq_eq_some.mp h
    obtain ⟨_, ss, rest, hg, hss, rfl⟩ := parse_seq_eq_some.mp hf
    obtain ⟨t, rfl, rfl⟩ := (hopening.map Block.mk).parse_eq_some.mp hg
    obtain ⟨v, rfl, rfl⟩ := hclosing.parse_eq_some.mp hu
    exact ⟨rest, rfl, Option.some.inj hss⟩
  · obtain ⟨lead, ss, close⟩ := b
    rintro ⟨rest, rfl, hrest⟩
    have hfront : (Block.mk <$> leftBrace <*> many r.bound r.blockStatement).parse
        (⟨lead, .mark '{'⟩ :: rest) = some (Block.mk lead ss, ⟨close, .mark '}'⟩ :: m) := by
      refine parse_seq_eq_some.mpr ⟨Block.mk lead, ss, rest, ?_, congrArg some hrest, rfl⟩
      exact (hopening.map Block.mk).parse_eq_some.mpr ⟨lead, rfl, rfl⟩
    have hclose : rightBrace.parse (⟨close, .mark '}'⟩ :: m) = some (close, m) :=
      hclosing.parse_eq_some.mpr ⟨close, rfl, rfl⟩
    have hblock : (Block.mk <$> leftBrace <*> many r.bound r.blockStatement <*> rightBrace).parse
        (⟨lead, .mark '{'⟩ :: rest) = some (⟨lead, ss, close⟩, m) :=
      parse_seq_eq_some.mpr ⟨_, close, _, hfront, hclose, rfl⟩
    exact hblock

/-- A keyword and a condition are read again in front of anything, with any lead. -/
theorem exists_head (h : r.Agree k r') (hr : r.Sound) {rule : Rule} {w : String}
    {g : Trivia → Condition → β} {ls m : List Lexeme} {b : β} (hls : AllLegal ls)
    (hp : (g <$> keyword rule w <*> condition r).parse ls = some (b, m)) :
    ∃ t c us, b = g t c ∧ ls = ⟨t, .word w⟩ :: us ++ m ∧ (us.length ≤ k → ∀ u m',
      (g <$> keyword rule w <*> condition r').parse (⟨u, .word w⟩ :: us ++ m') =
        some (g u c, m')) := by
  have htakes : TakesToken (.word w) g (g <$> keyword rule w) := takesToken_keyword.map g
  obtain ⟨f, c, middle, hf, hc, rfl⟩ := parse_seq_eq_some.mp hp
  obtain ⟨t, rfl, rfl⟩ := htakes.parse_eq_some.mp hf
  obtain ⟨cs, rfl, hcs⟩ := reads_condition hr middle c m hls.tail hc
  obtain ⟨x, xs, rfl⟩ := List.exists_cons_of_ne_nil hcs.opens.ne_nil
  refine ⟨t, c, x :: xs, rfl, rfl, fun hlen u m' => ?_⟩
  refine parse_seq_eq_some.mpr ⟨g u, c, x :: xs ++ m', ?_, ?_, rfl⟩
  · exact htakes.parse_eq_some.mpr ⟨u, rfl, rfl⟩
  · exact parse_bracket_moved (g := false) rfl rfl (takesToken_delimiter rfl)
      (takesToken_delimiter rfl) (h.expression false).weaken hc hcs.phrase.nested hlen m'

end LosslessJava.Grammar
