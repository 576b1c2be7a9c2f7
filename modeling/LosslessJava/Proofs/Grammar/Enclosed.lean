import LosslessJava.Proofs.Grammar.AgreeTerminal

/-!
# What is enclosed by brackets or ended by a semicolon

A parser that stops at a token it must stop at does not see what stands behind that token, whatever
that is. So a text between brackets is read in the same way in every place.

* `parse_closed`: a parser and the barrier behind it.
* `agree_bracket`: brackets agree, whatever is outside of them.
* `parse_bracket_moved`: what is between brackets is read again in another place.
-/

namespace LosslessJava.Grammar

open LosslessJava.Grammar.Parser

variable {α β γ : Type} {s g : Bool} {k : Nat}

/-! ## One more token -/

/-- The parser takes one token, and no other. -/
structure TakesToken (t : Token) (take : Trivia → α) (p : Parser α) : Prop where
  parse_nil : p.parse [] = none
  parse_cons : ∀ l ls, p.parse (l :: ls) = if l.token = t then some (take l.lead, ls) else none

theorem TakesToken.map {t : Token} {take : Trivia → α} {p : Parser α} (h : TakesToken t take p)
    (f : α → β) : TakesToken t (fun u => f (take u)) (f <$> p) := by
  constructor
  · show (p.parse []).map _ = none
    rw [h.parse_nil]
    rfl
  · intro l ls
    show (p.parse (l :: ls)).map _ = _
    rw [h.parse_cons]
    by_cases hl : l.token = t
    · rw [if_pos hl, if_pos hl]
      rfl
    · rw [if_neg hl, if_neg hl]
      rfl

theorem TakesToken.parse_eq_some {t : Token} {take : Trivia → α} {p : Parser α}
    (h : TakesToken t take p) {ls m : List Lexeme} {a : α} :
    p.parse ls = some (a, m) ↔ ∃ u, ls = ⟨u, t⟩ :: m ∧ a = take u := by
  cases ls with
  | nil => simp [h.parse_nil]
  | cons l ls =>
    obtain ⟨lead, t'⟩ := l
    rw [h.parse_cons]
    by_cases hl : t' = t
    · subst hl
      rw [if_pos rfl]
      constructor
      · intro heq
        obtain ⟨rfl, rfl⟩ := Prod.mk.inj (Option.some.inj heq)
        exact ⟨lead, rfl, rfl⟩
      · rintro ⟨u, heq, rfl⟩
        cases heq
        rfl
    · simp [hl]

theorem takesToken_delimiter {rule : Rule} {w : String} {c : Char} (hw : w.toList = [c]) :
    TakesToken (.mark c) id (delimiter rule w) := by
  refine ⟨rfl, fun l ls => ?_⟩
  obtain ⟨lead, t⟩ := l
  cases t with
  | mark d =>
    by_cases hd : c = d
    · simp [delimiter, symbol, token, acceptSymbol, hw, hd, startsTight, continues]
    · simp [delimiter, symbol, token, acceptSymbol, hw, hd, Ne.symm hd]
  | _ => rfl

/-- Nested tokens do not start with a barrier. -/
theorem Nested.not_barrier {t : Token} {ts : List Token} (h : Nested g (t :: ts)) :
    isBarrier g t = false := by
  have hfinish : t ≠ .finish := by
    rintro rfl
    cases h
  refine Bool.or_eq_false_iff.mpr ⟨beq_eq_false_iff_ne.mpr hfinish, ?_⟩
  cases g with
  | true =>
    have hne : t ≠ .mark '}' := h.not_closing (g := true)
    exact beq_eq_false_iff_ne.mpr hne
  | false =>
    have hne : t ≠ .mark ')' := h.not_closing (g := false)
    have hsemi : t ≠ .mark ';' := by
      rintro rfl
      exact h.not_semicolon
    exact Bool.or_eq_false_iff.mpr ⟨beq_eq_false_iff_ne.mpr hne, beq_eq_false_iff_ne.mpr hsemi⟩

theorem isBarrier_of_closing {t : Token} (h : Closing g t) : isBarrier g t = true := by
  rw [h]
  cases g <;> rfl

/-- A parser and the barrier behind it do not see what stands behind the barrier. -/
theorem parse_closed {c : Token} {take : Trivia → α} {closing : Parser α}
    (hc : isBarrier g c = true) (hclosing : TakesToken c take closing) {p q : Parser (α → β)}
    (h : Agree g k 0 p q) {us : List Lexeme} {l : Lexeme} (hl : l.token = c)
    (hus : Nested g (tokens us)) (hn : us.length < k) (rest rest' : List Lexeme) :
    ((p <*> closing).parse (us ++ l :: rest) = none ∧
      (q <*> closing).parse (us ++ l :: rest') = none) ∨
    ∃ b, (p <*> closing).parse (us ++ l :: rest) = some (b, rest) ∧
      (q <*> closing).parse (us ++ l :: rest') = some (b, rest') := by
  rw [parse_seq, parse_seq]
  have hl' : isBarrier g l.token = true := hl ▸ hc
  rcases h _ _ us (Or.inr ⟨⟨l, rest, rfl, hl'⟩, ⟨l, rest', rfl, hl'⟩⟩) (Or.inr hus) hn with
    ⟨hp, hq⟩ | ⟨f, zs, hp, hq, hzs, -⟩
  · rw [hp, hq]
    exact Or.inl ⟨rfl, rfl⟩
  · rw [hp, hq]
    cases zs with
    | nil =>
      simp only [List.nil_append, hclosing.parse_cons, if_pos hl]
      exact Or.inr ⟨f (take l.lead), rfl, rfl⟩
    | cons z zs =>
      have hz : z.token ≠ c := by
        rcases hzs with hnil | hnested
        · cases hnil
        · rintro rfl
          rw [tokens_cons] at hnested
          rw [hnested.not_barrier] at hc
          cases hc
      apply Or.inl
      simp only [List.cons_append, hclosing.parse_cons, if_neg hz, Option.map_none, and_self]

/-- Without barriers, both parsers and the token behind them read the same text. -/
theorem outcome_end {c : Token} {take : Trivia → α} {closing : Parser α}
    (hclosing : TakesToken c take closing) {p q : Parser (α → β)} (h : Agree g k 0 p q)
    (xs : List Lexeme) (hn : xs.length < k) :
    Outcome s 1 xs.length [] [] ((p <*> closing).parse (xs ++ []))
      ((q <*> closing).parse (xs ++ [])) := by
  rw [parse_seq, parse_seq]
  rcases h [] [] xs (Or.inl ⟨rfl, rfl⟩) (Or.inl rfl) hn with ⟨hp, hq⟩ | ⟨f, zs, hp, hq, -, hle⟩
  · rw [hp, hq]
    exact Or.inl ⟨rfl, rfl⟩
  · rw [hp, hq]
    cases zs with
    | nil =>
      apply Or.inl
      simp only [List.nil_append, hclosing.parse_nil, Option.map_none, and_self]
    | cons z zs =>
      simp only [List.cons_append, hclosing.parse_cons]
      by_cases hz : z.token = c
      · simp only [if_pos hz]
        exact Or.inr ⟨f (take z.lead), zs, rfl, rfl, Or.inl rfl, hle⟩
      · simp only [if_neg hz]
        exact Or.inl ⟨rfl, rfl⟩

/-! ## Brackets -/

/-- Behind an opening bracket comes its closing one. -/
theorem Nested.split_lexemes {x : Lexeme} {xs : List Lexeme} (h : Nested s (tokens (x :: xs)))
    (hx : Opening g x.token) : ∃ us l vs, xs = us ++ l :: vs ∧ Nested g (tokens us) ∧
      Closing g l.token ∧ Nested s (tokens vs) := by
  obtain ⟨us, c, vs, heq, hus, hc, hvs⟩ := Nested.split h hx
  obtain ⟨us, rest, rfl, rfl, hrest⟩ := List.map_eq_append_iff.mp heq
  obtain ⟨l, vs, rfl, rfl, rfl⟩ := List.map_eq_cons_iff.mp hrest
  exact ⟨us, l, vs, rfl, hus, hc, hvs⟩

section Bracket

variable {o c : Token} {opening closing : Parser Trivia} {f : Trivia → α → Trivia → β}

theorem parse_bracket_nil (hopening : TakesToken o id opening) (r : Parser α) :
    (f <$> opening <*> r <*> closing).parse [] = none := by
  rw [parse_seq, parse_seq, (hopening.map f).parse_nil]

theorem parse_bracket_cons (hopening : TakesToken o id opening) (r : Parser α) (l : Lexeme)
    (ls : List Lexeme) : (f <$> opening <*> r <*> closing).parse (l :: ls) =
      if l.token = o then (f l.lead <$> r <*> closing).parse ls else none := by
  rw [parse_seq, parse_seq, (hopening.map f).parse_cons]
  by_cases hl : l.token = o
  · simp only [if_pos hl]
    rfl
  · simp only [if_neg hl]

/-- What stands between brackets does not see what stands behind them. -/
theorem agree_bracket (ho : Opening g o) (hc : Closing g c) (hopening : TakesToken o id opening)
    (hclosing : TakesToken c id closing) {p q : Parser α} (h : Agree g k 0 p q)
    (f : Trivia → α → Trivia → β) :
    Agree s (k + 1) 1 (f <$> opening <*> p <*> closing) (f <$> opening <*> q <*> closing) := by
  intro tail tail' xs hctx hxs hn
  cases xs with
  | nil =>
    have hbarred : ∀ (r : Parser α) ls, Barred s ls →
        (f <$> opening <*> r <*> closing).parse ls = none := by
      rintro r _ ⟨l, ls, rfl, hl⟩
      have hne : l.token ≠ o := by
        rintro rfl
        rw [ho] at hl
        cases s <;> cases g <;> cases hl
      rw [parse_bracket_cons hopening, if_neg hne]
    exact hctx.outcome_none (parse_bracket_nil hopening p) (parse_bracket_nil hopening q)
      (hbarred p) (hbarred q)
  | cons x xs =>
    rw [List.cons_append, List.cons_append, parse_bracket_cons hopening,
      parse_bracket_cons hopening]
    by_cases hx : x.token = o
    · rw [if_pos hx, if_pos hx]
      have hn : xs.length < k := Nat.lt_of_succ_lt_succ hn
      have hagree := h.map (f x.lead)
      rcases hxs with rfl | hnested
      · -- Without barriers both parsers read the same text.
        obtain rfl : tail' = [] := by
          rcases hctx with ⟨-, hnil⟩ | ⟨⟨l, ls, hnil, -⟩, -⟩
          · exact hnil
          · cases hnil
        rcases outcome_end hclosing hagree xs hn with hnone | ⟨b, zs, hp, hq, hzs, hle⟩
        · exact Or.inl hnone
        · exact Or.inr ⟨b, zs, hp, hq, hzs, Nat.le_succ_of_le hle⟩
      · obtain ⟨us, l, vs, rfl, hus, hl, hvs⟩ := hnested.split_lexemes (hx.trans ho)
        rw [List.append_assoc, List.append_assoc]
        rcases parse_closed (isBarrier_of_closing hc) hclosing hagree (hl.trans hc.symm) hus
          (by simp at hn; omega) (vs ++ tail) (vs ++ tail') with ⟨hp, hq⟩ | ⟨b, hp, hq⟩
        · exact Or.inl ⟨hp, hq⟩
        · exact Or.inr ⟨b, vs, hp, hq, Or.inr hvs, by simp; omega⟩
    · rw [if_neg hx, if_neg hx]
      exact Or.inl ⟨rfl, rfl⟩

/-- Something between brackets is read again in another place. -/
theorem parse_bracket_moved (ho : Opening g o) (hc : Closing g c)
    (hopening : TakesToken o id opening) (hclosing : TakesToken c id closing) {p q : Parser α}
    (h : Agree g k 0 p q) {x : Lexeme} {xs rest : List Lexeme} {b : β}
    (hp : (f <$> opening <*> p <*> closing).parse (x :: xs ++ rest) = some (b, rest))
    (hxs : Nested s (tokens (x :: xs))) (hn : xs.length < k) (rest' : List Lexeme) :
    (f <$> opening <*> q <*> closing).parse (x :: xs ++ rest') = some (b, rest') := by
  rw [List.cons_append, parse_bracket_cons hopening] at hp ⊢
  by_cases hx : x.token = o
  · rw [if_pos hx] at hp ⊢
    obtain ⟨us, l, vs, rfl, hus, hl, -⟩ := hxs.split_lexemes (hx.trans ho)
    rw [List.append_assoc] at hp ⊢
    rcases parse_closed (isBarrier_of_closing hc) hclosing (h.map (f x.lead)) (hl.trans hc.symm) hus
      (by simp at hn; omega) (vs ++ rest) (vs ++ rest') with ⟨hnone, -⟩ | ⟨b', hb, hb'⟩
    · rw [List.cons_append, hnone] at hp
      cases hp
    · rw [List.cons_append, hb] at hp
      obtain ⟨rfl, hrest⟩ := Prod.mk.inj (Option.some.inj hp)
      obtain rfl : vs = [] := List.append_left_eq_self.mp hrest
      exact hb'
  · rw [if_neg hx] at hp
    cases hp

end Bracket

theorem agree_parentheses {p q : Parser α} (h : Agree false k 0 p q) (f : Trivia → α → Trivia → β) :
    Agree s (k + 1) 1 (f <$> leftParenthesis <*> p <*> rightParenthesis)
      (f <$> leftParenthesis <*> q <*> rightParenthesis) :=
  agree_bracket (g := false) rfl rfl (takesToken_delimiter rfl) (takesToken_delimiter rfl) h f

theorem agree_braces {p q : Parser α} (h : Agree true k 0 p q) (f : Trivia → α → Trivia → β) :
    Agree s (k + 1) 1 (f <$> leftBrace <*> p <*> rightBrace)
      (f <$> leftBrace <*> q <*> rightBrace) :=
  agree_bracket (g := true) rfl rfl (takesToken_delimiter rfl) (takesToken_delimiter rfl) h f

/-! ## Semicolons -/

theorem takesToken_semicolon : TakesToken (.mark ';') id semicolon := takesToken_delimiter rfl

theorem agree_semicolon : Agree true k 1 semicolon semicolon := by
  refine agree_of_head takesToken_semicolon.parse_nil fun l => ?_
  by_cases hl : l.token = .mark ';'
  · refine Or.inr ⟨⟨l.lead, fun ls => ?_⟩, ?_⟩
    · rw [takesToken_semicolon.parse_cons, if_pos hl]
      rfl
    · rw [hl]
      exact ⟨rfl, rfl⟩
  · refine Or.inl fun ls => ?_
    rw [takesToken_semicolon.parse_cons, if_neg hl]

end LosslessJava.Grammar
