import LosslessJava.Grammar.Parser
import LosslessJava.Proofs.Lex.Legal

/-!
# What a successful reading took and made

`Reads p C` is the postcondition of a parser: every reading of `p` takes some lexemes off the front
of a legal input, and `C` relates them to the value that is made of them. There is one lemma for
each way to combine parsers, so that the postcondition of a rule is put together like the rule.

Only `lead` takes part of a lexeme, and has no postcondition of this kind.
-/

namespace LosslessJava

namespace Lexeme

/-- All lexemes of the list are legal. -/
def AllLegal (ls : List Lexeme) : Prop := ∀ l ∈ ls, l.Legal

theorem AllLegal.head {l : Lexeme} {ls : List Lexeme} (h : AllLegal (l :: ls)) : l.Legal :=
  h l List.mem_cons_self

theorem AllLegal.tail {l : Lexeme} {ls : List Lexeme} (h : AllLegal (l :: ls)) : AllLegal ls :=
  fun m hm => h m (List.mem_cons_of_mem l hm)

theorem AllLegal.right {xs ys : List Lexeme} (h : AllLegal (xs ++ ys)) : AllLegal ys :=
  fun l hl => h l (List.mem_append_right xs hl)

/-- A lexeme without its trivia. -/
def bare (l : Lexeme) : Lexeme := { l with lead := .empty }

theorem AllLegal.bare {l : Lexeme} {ls : List Lexeme} (h : AllLegal (l :: ls)) :
    AllLegal (l.bare :: ls) := by
  intro m hm
  rcases List.mem_cons.mp hm with rfl | hm
  · exact ⟨h.head.token, .nil⟩
  · exact h m (List.mem_cons_of_mem _ hm)

end Lexeme

namespace Grammar.Parser

open Lexeme

variable {α β γ : Type}

/-- Every reading of `p` takes lexemes off the front of the input, and `C` relates them to its
value. -/
def Reads (p : Parser α) (C : List Lexeme → α → Prop) : Prop :=
  ∀ ls a rest, AllLegal ls → p.parse ls = some (a, rest) → ∃ xs, ls = xs ++ rest ∧ C xs a

/-! ## Relations between lexemes and values -/

/-- One run of lexemes behind the other, the first for a function and the second for its
argument. -/
def Both (C : List Lexeme → (α → β) → Prop) (D : List Lexeme → α → Prop) (xs : List Lexeme)
    (b : β) : Prop :=
  ∃ ys zs f a, xs = ys ++ zs ∧ C ys f ∧ D zs a ∧ b = f a

/-- The values of `C` under a function. -/
def Image (g : α → β) (C : List Lexeme → α → Prop) (xs : List Lexeme) (b : β) : Prop :=
  ∃ a, C xs a ∧ b = g a

/-- No lexemes for no value. -/
inductive Perhaps (C : List Lexeme → α → Prop) : List Lexeme → Option α → Prop
  | none : Perhaps C [] none
  | some {xs : List Lexeme} {a : α} (h : C xs a) : Perhaps C xs (some a)

/-- Runs of lexemes one behind the other, one for each value. -/
inductive Several (C : List Lexeme → α → Prop) : List Lexeme → List α → Prop
  | nil : Several C [] []
  | cons {xs ys : List Lexeme} {a : α} {as : List α} (h : C xs a) (hs : Several C ys as) :
    Several C (xs ++ ys) (a :: as)

theorem Several.mono {C D : List Lexeme → α → Prop} (hCD : ∀ xs a, C xs a → D xs a)
    {xs : List Lexeme} {as : List α} (h : Several C xs as) : Several D xs as := by
  induction h with
  | nil => exact .nil
  | cons h _ ih => exact .cons (hCD _ _ h) ih

/-- Another value and its lexemes can be put in the place of one. -/
theorem Several.set {C : List Lexeme → α → Prop} {xs ys : List Lexeme} {as : List α} {a : α}
    (h : Several C xs as) (ha : C ys a) (i : Nat) : ∃ zs, Several C zs (as.set i a) := by
  induction h generalizing i with
  | nil => exact ⟨[], .nil⟩
  | @cons us vs b bs hb hbs ih =>
    cases i with
    | zero => exact ⟨ys ++ vs, .cons ha hbs⟩
    | succ i =>
      obtain ⟨zs, hzs⟩ := ih i
      exact ⟨us ++ zs, .cons hb hzs⟩

/-- The runs can be put in any order. -/
theorem Several.perm {C : List Lexeme → α → Prop} {xs : List Lexeme} {as bs : List α}
    (h : Several C xs as) (hperm : as.Perm bs) : ∃ ys, Several C ys bs ∧ xs.Perm ys := by
  induction hperm generalizing xs with
  | nil => exact ⟨xs, h, .refl xs⟩
  | cons a _ ih =>
    cases h with
    | cons ha has =>
      obtain ⟨ys, hys, hperm⟩ := ih has
      exact ⟨_, .cons ha hys, hperm.append_left _⟩
  | swap a b as =>
    cases h with
    | cons hb hrest =>
      cases hrest with
      | cons ha has => exact ⟨_, .cons ha (.cons hb has), List.perm_append_comm_assoc _ _ _⟩
  | trans _ _ ih ih' =>
    obtain ⟨ys, hys, hperm⟩ := ih h
    obtain ⟨zs, hzs, hperm'⟩ := ih' hys
    exact ⟨zs, hzs, hperm.trans hperm'⟩

/-! ## Combinations -/

variable {C : List Lexeme → α → Prop} {D : List Lexeme → β → Prop}

theorem Reads.mono {p : Parser α} {C' : List Lexeme → α → Prop} (h : Reads p C)
    (hC : ∀ xs a, C xs a → C' xs a) : Reads p C' := by
  intro ls a rest hls hp
  obtain ⟨xs, heq, hxs⟩ := h ls a rest hls hp
  exact ⟨xs, heq, hC xs a hxs⟩

/-- One reading has both postconditions. -/
theorem Reads.and {p : Parser α} {C' : List Lexeme → α → Prop} (h : Reads p C)
    (h' : Reads p C') : Reads p fun xs a => C xs a ∧ C' xs a := by
  intro ls a rest hls hp
  obtain ⟨xs, rfl, hxs⟩ := h ls a rest hls hp
  obtain ⟨ys, heq, hys⟩ := h' _ a rest hls hp
  obtain rfl := List.append_cancel_right heq
  exact ⟨xs, rfl, hxs, hys⟩

theorem reads_fail : Reads (fail : Parser α) C := by
  intro ls a rest _ h
  cases h

theorem parse_map_eq_some {p : Parser α} {g : α → β} {ls rest : List Lexeme} {b : β} :
    (g <$> p).parse ls = some (b, rest) ↔ ∃ a, p.parse ls = some (a, rest) ∧ b = g a := by
  constructor
  · intro h
    obtain ⟨⟨a, r⟩, ha, heq⟩ := Option.map_eq_some_iff.mp h
    obtain ⟨rfl, rfl⟩ := Prod.mk.inj heq
    exact ⟨a, ha, rfl⟩
  · rintro ⟨a, ha, rfl⟩
    exact Option.map_eq_some_iff.mpr ⟨(a, rest), ha, rfl⟩

theorem Reads.map {p : Parser α} (h : Reads p C) (g : α → β) : Reads (g <$> p) (Image g C) := by
  intro ls b rest hls hp
  obtain ⟨a, ha, rfl⟩ := parse_map_eq_some.mp hp
  obtain ⟨xs, heq, hxs⟩ := h ls a rest hls ha
  exact ⟨xs, heq, a, hxs, rfl⟩

theorem parse_seq (p : Parser (α → β)) (q : Parser α) (ls : List Lexeme) :
    (p <*> q).parse ls =
      match p.parse ls with
      | none => none
      | some (g, rest) => (q.parse rest).map fun (a, rest) => (g a, rest) := rfl

theorem parse_seq_eq_some {p : Parser (α → β)} {q : Parser α} {ls rest : List Lexeme} {b : β} :
    (p <*> q).parse ls = some (b, rest) ↔
      ∃ f a middle, p.parse ls = some (f, middle) ∧ q.parse middle = some (a, rest) ∧ b = f a := by
  rw [parse_seq]
  constructor
  · intro h
    split at h
    · cases h
    · rename_i f middle hf
      obtain ⟨⟨a, r⟩, ha, heq⟩ := Option.map_eq_some_iff.mp h
      obtain ⟨rfl, rfl⟩ := Prod.mk.inj heq
      exact ⟨f, a, middle, hf, ha, rfl⟩
  · rintro ⟨f, a, middle, hf, ha, rfl⟩
    simp only [hf, ha, Option.map_some]

theorem Reads.seq {p : Parser (α → β)} {q : Parser α} {E : List Lexeme → (α → β) → Prop}
    (hp : Reads p E) (hq : Reads q C) : Reads (p <*> q) (Both E C) := by
  intro ls b rest hls h
  obtain ⟨f, a, middle, hf, ha, rfl⟩ := parse_seq_eq_some.mp h
  obtain ⟨xs, rfl, hxs⟩ := hp ls f middle hls hf
  obtain ⟨ys, rfl, hys⟩ := hq middle a rest hls.right ha
  exact ⟨xs ++ ys, by simp, xs, ys, f, a, rfl, hxs, hys, rfl⟩

theorem Reads.seqLeft {p : Parser α} {q : Parser β} (hp : Reads p C) (hq : Reads q D) :
    Reads (p <* q) (Both (Image (fun a _ => a) C) D) :=
  (hp.map fun a _ => a).seq hq

theorem Reads.seqRight {p : Parser α} {q : Parser β} (hp : Reads p C) (hq : Reads q D) :
    Reads (p *> q) (Both (Image (fun _ b => b) C) D) :=
  (hp.map fun _ b => b).seq hq

theorem parse_orElse (p q : Parser α) (ls : List Lexeme) :
    (p <|> q).parse ls =
      match p.parse ls with
      | none => q.parse ls
      | some r => some r := rfl

theorem parse_orElse_eq_some {p q : Parser α} {ls rest : List Lexeme} {a : α} :
    (p <|> q).parse ls = some (a, rest) ↔
      p.parse ls = some (a, rest) ∨ p.parse ls = none ∧ q.parse ls = some (a, rest) := by
  rw [parse_orElse]
  cases h : p.parse ls with
  | none => simp
  | some r => simp

theorem Reads.orElse {p q : Parser α} (hp : Reads p C) (hq : Reads q C) : Reads (p <|> q) C := by
  intro ls a rest hls h
  rcases parse_orElse_eq_some.mp h with h | ⟨-, h⟩
  · exact hp ls a rest hls h
  · exact hq ls a rest hls h

theorem parse_optional_eq_some {p : Parser α} {ls rest : List Lexeme} {o : Option α} :
    (optional p).parse ls = some (o, rest) ↔
      (o = none ∧ ls = rest ∧ p.parse ls = none) ∨
        ∃ a, o = some a ∧ p.parse ls = some (a, rest) := by
  simp only [Parser.optional]
  cases h : p.parse ls with
  | none => simp [eq_comm]
  | some r =>
    obtain ⟨a, m⟩ := r
    constructor
    · intro heq
      cases heq
      exact Or.inr ⟨a, rfl, rfl⟩
    · rintro (⟨-, -, hnone⟩ | ⟨b, rfl, heq⟩)
      · cases hnone
      · cases heq
        rfl

theorem Reads.optional {p : Parser α} (hp : Reads p C) : Reads (optional p) (Perhaps C) := by
  intro ls o rest hls h
  rcases parse_optional_eq_some.mp h with ⟨rfl, rfl, -⟩ | ⟨a, rfl, ha⟩
  · exact ⟨[], rfl, .none⟩
  · obtain ⟨xs, rfl, hxs⟩ := hp ls a rest hls ha
    exact ⟨xs, rfl, .some hxs⟩

theorem parseMany_reads {p : Parser α} (hp : Reads p C) (bound : Nat) {ls : List Lexeme}
    (hls : AllLegal ls) :
    ∃ xs, ls = xs ++ (parseMany p bound ls).2 ∧ Several C xs (parseMany p bound ls).1 := by
  induction bound generalizing ls with
  | zero => exact ⟨[], rfl, .nil⟩
  | succ bound ih =>
    rw [parseMany]
    cases h : p.parse ls with
    | none => exact ⟨[], rfl, .nil⟩
    | some r =>
      obtain ⟨a, rest⟩ := r
      obtain ⟨xs, rfl, hxs⟩ := hp ls a rest hls h
      obtain ⟨ys, hrest, hys⟩ := ih hls.right
      exact ⟨xs ++ ys, by rw [List.append_assoc, ← hrest], .cons hxs hys⟩

theorem Reads.many {p : Parser α} (hp : Reads p C) (bound : Nat) :
    Reads (many bound p) (Several C) := by
  intro ls as rest hls h
  simp only [Parser.many, Option.some.injEq] at h
  have := parseMany_reads hp bound hls
  rwa [h] at this

theorem Reads.named {p : Parser α} (hp : Reads p C) (rule : Rule) : Reads (named rule p) C := hp

theorem Reads.summary {p : Parser α} (hp : Reads p C) (rule : Rule) : Reads (summary rule p) C := hp

theorem Reads.around {p : Parser α} (hp : Reads p C) (rule : Rule) : Reads (around rule p) C := hp

/-- When a parser is made does not matter. -/
theorem later_eq (p : Unit → Parser α) : later p = p () := rfl

/-! ## Tokens -/

theorem reads_token {rule : Rule} {accept : List Lexeme → Option (α × Nat)}
    (h : ∀ ls a count, AllLegal ls → accept ls = some (a, count) → C (ls.take count) a) :
    Reads (token rule accept) C := by
  intro ls a rest hls hp
  obtain ⟨⟨b, count⟩, hb, heq⟩ := Option.map_eq_some_iff.mp hp
  obtain ⟨rfl, rfl⟩ := Prod.mk.inj heq
  exact ⟨ls.take count, (List.take_append_drop count ls).symm, h ls b count hls hb⟩

/-! ## Values alone -/

/-- All values that the parser makes have the property. -/
def Yields (p : Parser α) (P : α → Prop) : Prop := ∀ ls a m, p.parse ls = some (a, m) → P a

theorem Yields.map {p : Parser α} {g : α → β} {P : β → Prop} (h : ∀ a, P (g a)) :
    Yields (g <$> p) P := by
  intro ls b m hp
  obtain ⟨a, -, rfl⟩ := parse_map_eq_some.mp hp
  exact h a

theorem Yields.seq_of {p : Parser (α → β)} {q : Parser α} {Q : α → Prop} {P : β → Prop}
    (h : Yields p fun f => ∀ a, Q a → P (f a)) (h' : Yields q Q) : Yields (p <*> q) P := by
  intro ls b m hp
  obtain ⟨f, a, middle, hf, ha, rfl⟩ := parse_seq_eq_some.mp hp
  exact h ls f middle hf a (h' middle a m ha)

theorem Yields.seq {p : Parser (α → β)} {q : Parser α} {P : β → Prop}
    (h : Yields p fun f => ∀ a, P (f a)) : Yields (p <*> q) P :=
  .seq_of (Q := fun _ => True) (fun ls f m hf a _ => h ls f m hf a) fun _ _ _ _ => trivial

theorem Yields.optional {p : Parser α} {P : α → Prop} (h : Yields p P) :
    Yields (optional p) fun o => ∀ a ∈ o, P a := by
  intro ls o m hp
  rcases parse_optional_eq_some.mp hp with ⟨rfl, -⟩ | ⟨a, rfl, ha⟩
  · simp
  · simpa using h ls a m ha

theorem Yields.around {p : Parser α} {P : α → Prop} (h : Yields p P) {rule : Rule} :
    Yields (around rule p) P := h

theorem Yields.orElse {p q : Parser α} {P : α → Prop} (h : Yields p P) (h' : Yields q P) :
    Yields (p <|> q) P := by
  intro ls a m hp
  rcases parse_orElse_eq_some.mp hp with hp | ⟨-, hp⟩
  · exact h ls a m hp
  · exact h' ls a m hp

end Grammar.Parser

end LosslessJava
