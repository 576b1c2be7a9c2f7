import LosslessJava.Proofs.Grammar.Build.Text
import LosslessJava.Proofs.Lex.Piecewise

/-!
# Lexemes of texts

* `Lexed ls`: the lexemes are those of a text with valid literals, which is what a parser is given.
* `parse_only_eq_some`, `parse_endOfInput`: the end of a text.
* `Several.relexed`, `several_of_parseMany`, `parseMany_of_several`: values one behind the other
  that can be read in front of one another.
-/

namespace LosslessJava

/-! ## Valid literals -/

/-- A literal denotes a value. -/
def Lexeme.Valid (l : Lexeme) : Prop :=
  ∀ kind text, l.token = .literal kind text → (kind.decode text.toList).isSome = true

namespace Grammar

open LosslessJava.Grammar.Parser
open Lexeme (AllLegal Relexed textOf ofText)

theorem firstInvalid_eq_none {offset : Nat} {ls : List Lexeme} :
    firstInvalid offset ls = none ↔ ∀ l ∈ ls, l.Valid := by
  induction ls generalizing offset with
  | nil => simp [firstInvalid]
  | cons l ls ih =>
    rw [firstInvalid, List.forall_mem_cons]
    split
    · rename_i kind text hl
      by_cases hnone : (kind.decode text.toList).isNone = true
      · rw [if_pos hnone]
        constructor
        · intro h
          cases h
        · intro h
          have hsome := h.1 kind text hl
          rw [Option.isNone_iff_eq_none.mp hnone] at hsome
          cases hsome
      · rw [if_neg hnone, ih]
        have hvalid : l.Valid := by
          intro kind' text' hl'
          rw [hl] at hl'
          cases hl'
          simpa [Option.isSome_iff_ne_none] using hnone
        exact ⟨fun h => ⟨hvalid, h⟩, fun h => h.2⟩
    · rename_i hl
      rw [ih]
      exact ⟨fun h => ⟨fun kind text hl' => absurd hl' (hl kind text), h⟩, fun h => h.2⟩

/-! ## Texts -/

/-- The lexemes of a text with valid literals. -/
structure Lexed (ls : List Lexeme) : Prop where
  ofText : ofText (textOf ls) = ls
  valid : ∀ l ∈ ls, l.Valid

theorem Lexed.legal {ls : List Lexeme} (h : Lexed ls) : AllLegal ls := by
  rw [← h.ofText]
  exact Lexeme.legal_ofText _

theorem Lexed.right {xs ls : List Lexeme} (h : Lexed (xs ++ ls)) (hxs : Relexed xs) : Lexed ls := by
  refine ⟨?_, fun l hl => h.valid l (List.mem_append_right xs hl)⟩
  have := h.ofText
  rw [Lexeme.textOf_append, hxs] at this
  exact List.append_cancel_left this

theorem Lexed.tail {l : Lexeme} {ls : List Lexeme} (h : Lexed (l :: ls)) (hl : Relexed [l]) :
    Lexed ls := by
  have happend : Lexed ([l] ++ ls) := h
  exact happend.right hl

theorem lexed_ofText {source : String} (h : ∀ l ∈ ofText source.toList, l.Valid) :
    Lexed (ofText source.toList) :=
  ⟨by rw [Lexeme.textOf_ofText], h⟩

/-- Lexemes in front of a text. -/
theorem Lexed.append {xs ls : List Lexeme} (hxs : Relexed xs) (hvalid : ∀ l ∈ xs, l.Valid)
    (h : Lexed ls) : Lexed (xs ++ ls) := by
  refine ⟨?_, fun l hl => (List.mem_append.mp hl).elim (hvalid l) (h.valid l)⟩
  rw [Lexeme.textOf_append, hxs, h.ofText]

/-- Some lexemes as a whole text. -/
theorem lexed_of_relexed {xs : List Lexeme} (h : Relexed xs) (hvalid : ∀ l ∈ xs, l.Valid) :
    Lexed (xs ++ [⟨.ofList [], .finish⟩]) := by
  refine .append h hvalid ⟨?_, fun l hl => ?_⟩
  · rw [← Lexeme.ofText_nil, Lexeme.textOf_ofText]
  · rw [List.mem_singleton.mp hl]
    exact fun _ _ heq => by cases heq

/-! ## The end of a text -/

theorem parse_endOfInput {ls m : List Lexeme} {t : Trivia} :
    endOfInput.parse ls = some (t, m) ↔ ls = ⟨t, .finish⟩ :: m := by
  constructor
  · intro h
    obtain ⟨⟨u, count⟩, hu, heq⟩ := Option.map_eq_some_iff.mp h
    dsimp only at hu
    split at hu
    · cases hu
      cases heq
      rfl
    · cases hu
  · rintro rfl
    rfl

/-- The rule of a whole text reads the end behind the value. -/
theorem parse_only_eq_some {p : Parser α} {ls rest : List Lexeme} {a : α} :
    (only p).parse ls = some (a, rest) ↔ ∃ t, p.parse ls = some (a, ⟨t, .finish⟩ :: rest) := by
  constructor
  · intro h
    obtain ⟨_, t, middle, hf, ht, rfl⟩ := parse_seq_eq_some.mp h
    obtain ⟨a, ha, rfl⟩ := parse_map_eq_some.mp hf
    obtain rfl := parse_endOfInput.mp ht
    exact ⟨t, ha⟩
  · rintro ⟨t, ha⟩
    refine parse_seq_eq_some.mpr ⟨fun _ => a, t, _, ?_, parse_endOfInput.mpr rfl, rfl⟩
    exact parse_map_eq_some.mpr ⟨a, ha, rfl⟩

/-! ## Several values -/

section Several

variable {α : Type} {C : List Lexeme → α → Prop} {p : Parser α} {d : Nat}
  {xs : List Lexeme} {as : List α}

theorem Parser.Several.relexed (hC : ∀ xs a, C xs a → Relexed xs) (h : Several C xs as) :
    Relexed xs := by
  induction h with
  | nil => exact fun _ => rfl
  | cons ha _ ih => exact (hC _ _ ha).append ih

theorem Parser.Several.valid (hC : ∀ xs a, C xs a → ∀ l ∈ xs, l.Valid) (h : Several C xs as) :
    ∀ l ∈ xs, l.Valid := by
  induction h with
  | nil => simp
  | cons ha _ ih =>
    intro l hl
    exact (List.mem_append.mp hl).elim (hC _ _ ha l) (ih l)

theorem Parser.Several.text {steps : α → List Step}
    (hC : ∀ xs a, C xs a → textOf xs = Step.text (steps a)) (h : Several C xs as) :
    textOf xs = Step.text (as.flatMap steps) := by
  induction h with
  | nil => rfl
  | cons ha _ ih => rw [Lexeme.textOf_append, List.flatMap_cons, Step.text_append, hC _ _ ha, ih]

/-- What a repetition reads, one value behind the other. -/
theorem several_of_parseMany (hp : ∀ ls a m, Lexed ls → ls.length ≤ d →
      p.parse ls = some (a, m) → ∃ xs, ls = xs ++ m ∧ C xs a)
    (hC : ∀ xs a, C xs a → Relexed xs) {bound : Nat} {ls m : List Lexeme} (hls : Lexed ls)
    (hd : ls.length ≤ d) (h : parseMany p bound ls = (as, m)) :
    ∃ xs, ls = xs ++ m ∧ Several C xs as := by
  induction bound generalizing ls as with
  | zero =>
    obtain ⟨rfl, rfl⟩ := Prod.mk.inj h
    exact ⟨[], rfl, .nil⟩
  | succ bound ih =>
    rw [parseMany] at h
    cases ha : p.parse ls with
    | none =>
      rw [ha] at h
      obtain ⟨rfl, rfl⟩ := Prod.mk.inj h
      exact ⟨[], rfl, .nil⟩
    | some r =>
      obtain ⟨a, rest⟩ := r
      rw [ha] at h
      obtain ⟨xs, rfl, hxs⟩ := hp ls a rest hls hd ha
      rw [List.length_append] at hd
      cases hmany : parseMany p bound rest with
      | mk as' m' =>
        simp only [hmany] at h
        obtain ⟨rfl, rfl⟩ := Prod.mk.inj h
        obtain ⟨ys, rfl, hys⟩ := ih (hls.right (hC _ _ hxs)) (by omega) hmany
        exact ⟨xs ++ ys, by rw [List.append_assoc], .cons hxs hys⟩

/-- Values in front of something that is none are all read again. What may follow a value is said by
`P`, and holds where another one starts. -/
theorem parseMany_of_several {P : List Lexeme → Prop} (hne : ∀ xs a, C xs a → xs ≠ [])
    (hP : ∀ xs a m, C xs a → P (xs ++ m))
    (hp : ∀ xs a m, C xs a → xs.length ≤ d → P m → p.parse (xs ++ m) = some (a, m))
    {m : List Lexeme} (hm : P m) (hnone : p.parse m = none) (h : Several C xs as) {bound : Nat}
    (hd : xs.length ≤ d) (hbound : xs.length ≤ bound) :
    parseMany p bound (xs ++ m) = (as, m) := by
  induction h generalizing bound with
  | nil =>
    cases bound with
    | zero => rfl
    | succ bound => rw [parseMany, List.nil_append, hnone]
  | @cons us vs a as ha has ih =>
    have hpos : 0 < us.length := List.length_pos_iff.mpr (hne us a ha)
    rw [List.length_append] at hd hbound
    obtain ⟨bound, rfl⟩ : ∃ b, bound = b + 1 := ⟨bound - 1, by omega⟩
    have hnext : P (vs ++ m) := by
      cases has with
      | nil => exact hm
      | cons hb _ =>
        rw [List.append_assoc]
        exact hP _ _ _ hb
    have hparse := hp us a (vs ++ m) ha (by omega) hnext
    have hrest := ih (by omega) (show vs.length ≤ bound by omega)
    rw [List.append_assoc, parseMany, hparse]
    simp only [hrest]

/-- A repetition with enough room ends in front of something that is no value. -/
theorem parse_of_parseMany (hp : ∀ ls a m, Lexed ls → ls.length ≤ d →
      p.parse ls = some (a, m) → ∃ xs, ls = xs ++ m ∧ C xs a)
    (hC : ∀ xs a, C xs a → Relexed xs) (hne : ∀ xs a, C xs a → xs ≠ []) {bound : Nat}
    {ls m : List Lexeme} (hls : Lexed ls) (hd : ls.length ≤ d) (hbound : ls.length < bound)
    (h : parseMany p bound ls = (as, m)) : p.parse m = none := by
  induction bound generalizing ls as with
  | zero => exact absurd hbound (Nat.not_lt_zero _)
  | succ bound ih =>
    rw [parseMany] at h
    cases ha : p.parse ls with
    | none =>
      rw [ha] at h
      obtain ⟨-, rfl⟩ := Prod.mk.inj h
      exact ha
    | some r =>
      obtain ⟨a, rest⟩ := r
      rw [ha] at h
      obtain ⟨xs, rfl, hxs⟩ := hp ls a rest hls hd ha
      have hpos : 0 < xs.length := List.length_pos_iff.mpr (hne xs a hxs)
      rw [List.length_append] at hd hbound
      cases hmany : parseMany p bound rest with
      | mk as' m' =>
        simp only [hmany] at h
        obtain ⟨-, rfl⟩ := Prod.mk.inj h
        exact ih (hls.right (hC _ _ hxs)) (by omega) (by omega) hmany

end Several

end Grammar

end LosslessJava
