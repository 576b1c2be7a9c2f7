import LosslessJava.Lex.Token
import LosslessJava.Proofs.Text.Bytes

/-!
# Places of tokens

* `Lexeme.placed`: the tokens of lexemes, each with the offset of its first byte.
* `Lexeme.pairwise_placed`: they stand in the order of their offsets.
* `Lexeme.exists_of_mem_placed`: at its offset the text reads as the token.
-/

namespace LosslessJava

/-- A place in the text is its own location. -/
theorem Location.offset_ofOffset {source before after : List Char} (h : source = before ++ after) :
    (ofOffset source (byteLength before)).offset = byteLength before := by
  refine Nat.min_eq_left ?_
  rw [h, byteLength_append]
  exact Nat.le_add_right _ _

/-! ## Places -/

/-- A token and the offset of its first byte. -/
structure Placed where
  offset : Nat
  token : Token
deriving DecidableEq

namespace Lexeme

/-- The tokens of lexemes that start at the offset. -/
def placed (offset : Nat) : List Lexeme → List Placed
  | [] => []
  | l :: ls =>
    ⟨offset + byteLength l.lead.toList, l.token⟩ :: placed (offset + byteLength l.toList) ls

variable {offset : Nat} {ls : List Lexeme} {p : Placed}

theorem map_token_placed (offset : Nat) (ls : List Lexeme) :
    (placed offset ls).map Placed.token = ls.map Lexeme.token := by
  induction ls generalizing offset with
  | nil => rfl
  | cons l ls ih => rw [placed, List.map_cons, List.map_cons, ih]

/-- A token with a place is that of a lexeme. -/
theorem exists_lexeme_of_mem_placed (h : p ∈ placed offset ls) : ∃ l ∈ ls, l.token = p.token := by
  have hmem : p.token ∈ (placed offset ls).map Placed.token := List.mem_map_of_mem h
  rw [map_token_placed] at hmem
  exact List.mem_map.mp hmem

/-- At the offset of a token the text reads as the token. -/
theorem exists_of_mem_placed (h : p ∈ placed offset ls) :
    ∃ before after, textOf ls = before ++ p.token.toList ++ after ∧
      p.offset = offset + byteLength before := by
  induction ls generalizing offset with
  | nil => cases h
  | cons l ls ih =>
    rcases List.mem_cons.mp h with rfl | h
    · exact ⟨l.lead.toList, textOf ls, rfl, rfl⟩
    · obtain ⟨before, after, htext, hoffset⟩ := ih h
      refine ⟨l.toList ++ before, after, ?_, ?_⟩
      · show l.toList ++ textOf ls = _
        simp only [htext, List.append_assoc]
      · rw [hoffset, byteLength_append, Nat.add_assoc]

/-- The tokens stand in the order of their offsets. -/
theorem pairwise_placed (offset : Nat) (ls : List Lexeme) :
    (placed offset ls).Pairwise fun p q => p.offset ≤ q.offset := by
  induction ls generalizing offset with
  | nil => exact .nil
  | cons l ls ih =>
    refine .cons (fun q hq => ?_) (ih _)
    obtain ⟨before, -, -, hoffset⟩ := exists_of_mem_placed hq
    rw [hoffset, Lexeme.toList, byteLength_append]
    show offset + byteLength l.lead.toList ≤ _
    omega

end Lexeme

/-- The tokens of a text. -/
def placedTokens (source : String) : List Placed := Lexeme.placed 0 (Lexeme.ofText source.toList)

end LosslessJava
