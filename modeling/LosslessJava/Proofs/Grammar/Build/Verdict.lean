import LosslessJava.Grammar.Build.Cursor
import LosslessJava.Proofs.Grammar.Piece
import LosslessJava.Proofs.Text.Bytes

/-!
# Verdicts on lexemes

What is built of a stretch of text is a value, or the error of the first literal in the stretch that
denotes no value. Verdicts are put together in the order of the text: an error in what stands first
comes first.

* `firstInvalid`: the first literal that denotes no value.
* `verdict`: the value of lexemes, or the error of their first invalid literal.
* `verdict_bind`: one stretch behind the other.
-/

namespace LosslessJava.Grammar

open Lexeme (textOf)

variable {α β : Type}

/-- The first literal that denotes no value, with its offset. -/
def firstInvalid (offset : Nat) : List Lexeme → Option (Nat × LiteralKind × String)
  | [] => none
  | l :: ls =>
    match l.token with
    | .literal kind text =>
      if (kind.decode text.toList).isNone then
        some (offset + byteLength l.lead.toList, kind, text)
      else firstInvalid (offset + byteLength l.toList) ls
    | _ => firstInvalid (offset + byteLength l.toList) ls

/-- Behind lexemes that end at an offset. -/
theorem firstInvalid_append (offset : Nat) (xs ys : List Lexeme) :
    firstInvalid offset (xs ++ ys) =
      (firstInvalid offset xs).or (firstInvalid (offset + byteLength (textOf xs)) ys) := by
  induction xs generalizing offset with
  | nil => rfl
  | cons x xs ih =>
    have hoffset : offset + byteLength (textOf (x :: xs)) =
        offset + byteLength x.toList + byteLength (textOf xs) := by
      rw [Lexeme.textOf_cons, byteLength_append, Nat.add_assoc]
    rw [List.cons_append, firstInvalid, firstInvalid, hoffset]
    split
    · split
      · rfl
      · exact ih _
    · exact ih _

/-- Trivia in front of a lexeme can be counted to the offset instead. -/
theorem firstInvalid_bare (offset : Nat) (l : Lexeme) (ls : List Lexeme) :
    firstInvalid (offset + byteLength l.lead.toList) (l.bare :: ls) =
      firstInvalid offset (l :: ls) := by
  obtain ⟨t, token⟩ := l
  have hoffset : offset + byteLength t.toList + byteLength token.toList =
      offset + byteLength (t.toList ++ token.toList) := by
    rw [byteLength_append, Nat.add_assoc]
  cases token with
  | literal kind text =>
    simp only [firstInvalid, Lexeme.bare, Lexeme.toList, Trivia.toList_empty, List.nil_append,
      hoffset, byteLength, Nat.add_zero]
  | _ =>
    simp only [firstInvalid, Lexeme.bare, Lexeme.toList, Trivia.toList_empty, List.nil_append,
      hoffset]

/-- The value of the lexemes at an offset, or the error of the first literal among them that denotes
no value. -/
def verdict (offset : Nat) (xs : List Lexeme) (a : α) : Built α :=
  match firstInvalid offset xs with
  | some (place, kind, found) => .error ⟨place, .invalidLiteral kind found⟩
  | none => .ok a

theorem verdict_of_none {offset : Nat} {xs : List Lexeme} (h : firstInvalid offset xs = none)
    (a : α) : verdict offset xs a = .ok a := by
  rw [verdict, h]

theorem verdict_bare (offset : Nat) (l : Lexeme) (ls : List Lexeme) (a : α) :
    verdict (offset + byteLength l.lead.toList) (l.bare :: ls) a = verdict offset (l :: ls) a := by
  rw [verdict, verdict, firstInvalid_bare]

theorem verdict_map (f : α → β) (offset : Nat) (xs : List Lexeme) (a : α) :
    f <$> verdict offset xs a = verdict offset xs (f a) := by
  unfold verdict
  cases firstInvalid offset xs with
  | none => rfl
  | some e => rfl

/-- Lexemes without an invalid literal can be counted to the offset instead. -/
theorem verdict_append {offset : Nat} {xs : List Lexeme} (h : firstInvalid offset xs = none)
    (ys : List Lexeme) (a : α) :
    verdict offset (xs ++ ys) a = verdict (offset + byteLength (textOf xs)) ys a := by
  rw [verdict, verdict, firstInvalid_append, h, Option.none_or]

/-- Lexemes without an invalid literal can be left out behind others. -/
theorem verdict_left {offset : Nat} {xs ys : List Lexeme}
    (h : firstInvalid (offset + byteLength (textOf xs)) ys = none) (a : α) :
    verdict offset (xs ++ ys) a = verdict offset xs a := by
  rw [verdict, verdict, firstInvalid_append, h, Option.or_none]

/-- What is built of a value alone. -/
theorem verdict_then {offset : Nat} {xs : List Lexeme} {a : α} {b : β} {k : α → Built β}
    (h : k a = .ok b) : (verdict offset xs a >>= k) = verdict offset xs b := by
  unfold verdict
  cases firstInvalid offset xs with
  | none => exact h
  | some e => rfl

/-- What is built of lexemes with the value of those in front of them. -/
theorem verdict_bind {offset : Nat} {xs ys : List Lexeme} {a : α} {b : β} {k : α → Built β}
    (h : k a = verdict (offset + byteLength (textOf xs)) ys b) :
    (verdict offset xs a >>= k) = verdict offset (xs ++ ys) b := by
  unfold verdict at h ⊢
  rw [firstInvalid_append]
  cases firstInvalid offset xs with
  | none => exact h
  | some e => rfl

end LosslessJava.Grammar
