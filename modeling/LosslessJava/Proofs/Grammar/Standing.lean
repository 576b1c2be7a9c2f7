import LosslessJava.Proofs.Grammar.Lexed
import LosslessJava.Proofs.Grammar.Shifted

/-!
# Statements that can stand in any block

`Stands xs s` says everything about the lexemes of a statement that a block needs, and nothing about
the place where they stand. So such statements can be put in any order, and a block of them is read
as what it is made of.

* `exists_stands`: a statement that is read somewhere stands anywhere.
* `several_stands`, `parseMany_stands`: statements one behind the other, there and back.
-/

namespace LosslessJava

namespace Grammar

open LosslessJava.Grammar.Parser
open Lexeme (AllLegal Reindented Relexed Valid textOf ofText)

/-! ## One statement -/

/-- The lexemes are the statement in front of everything but an `else`. -/
structure Stands (xs : List Lexeme) (s : Statement) : Prop where
  text : textOf xs = Step.text s.steps
  opens : ∃ t, Opens t xs
  relexed : Relexed xs
  valid : ∀ l ∈ xs, l.Valid
  parse : ∀ d m, xs.length ≤ d → ¬ StartsElse m →
    (blockStatement (rules d)).parse (xs ++ m) = some (s, m)

theorem valid_of_reindented {s : Shift} {xs ys : List Lexeme}
    (h : List.Forall₂ (Reindented s) xs ys) (hxs : ∀ x ∈ xs, x.Valid) : ∀ y ∈ ys, y.Valid := by
  induction h with
  | nil => exact hxs
  | @cons x y xs ys hxy _ ih =>
    obtain ⟨hx, hxs⟩ := List.forall_mem_cons.mp hxs
    refine List.forall_mem_cons.mpr ⟨?_, ih hxs⟩
    rwa [Valid, hxy.token]

/-- What is read as a statement of a block stands. -/
theorem exists_stands {d : Nat} {ls m : List Lexeme} {s : Statement} (hls : Lexed ls)
    (hd : ls.length ≤ d) (h : (blockStatement (rules d)).parse ls = some (s, m)) :
    ∃ xs, ls = xs ++ m ∧ Stands xs s := by
  obtain ⟨xs, rfl, hxs, hended⟩ := reads_blockStatement (rules_sound d) ls s m hls.legal h
  refine ⟨xs, rfl, hxs.text, ⟨_, hxs.opens⟩, ?_, ?_, ?_⟩
  · have hofText := hls.ofText
    rw [Lexeme.textOf_append] at hofText
    exact Lexeme.relexed_of_touch hxs.phrase.solid hended hofText
  · exact fun l hl => hls.valid l (List.mem_append_left m hl)
  · intro d' m' hd' hm'
    rw [List.length_append] at hd
    have hmoves := moves_blockStatement (k := xs.length) (show xs.length ≤ d by omega) hd'
    obtain ⟨ys, heq, -, hys⟩ := hmoves _ s m hls.legal (by rwa [List.length_append]) h
    obtain rfl : xs = ys := List.append_cancel_right heq
    exact hys (Nat.le_refl _) m' fun hstarts => absurd hstarts hm'

/-- It stands after any shift. -/
theorem exists_stands_shifted (s : Shift) {d : Nat} {ls m : List Lexeme} {a : Statement}
    (hls : Lexed ls) (hd : ls.length ≤ d)
    (h : (blockStatement (rules d)).parse ls = some (a, m)) :
    ∃ ys, Stands ys (s.applyTo a) := by
  obtain ⟨xs, rfl, hxs, hended⟩ := reads_blockStatement (rules_sound d) ls a m hls.legal h
  rw [List.length_append] at hd
  have hshifts := shifts_blockStatement (s := s) (k := xs.length) (show xs.length ≤ d by omega)
    (Nat.le_succ xs.length)
  obtain ⟨us, heq, -, hus⟩ := hshifts _ a m hls.legal (by rwa [List.length_append]) h
  obtain rfl : xs = us := List.append_cancel_right heq
  obtain ⟨ys, hys, hread⟩ := hus (Nat.le_refl _)
  have hofText := hls.ofText
  rw [Lexeme.textOf_append] at hofText
  have hgaps := Lexeme.gaps_of_touch hxs.phrase.solid hofText
  have hrelexed : Relexed ys := Lexeme.relexed_regapped hxs.phrase.solid hended
    (Lexeme.regapped_of_reindented hys hgaps) hofText
  have hvalid := valid_of_reindented hys fun l hl => hls.valid l (List.mem_append_left m hl)
  -- The shifted lexemes alone are a text.
  have hlexed := lexed_of_relexed hrelexed hvalid
  have hparse := hread [⟨.ofList [], .finish⟩] fun helse =>
    absurd helse (not_startsElse (by simp) [])
  obtain ⟨zs, -, hstands⟩ := exists_stands hlexed (by simp [hys.length_eq]) hparse
  exact ⟨zs, hstands⟩

/-! ## Several statements -/

section Several

variable {xs : List Lexeme} {ss : List Statement}

theorem several_stands {d bound : Nat} {ls m : List Lexeme} (hls : Lexed ls)
    (hd : ls.length ≤ d) (h : parseMany (blockStatement (rules d)) bound ls = (ss, m)) :
    ∃ xs, ls = xs ++ m ∧ Several Stands xs ss :=
  several_of_parseMany (fun _ _ _ => exists_stands) (fun _ _ h => h.relexed) hls hd h

theorem relexed_of_several (h : Several Stands xs ss) : Relexed xs :=
  h.relexed fun _ _ h => h.relexed

theorem valid_of_several (h : Several Stands xs ss) : ∀ l ∈ xs, l.Valid :=
  h.valid fun _ _ h => h.valid

theorem text_of_several (h : Several Stands xs ss) :
    textOf xs = Step.text (Statement.listSteps ss) := by
  rw [Statement.listSteps_eq]
  exact h.text fun _ _ h => h.text

/-- Statements do not start with an `else`. -/
theorem Stands.not_else {s : Statement} (h : Stands xs s) (m : List Lexeme) :
    ¬ StartsElse (xs ++ m) := by
  obtain ⟨t, x, us, rfl, -, hx⟩ := h.opens
  refine not_startsElse (fun helse => ?_) _
  rw [show x.token = .word "else" from helse] at hx
  cases hx

/-- Statements in front of something that is none are all read again. -/
theorem parseMany_stands {d : Nat} {m : List Lexeme} (hm : ¬ StartsElse m)
    (hnone : (blockStatement (rules d)).parse m = none) (h : Several Stands xs ss) {bound : Nat}
    (hd : xs.length ≤ d) (hbound : xs.length ≤ bound) :
    parseMany (blockStatement (rules d)) bound (xs ++ m) = (ss, m) :=
  parseMany_of_several (fun _ _ h => h.opens.choose_spec.ne_nil)
    (fun _ _ m h => h.not_else m) (fun _ _ m h => h.parse d m) hm hnone h hd hbound

end Several

end Grammar

end LosslessJava
