import Mathlib.Data.List.Basic

/-!
# Pieces of a text

A text is split into pieces at every occurrence of a character, and pieces are joined with the
character between them.

* `not_mem_of_mem_splitOn`: no piece has the character in it.
* `isInfix_intercalate`: neighbouring pieces are joined to a part of the text.
-/

namespace LosslessJava

variable {x : Char} {ps qs : List (List Char)}

theorem not_mem_of_mem_splitOn {piece cs : List Char} (h : piece ∈ cs.splitOn x) : x ∉ piece := by
  induction cs generalizing piece with
  | nil =>
    rw [List.mem_singleton.mp h]
    exact List.not_mem_nil
  | cons c cs ih =>
    obtain ⟨first, rest, hcs⟩ := List.exists_cons_of_ne_nil (List.splitOn_ne_nil x cs)
    rw [hcs] at ih
    rw [List.splitOn_cons_eq_if_modifyHead, hcs] at h
    split at h
    · rcases List.mem_cons.mp h with rfl | h
      · exact List.not_mem_nil
      · exact ih h
    · rename_i hc
      rcases List.mem_cons.mp h with rfl | h
      · rw [List.mem_cons, not_or]
        exact ⟨fun heq => hc (beq_iff_eq.mpr heq.symm), ih List.mem_cons_self⟩
      · exact ih (List.mem_cons_of_mem _ h)

theorem isPrefix_intercalate (x : Char) (ps qs : List (List Char)) :
    [x].intercalate ps <+: [x].intercalate (ps ++ qs) := by
  induction ps with
  | nil => exact List.nil_prefix
  | cons p ps ih =>
    cases ps with
    | nil =>
      cases qs with
      | nil => exact List.prefix_refl _
      | cons q qs =>
        rw [List.intercalate_singleton, List.singleton_append, List.intercalate_cons_cons,
          List.append_assoc]
        exact List.prefix_append _ _
    | cons p' ps =>
      rw [List.cons_append, List.cons_append, List.intercalate_cons_cons,
        List.intercalate_cons_cons]
      exact (List.prefix_append_right_inj _).mpr ih

theorem isSuffix_intercalate (x : Char) (ps qs : List (List Char)) :
    [x].intercalate qs <:+ [x].intercalate (ps ++ qs) := by
  induction ps with
  | nil => exact List.suffix_refl _
  | cons p ps ih =>
    rw [List.cons_append]
    cases h : ps ++ qs with
    | nil =>
      obtain ⟨rfl, rfl⟩ := List.append_eq_nil_iff.mp h
      exact List.nil_suffix
    | cons r rs =>
      rw [h] at ih
      rw [List.intercalate_cons_cons]
      exact ih.trans (List.suffix_append _ _)

theorem isInfix_intercalate (x : Char) (h : ps <:+: qs) :
    [x].intercalate ps <:+: [x].intercalate qs := by
  obtain ⟨front, back, rfl⟩ := h
  rw [List.append_assoc]
  exact (isPrefix_intercalate x ps back).isInfix.trans
    (isSuffix_intercalate x front (ps ++ back)).isInfix

end LosslessJava
