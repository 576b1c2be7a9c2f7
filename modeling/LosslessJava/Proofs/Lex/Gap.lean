import LosslessJava.Lex.Blank
import Mathlib.Data.List.TakeWhile

/-!
# White space and comments, declaratively

`Lex.IsGap` says which texts are white space and complete comments. A line comment takes the rest of
its line, so it is followed by a line break, unless the text ends with it (`final`).

* `isGap_skip`: what is skipped in front of a token is a gap. In front of a token that exists, each
  line comment in it has its line break in it.
* `skip_append_of_isGap`: a gap is skipped as a whole, whatever follows it.
-/

namespace LosslessJava.Lex

/-- White space and complete comments. With `final`, a line comment may end the text. -/
inductive IsGap (final : Bool) : List Char → Prop
  | nil : IsGap final []
  | space {c : Char} {cs : List Char} (hc : isSpace c = true) (h : IsGap final cs) :
    IsGap final (c :: cs)
  | blockComment {body cs : List Char} (hbody : ¬ ['*', '/'] <:+: body) (h : IsGap final cs) :
    IsGap final ('/' :: '*' :: body ++ '*' :: '/' :: cs)
  | lineComment {body cs : List Char} {c : Char} (hbody : ∀ d ∈ body, isLineEnd d = false)
    (hc : isLineEnd c = true) (h : IsGap final cs) : IsGap final ('/' :: '/' :: body ++ c :: cs)
  | lastComment {body : List Char} (hfinal : final = true)
    (hbody : ∀ d ∈ body, isLineEnd d = false) : IsGap final ('/' :: '/' :: body)

theorem isSpace_of_isLineEnd {c : Char} (h : isLineEnd c = true) : isSpace c = true := by
  simp only [isLineEnd, Bool.or_eq_true, beq_iff_eq] at h
  rcases h with rfl | rfl <;> rfl

namespace IsGap

theorem weaken {final : Bool} {cs : List Char} (h : IsGap false cs) : IsGap final cs := by
  induction h with
  | nil => exact nil
  | space hc _ ih => exact space hc ih
  | blockComment hbody _ ih => exact blockComment hbody ih
  | lineComment hbody hc _ ih => exact lineComment hbody hc ih
  | lastComment hfinal _ => cases hfinal

/-- The rest of a gap behind a line break. -/
theorem tail {final : Bool} {c : Char} {cs : List Char} (h : IsGap final (c :: cs))
    (hc : isLineEnd c = true) : IsGap final cs := by
  cases h with
  | space _ h => exact h
  | blockComment _ _ => cases hc
  | lineComment _ _ _ => cases hc
  | lastComment _ _ => cases hc

end IsGap

/-! ## Comments -/

/-- The body of a block comment has no end of a comment in it. -/
theorem body_of_splitBlockEnd {cs text rest : List Char}
    (h : Trivia.splitBlockEnd cs = some (text, rest)) :
    ∃ body, text = body ++ ['*', '/'] ∧ ¬ ['*', '/'] <:+: body := by
  fun_induction Trivia.splitBlockEnd cs generalizing text rest with
  | case1 cs =>
    cases h
    exact ⟨[], rfl, by simp⟩
  | case2 c cs hne ih =>
    obtain ⟨⟨b, r⟩, hb, heq⟩ := Option.map_eq_some_iff.mp h
    cases heq
    obtain ⟨body, rfl, hbody⟩ := ih hb
    refine ⟨c :: body, rfl, ?_⟩
    intro hin
    rcases List.infix_cons_iff.mp hin with hpre | hin
    · obtain ⟨rest', hrest⟩ := hpre
      cases hrest
      have := Trivia.append_of_splitBlockEnd hb
      exact hne _ rfl this.symm
    · exact hbody hin
  | case3 => cases h

theorem splitBlockEnd_append {body : List Char} (h : ¬ ['*', '/'] <:+: body) (cs : List Char) :
    Trivia.splitBlockEnd (body ++ '*' :: '/' :: cs) = some (body ++ ['*', '/'], cs) := by
  induction body with
  | nil => rfl
  | cons c body ih =>
    have hbody := ih fun hin => h (List.infix_cons hin)
    rw [List.cons_append, Trivia.splitBlockEnd, hbody]
    · rfl
    · rintro ds rfl hds
      cases body with
      | nil => cases hds
      | cons d body =>
        cases hds
        exact h ⟨[], body, rfl⟩

theorem takeWhile_lineEnd {body cs : List Char} (hbody : ∀ d ∈ body, isLineEnd d = false) {c : Char}
    (hc : isLineEnd c = true) :
    (body ++ c :: cs).takeWhile (!isLineEnd ·) = body ∧
      (body ++ c :: cs).dropWhile (!isLineEnd ·) = c :: cs := by
  have hall : ∀ d ∈ body, (!isLineEnd d) = true := fun d hd => by simp [hbody d hd]
  rw [List.takeWhile_append_of_pos hall, List.dropWhile_append_of_pos hall]
  simp [hc]

theorem comment?_block {body : List Char} (h : ¬ ['*', '/'] <:+: body) (rest : List Char) :
    comment? ('/' :: '*' :: body ++ '*' :: '/' :: rest) =
      some ('/' :: '*' :: body ++ ['*', '/'], rest) := by
  simp [comment?, splitBlockEnd_append h]

theorem comment?_line {body : List Char} (hbody : ∀ d ∈ body, isLineEnd d = false) {c : Char}
    (hc : isLineEnd c = true) (rest : List Char) :
    comment? ('/' :: '/' :: body ++ c :: rest) = some ('/' :: '/' :: body, c :: rest) := by
  obtain ⟨htake, hdrop⟩ := @takeWhile_lineEnd _ rest hbody _ hc
  simp only [comment?, List.cons_append, htake, hdrop]

theorem comment?_last {body : List Char} (hbody : ∀ d ∈ body, isLineEnd d = false) :
    comment? ('/' :: '/' :: body) = some ('/' :: '/' :: body, []) := by
  have hall : ∀ d ∈ body, (!isLineEnd d) = true := fun d hd => by simp [hbody d hd]
  rw [comment?, List.takeWhile_eq_self_iff.mpr hall, List.dropWhile_eq_nil_iff.mpr hall]

/-- A comment starts with no white space. -/
theorem isSpace_of_comment? {c : Char} {cs text rest : List Char}
    (h : comment? (c :: cs) = some (text, rest)) : isSpace c = false := by
  unfold comment? at h
  split at h
  · rename_i heq
    cases heq
    rfl
  · rename_i heq
    cases heq
    rfl
  · cases h

/-! ## Skipping -/

theorem skip_space {c : Char} (hc : isSpace c = true) (cs : List Char) :
    skip (c :: cs) = (c :: (skip cs).1, (skip cs).2) := by
  rw [skip]
  simp [hc]

theorem skip_comment {cs text rest : List Char} (h : comment? cs = some (text, rest)) :
    skip cs = (text ++ (skip rest).1, (skip rest).2) := by
  cases cs with
  | nil => cases h
  | cons c cs =>
    have hc := isSpace_of_comment? h
    rw [skip]
    simp only [hc, Bool.false_eq_true, ↓reduceIte]
    split
    · rename_i text' rest' h'
      rw [h] at h'
      cases h'
      rfl
    · rename_i h'
      rw [h] at h'
      cases h'

/-- A gap is skipped as a whole. -/
theorem skip_append_of_isGap {gap : List Char} (h : IsGap false gap) (cs : List Char) :
    skip (gap ++ cs) = (gap ++ (skip cs).1, (skip cs).2) := by
  induction h with
  | nil => rfl
  | space hc _ ih => simp only [List.cons_append, skip_space hc, ih]
  | @blockComment body gap hbody _ ih =>
    have hskip := skip_comment (comment?_block hbody (gap ++ cs))
    rw [ih] at hskip
    simpa using hskip
  | @lineComment body gap c hbody hc _ ih =>
    have hskip := skip_comment (comment?_line hbody hc (gap ++ cs))
    rw [skip_space (isSpace_of_isLineEnd hc), ih] at hskip
    simpa using hskip
  | lastComment hfinal _ => cases hfinal

/-- The text behind a line comment is empty or starts with a line break. -/
theorem lineEnd_of_dropWhile {cs ds : List Char} {c : Char}
    (h : cs.dropWhile (!isLineEnd ·) = c :: ds) : isLineEnd c = true := by
  have := List.head?_dropWhile_not (!isLineEnd ·) cs
  simpa [h] using this

/-- What is skipped is a gap. Only at the end of the text can it end with a line comment. -/
theorem isGap_skip (cs : List Char) : IsGap (skip cs).2.isEmpty (skip cs).1 := by
  fun_induction skip cs with
  | case1 => exact IsGap.nil
  | case2 c cs hc blank rest hs ih =>
    rw [hs] at ih
    exact IsGap.space hc ih
  | case3 c cs hc text rest h blank rest' hs ih =>
    rw [hs] at ih
    change IsGap rest'.isEmpty (text ++ blank)
    unfold comment? at h
    split at h
    · rename_i ds hds
      cases h
      have hbody : ∀ d ∈ ds.takeWhile (!isLineEnd ·), isLineEnd d = false := by
        intro d hd
        simpa using List.all_eq_true.mp List.all_takeWhile d hd
      cases hr : ds.dropWhile (!isLineEnd ·) with
      | nil =>
        rw [hr] at hs
        have hnil : skip [] = ([], []) := by rw [skip]
        rw [hnil] at hs
        cases hs
        rw [List.append_nil]
        exact IsGap.lastComment rfl hbody
      | cons d rs =>
        have hd := lineEnd_of_dropWhile hr
        rw [hr, skip_space (isSpace_of_isLineEnd hd)] at hs
        cases hs
        exact IsGap.lineComment hbody hd (ih.tail hd)
    · obtain ⟨⟨b, r⟩, hb, heq⟩ := Option.map_eq_some_iff.mp h
      cases heq
      obtain ⟨body, rfl, hbody⟩ := body_of_splitBlockEnd hb
      simpa using IsGap.blockComment hbody ih
    · cases h
  | case4 => exact IsGap.nil

/-- The text behind what is skipped starts with no white space and no comment. -/
theorem skip_skip (cs : List Char) : skip (skip cs).2 = ([], (skip cs).2) := by
  fun_induction skip cs with
  | case1 => rw [skip]
  | case2 c cs hc blank rest hs ih => rwa [hs] at ih
  | case3 c cs hc text rest h blank rest' hs ih => rwa [hs] at ih
  | case4 c cs hc h =>
    rw [skip]
    simp only [hc, Bool.false_eq_true, ↓reduceIte]
    split
    · rename_i h'
      rw [h] at h'
      cases h'
    · rfl

end LosslessJava.Lex
