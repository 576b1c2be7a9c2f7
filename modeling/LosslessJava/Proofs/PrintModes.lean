import LosslessJava.Proofs.Print.Render

/-!
# The two modes of a print

Both modes print the same steps, and a trimmed print is what is left of the verbatim one when its
ends are taken off.

* `Step.leadText`, `Step.bodyText`: the text of steps in front of their first token and from there
  on.
* `Printer.out_foldl_trimmed`: a trimmed print writes the text from the first token on.
* `Printer.beforeTerminator_foldl`: what a run without terminators leaves of the last one.
* `Step.render_verbatim_trimmed`: the two prints of any steps whose tokens are not empty.
-/

namespace LosslessJava

namespace Step

/-! ## The text around the first token -/

def isTrivia : Step → Bool
  | trivia _ => true
  | _ => false

/-- All trivia in front of the first token. The semicolon of a terminator is a token. -/
def leadText : List Step → List Char
  | [] => []
  | .trivia t :: ss => t.toList ++ leadText ss
  | .token _ :: _ => []
  | .terminator t :: _ => t.toList

/-- The text from the first token on. -/
def bodyText : List Step → List Char
  | [] => []
  | .trivia _ :: ss => bodyText ss
  | .token s :: ss => s.toList ++ text ss
  | .terminator _ :: ss => ';' :: text ss

theorem leadText_append_bodyText (ss : List Step) : leadText ss ++ bodyText ss = text ss := by
  induction ss with
  | nil => rfl
  | cons s ss ih =>
    cases s with
    | trivia t => rw [leadText, bodyText, List.append_assoc, ih, text_cons, chars]
    | token s => rw [leadText, bodyText, List.nil_append, text_cons, chars]
    | terminator t =>
      rw [leadText, bodyText, text_cons, chars, List.append_assoc, List.singleton_append]

/-- What a terminator behind `front` adds to the text from the first token on: its semicolon, and
its trivia unless they stand in front of the first token. -/
def endText (front : List Step) (t : Trivia) : List Char :=
  (if front.all isTrivia then [] else t.toList) ++ [';']

theorem bodyText_terminator (front : List Step) (t : Trivia) (after : List Step) :
    bodyText (front ++ .terminator t :: after) =
      bodyText front ++ endText front t ++ text after := by
  induction front with
  | nil => simp [bodyText, endText]
  | cons s front ih =>
    cases s with
    | trivia u => simpa [bodyText, endText, isTrivia] using ih
    | token s => simp [bodyText, endText, isTrivia, chars]
    | terminator u => simp [bodyText, endText, isTrivia, chars]

end Step

namespace Printer

open Step

/-! ## The run of a trimmed print -/

/-- A printer has written something behind a terminator, its semicolon at least. -/
theorem writes_terminator (p : Printer) (t : Trivia) : (p.step (.terminator t)).Writes := by
  refine Or.inr fun hempty => ?_
  have hout := (out_write (p.writeTrivia t) ";").2
  rw [step, endTerminator] at hempty
  rw [hempty] at hout
  simp at hout

theorem out_foldl_trimmed {ss : List Step} (h : ∀ s, .token s ∈ ss → s ≠ "") :
    (ss.foldl step (new .trimmed)).out.toList = bodyText ss := by
  induction ss with
  | nil => rfl
  | cons s ss ih =>
    rw [List.foldl_cons]
    cases s with
    | trivia t => exact ih fun s hs => h s (List.mem_cons_of_mem _ hs)
    | token s =>
      have hs : s ≠ "" := h s List.mem_cons_self
      obtain ⟨hout, hwrites⟩ := out_new_token hs
      rw [(out_foldl hwrites ss).2, hout, bodyText]
    | terminator t =>
      have hout : ((new .trimmed).step (.terminator t)).out = ";" := rfl
      rw [(out_foldl (writes_terminator _ t) ss).2, hout, bodyText]
      rfl

/-! ## What is remembered of the last terminator -/

theorem beforeTerminator_foldl {p : Printer} (hp : p.Writes) {ss : List Step}
    (hss : ∀ t, .terminator t ∉ ss) :
    (ss.foldl step p).beforeTerminator = if text ss = [] then p.beforeTerminator else none := by
  induction ss generalizing p with
  | nil => rfl
  | cons s ss ih =>
    obtain ⟨hmode, hout⟩ := out_step hp s
    have hs : ∀ t, s ≠ .terminator t := fun t ht => hss t (ht ▸ List.mem_cons_self)
    rw [List.foldl_cons, ih (writes_of_out hp hmode hout) fun t ht =>
      hss t (List.mem_cons_of_mem _ ht), beforeTerminator_step hp hs]
    by_cases hchars : s.chars = [] <;> by_cases htext : text ss = [] <;> simp [hchars, htext]

/-- The last terminator of a run. -/
theorem beforeTerminator_foldl_terminator (p : Printer) (t : Trivia) {after : List Step}
    (hlast : ∀ u, .terminator u ∉ after) :
    ((Step.terminator t :: after).foldl step p).beforeTerminator =
      if text after = [] then some p.out else none := by
  rw [List.foldl_cons, beforeTerminator_foldl (p.writes_terminator t) hlast,
    beforeTerminator_terminator]

/-- Without terminators nothing is remembered. -/
theorem beforeTerminator_foldl_eq_none {p : Printer} (hp : p.beforeTerminator = none)
    {ss : List Step} (hss : ∀ t, .terminator t ∉ ss) :
    (ss.foldl step p).beforeTerminator = none := by
  induction ss generalizing p with
  | nil => exact hp
  | cons s ss ih =>
    refine ih ?_ fun t ht => hss t (List.mem_cons_of_mem _ ht)
    have hwrite : ∀ text, (p.write text).beforeTerminator = none := by
      intro text
      rw [beforeTerminator_write, hp, ite_self]
    cases s with
    | trivia t =>
      rw [step, writeTrivia]
      split
      · exact hp
      · exact hwrite t.text
    | token s => exact hwrite s
    | terminator t => exact absurd List.mem_cons_self (hss t)

end Printer

namespace Step

open Printer

theorem render_trimmed (ss : List Step) :
    render .trimmed ss = String.ofList (dropTrailingBlanks
      (((ss.foldl step (new .trimmed)).beforeTerminator).getD
        (ss.foldl step (new .trimmed)).out).toList) :=
  finish_of_trimmed (mode_foldl (new .trimmed) ss)

/-- A verbatim print of steps is the text of all of them. A trimmed print takes three things off
this text, one after the other: all trivia in front of the first token, the text of the last
terminator if only empty texts were written behind it, and the white space at the end. A spaced
token counts as two steps, its trivia and the token. -/
theorem render_verbatim_trimmed {ss : List Step} (h : ∀ s, .token s ∈ ss → s ≠ "") :
    render .verbatim ss = String.ofList (text ss) ∧
    text ss = leadText ss ++ bodyText ss ∧
    ((∀ t, .terminator t ∉ ss) →
      render .trimmed ss = String.ofList (dropTrailingBlanks (bodyText ss))) ∧
    ∀ front t after, ss = front ++ .terminator t :: after → (∀ u, .terminator u ∉ after) →
      bodyText ss = bodyText front ++ endText front t ++ text after ∧
      render .trimmed ss = String.ofList (dropTrailingBlanks
        (if text after = [] then bodyText front else bodyText ss)) := by
  refine ⟨render_verbatim ss, (leadText_append_bodyText ss).symm, fun hno => ?_, ?_⟩
  · rw [render_trimmed, beforeTerminator_foldl_eq_none rfl hno, Option.getD_none,
      out_foldl_trimmed h]
  · rintro front t after rfl hlast
    refine ⟨bodyText_terminator front t after, ?_⟩
    have hfront : ∀ s, .token s ∈ front → s ≠ "" := fun s hs =>
      h s (List.mem_append_left _ hs)
    have hbefore := beforeTerminator_foldl_terminator (front.foldl step (new .trimmed)) t hlast
    rw [← List.foldl_append] at hbefore
    rw [render_trimmed, hbefore]
    split
    · rw [Option.getD_some, out_foldl_trimmed hfront]
    · rw [Option.getD_none, out_foldl_trimmed h]

/-- The trivia of the first terminator are in front of the first token, its semicolon is that token.
The last terminator is left out, but not with a space behind it. -/
theorem render_verbatim_trimmed_terminators :
    let front := [.trivia ⟨"// c\n"⟩, .terminator ⟨"\t"⟩] ++ spaced .space "a"
    let steps (after : Trivia) := front ++ [.terminator ⟨"\n"⟩, .trivia after]
    (∀ after s, .token s ∈ steps after → s ≠ "") ∧
      render .verbatim (steps .empty) = "// c\n\t; a\n;" ∧
      leadText (steps .empty) = "// c\n\t".toList ∧
      render .trimmed (steps .empty) = "; a" ∧
      render .trimmed (steps .space) = "; a\n;" := by
  intro front steps
  have h : ∀ after s, .token s ∈ steps after → s ≠ "" := by
    intro after s hs
    obtain rfl : s = "a" := by simpa [steps, front, spaced] using hs
    decide
  have hlast : ∀ (after u : Trivia), Step.terminator u ∉ [Step.trivia after] := by simp
  obtain ⟨hverbatim, -, -, hempty⟩ := render_verbatim_trimmed (h .empty)
  obtain ⟨-, -, -, hspace⟩ := render_verbatim_trimmed (h .space)
  refine ⟨h, hverbatim.trans (by decide), by decide, ?_, ?_⟩
  · exact (hempty front ⟨"\n"⟩ [.trivia .empty] rfl (hlast .empty)).2.trans (by decide)
  · exact (hspace front ⟨"\n"⟩ [.trivia .space] rfl (hlast .space)).2.trans (by decide)

end Step

end LosslessJava
