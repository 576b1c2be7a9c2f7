import LosslessJava.Print.Step
import LosslessJava.Proofs.Text.Blank
import LosslessJava.Proofs.Text.Bytes

/-!
# The two prints of a list of steps

* `Step.render_verbatim`: a verbatim print writes every step.
* `Printer.beforeTerminator_terminator`, `Printer.beforeTerminator_step`: the range of a terminator
  is that of the end of the text until something is written behind it.
* `Step.render_trimmed_token`: a trimmed print of steps that end with a token writes everything
  from the first token on, without the white space at the end.
* `Step.render_trimmed_terminator`: where the steps end with a terminator, that is left out as well.
* `Printer.AtToken`: a trimmed print stands behind a token. `AtToken.finish_trivia`,
  `AtToken.finish_terminator` and `AtToken.finish_terminator_trivia` say what is left of white
  space, of a terminator, and of a terminator with white space behind it.

Both prints run through the same states as soon as something has been written. So the argument is
about one printer, which either is verbatim or has written something (`Printer.Writes`).
-/

namespace LosslessJava

namespace Step

/-- The characters of a step in a verbatim print. -/
def chars : Step → List Char
  | trivia t => t.toList
  | token s => s.toList
  | terminator t => t.toList ++ [';']

/-- The characters of a list of steps in a verbatim print. -/
def text (steps : List Step) : List Char := steps.flatMap chars

@[simp] theorem text_nil : text [] = [] := rfl

@[simp] theorem text_cons (s : Step) (ss : List Step) : text (s :: ss) = s.chars ++ text ss := rfl

@[simp] theorem text_append (ss ts : List Step) : text (ss ++ ts) = text ss ++ text ts :=
  List.flatMap_append

theorem text_spaced (t : Trivia) (s : String) : text (spaced t s) = t.toList ++ s.toList := by
  simp [spaced, chars]

end Step

namespace Printer

open Step

/-- The printer leaves out no trivia. -/
def Writes (p : Printer) : Prop := p.mode = .verbatim ∨ p.out ≠ ""

theorem out_write (p : Printer) (s : String) :
    (p.write s).mode = p.mode ∧ (p.write s).out.toList = p.out.toList ++ s.toList :=
  ⟨rfl, String.toList_append⟩

theorem writeTrivia_of_writes {p : Printer} (hp : p.Writes) (t : Trivia) :
    p.writeTrivia t = p.write t.text := by
  unfold writeTrivia
  rw [if_neg]
  rintro ⟨hm, he⟩
  rcases hp with h | h
  · rw [h] at hm
    cases hm
  · exact h (String.isEmpty_iff.mp he)

theorem writes_of_out {p q : Printer} (hp : p.Writes) (hm : q.mode = p.mode) {cs : List Char}
    (ho : q.out.toList = p.out.toList ++ cs) : q.Writes := by
  rcases hp with h | h
  · exact Or.inl (hm.trans h)
  · refine Or.inr fun hq => h ?_
    rw [hq] at ho
    have : p.out.toList = [] := (List.append_eq_nil_iff.mp ho.symm).1
    exact String.toList_eq_nil_iff.mp this

/-- One step of a printer that leaves out no trivia. -/
theorem out_step {p : Printer} (hp : p.Writes) (s : Step) :
    (p.step s).mode = p.mode ∧ (p.step s).out.toList = p.out.toList ++ s.chars := by
  cases s with
  | trivia t =>
    simp only [step, writeTrivia_of_writes hp]
    exact out_write p t.text
  | token s => exact out_write p s
  | terminator t =>
    simp only [step, writeTrivia_of_writes hp]
    obtain ⟨hm, ho⟩ := out_write p t.text
    obtain ⟨hm', ho'⟩ := out_write (p.write t.text) ";"
    exact ⟨hm'.trans hm, by simp [endTerminator, ho', ho, chars, Trivia.toList]⟩

/-- A run of a printer that leaves out no trivia. -/
theorem out_foldl {p : Printer} (hp : p.Writes) (steps : List Step) :
    (steps.foldl step p).mode = p.mode ∧
      (steps.foldl step p).out.toList = p.out.toList ++ text steps := by
  induction steps generalizing p with
  | nil => simp
  | cons s ss ih =>
    obtain ⟨hm, ho⟩ := out_step hp s
    obtain ⟨hm', ho'⟩ := ih (writes_of_out hp hm ho)
    exact ⟨hm'.trans hm, by simp [ho', ho]⟩

/-- A trimmed print passes over the trivia in front of its first token. -/
theorem foldl_gaps {gaps : List Step} (h : ∀ s ∈ gaps, ∃ t, s = .trivia t) :
    gaps.foldl step (new .trimmed) = new .trimmed := by
  induction gaps with
  | nil => rfl
  | cons s ss ih =>
    obtain ⟨t, rfl⟩ := h s List.mem_cons_self
    rw [List.foldl_cons]
    exact ih fun s hs => h s (List.mem_cons_of_mem _ hs)

/-- The first token of a trimmed print. -/
theorem out_new_token {s : String} (hs : s ≠ "") :
    ((new .trimmed).step (.token s)).out = s ∧ ((new .trimmed).step (.token s)).Writes := by
  have hout : ((new .trimmed).step (.token s)).out = s := String.empty_append
  exact ⟨hout, .inr (hout ▸ hs)⟩

/-- The state of a trimmed print behind its first token and some more steps. -/
theorem foldl_trimmed {gaps : List Step} (h : ∀ s ∈ gaps, ∃ t, s = .trivia t) {s : String}
    (hs : s ≠ "") (ss : List Step) :
    let p := (gaps ++ .token s :: ss).foldl step (new .trimmed)
    p.mode = .trimmed ∧ p.out.toList = text (.token s :: ss) := by
  simp only [List.foldl_append, List.foldl_cons, foldl_gaps h]
  obtain ⟨hout, hwrites⟩ := out_new_token hs
  obtain ⟨hmode, htext⟩ := out_foldl hwrites ss
  rw [hout] at htext
  exact ⟨hmode, htext⟩

/-! ## What is remembered of the last terminator -/

theorem write_empty (p : Printer) : p.write "" = p := by
  simp [write]

/-- The text only grows, so that no range reaches its end again. -/
theorem beforeTerminator_write (p : Printer) (s : String) :
    (p.write s).beforeTerminator = if s.toList = [] then p.beforeTerminator else none := by
  split
  · rename_i h
    rw [String.toList_eq_nil_iff.mp h, write_empty]
  · rename_i h
    have hsize : s.utf8ByteSize ≠ 0 := fun hzero =>
      h (String.toList_eq_nil_iff.mpr (String.utf8ByteSize_eq_zero_iff.mp hzero))
    rw [beforeTerminator]
    split
    · rename_i start stop hrange
      have hstop := p.stop_le _ hrange
      rw [if_neg]
      simp only [write, String.utf8ByteSize_append]
      omega
    · rfl

theorem beforeTerminator_token (p : Printer) {s : String} (hs : s ≠ "") :
    (p.step (.token s)).beforeTerminator = none := by
  rw [step, beforeTerminator_write, if_neg (mt String.toList_eq_nil_iff.mp hs)]

theorem exists_out_writeTrivia (p : Printer) (t : Trivia) :
    ∃ cs, (p.writeTrivia t).out.toList = p.out.toList ++ cs := by
  rw [writeTrivia]
  split
  · exact ⟨[], (List.append_nil _).symm⟩
  · exact ⟨_, (out_write p t.text).2⟩

/-- The range of a terminator starts where the text ended before it. -/
theorem beforeTerminator_terminator (p : Printer) (t : Trivia) :
    (p.step (.terminator t)).beforeTerminator = some p.out := by
  obtain ⟨cs, hcs⟩ := p.exists_out_writeTrivia t
  have hout : ((p.writeTrivia t).write ";").out.toList = p.out.toList ++ (cs ++ [';']) := by
    rw [(out_write _ _).2, hcs, List.append_assoc]
    rfl
  rw [step, beforeTerminator]
  simp only [endTerminator, if_true, hout]
  rw [← byteLength_toList, takeBytes_append, String.ofList_toList]

/-- Anything that is written behind a terminator ends its claim. -/
theorem beforeTerminator_step {p : Printer} (hp : p.Writes) {s : Step}
    (hs : ∀ t, s ≠ .terminator t) :
    (p.step s).beforeTerminator = if s.chars = [] then p.beforeTerminator else none := by
  cases s with
  | trivia t =>
    rw [step, writeTrivia_of_writes hp, beforeTerminator_write]
    rfl
  | token s => rw [step, beforeTerminator_write, chars]
  | terminator t => exact absurd rfl (hs t)

/-! ## What stands behind the last token -/

theorem mode_writeTrivia (p : Printer) (t : Trivia) : (p.writeTrivia t).mode = p.mode := by
  rw [writeTrivia]
  split
  · rfl
  · exact (out_write p t.text).1

theorem mode_foldl (p : Printer) (ss : List Step) : (ss.foldl step p).mode = p.mode := by
  induction ss generalizing p with
  | nil => rfl
  | cons s ss ih =>
    refine (ih (p.step s)).trans ?_
    cases s with
    | trivia t => exact mode_writeTrivia p t
    | token s => exact (out_write p s).1
    | terminator t => exact (out_write (p.writeTrivia t) ";").1.trans (mode_writeTrivia p t)

/-- Empty trivia are not seen. -/
theorem step_empty (p : Printer) : p.step (.trivia .empty) = p := by
  rw [step, writeTrivia]
  split
  · rfl
  · exact p.write_empty

theorem finish_of_trimmed {p : Printer} (h : p.mode = .trimmed) :
    p.finish = String.ofList (dropTrailingBlanks (p.beforeTerminator.getD p.out).toList) := by
  rw [finish, h]

/-- A trimmed print stands behind a token that ends with neither white space nor a semicolon. -/
structure AtToken (p : Printer) : Prop where
  mode : p.mode = .trimmed
  last : ∃ cs c, p.out.toList = cs ++ [c] ∧ isBlank c = false ∧ c ≠ ';'
  beforeTerminator : p.beforeTerminator = none

namespace AtToken

variable {p : Printer} {w : Trivia}

theorem foldl_token (ss : List Step) {s : String}
    (hs : ∃ cs c, s.toList = cs ++ [c] ∧ isBlank c = false ∧ c ≠ ';') :
    AtToken ((ss ++ [Step.token s]).foldl step (new .trimmed)) := by
  obtain ⟨cs, c, hs, hc⟩ := hs
  have hne : s ≠ "" := by
    rw [ne_eq, ← String.toList_eq_nil_iff, hs]
    exact List.append_ne_nil_of_right_ne_nil cs (List.cons_ne_nil c [])
  have hmode := mode_foldl (new .trimmed) ss
  rw [List.foldl_append, List.foldl_cons, List.foldl_nil]
  generalize ss.foldl step (new .trimmed) = q at hmode
  constructor
  · exact (out_write q s).1.trans hmode
  · exact ⟨q.out.toList ++ cs, c, by rw [step, (out_write q s).2, hs, List.append_assoc], hc⟩
  · exact beforeTerminator_token q hne

theorem writes (h : p.AtToken) : p.Writes := by
  refine .inr fun hempty => ?_
  obtain ⟨cs, c, heq, -⟩ := h.last
  rw [hempty] at heq
  exact List.append_ne_nil_of_right_ne_nil cs (List.cons_ne_nil c []) heq.symm

theorem not_semicolon (h : p.AtToken) (ds : List Char) : p.out.toList ≠ ds ++ [';'] := by
  obtain ⟨cs, c, heq, -, hc⟩ := h.last
  exact fun hsemicolon => hc (List.append_singleton_inj.mp (heq.symm.trans hsemicolon)).2

theorem ofList_out (h : p.AtToken) :
    String.ofList (dropTrailingBlanks p.out.toList) = p.out := by
  obtain ⟨cs, c, heq, hc, -⟩ := h.last
  rw [heq, dropTrailingBlanks_of_last hc, ← heq, String.ofList_toList]

/-- White space behind a token is left out. -/
theorem finish_trivia (h : p.AtToken) (hw : ∀ c ∈ w.toList, isBlank c = true) :
    (p.step (.trivia w)).finish = p.out := by
  obtain ⟨hmode, hout⟩ := out_step h.writes (.trivia w)
  have hbefore : (p.step (.trivia w)).beforeTerminator = none := by
    rw [beforeTerminator_step h.writes (by simp), h.beforeTerminator, ite_self]
  rw [finish_of_trimmed (hmode.trans h.mode), hbefore, Option.getD_none, hout, Step.chars,
    dropTrailingBlanks_append hw, h.ofList_out]

/-- A terminator behind a token is left out. -/
theorem finish_terminator (h : p.AtToken) (t : Trivia) :
    (p.step (.terminator t)).finish = p.out := by
  have hmode := (out_step h.writes (.terminator t)).1.trans h.mode
  rw [finish_of_trimmed hmode, beforeTerminator_terminator, Option.getD_some, h.ofList_out]

/-- A terminator with white space behind it is kept, and only the white space is left out. -/
theorem finish_terminator_trivia (h : p.AtToken) (t : Trivia)
    (hw : ∀ c ∈ w.toList, isBlank c = true) (hne : w ≠ .empty) :
    ((p.step (.terminator t)).step (.trivia w)).finish = p.out ++ t.text ++ ";" := by
  obtain ⟨hmode, hout⟩ := out_step h.writes (.terminator t)
  have hwrites := writes_of_out h.writes hmode hout
  generalize p.step (.terminator t) = q at hmode hout hwrites
  obtain ⟨hmode', hout'⟩ := out_step hwrites (.trivia w)
  have hbefore : (q.step (.trivia w)).beforeTerminator = none := by
    have hchars : (Step.trivia w).chars ≠ [] := fun hchars =>
      hne (congrArg Trivia.mk (String.toList_eq_nil_iff.mp hchars))
    rw [beforeTerminator_step hwrites (by simp), if_neg hchars]
  -- The semicolon is the last character that is no white space.
  rw [finish_of_trimmed (hmode'.trans (hmode.trans h.mode)), hbefore, Option.getD_none, hout',
    Step.chars, dropTrailingBlanks_append hw, hout, Step.chars, ← List.append_assoc,
    dropTrailingBlanks_of_last rfl]
  simp [String.ofList_append, Trivia.toList, String.append_assoc]

end AtToken

end Printer

namespace Step

open Printer

theorem render_verbatim (steps : List Step) :
    render .verbatim steps = String.ofList (text steps) := by
  obtain ⟨hm, ho⟩ := out_foldl (p := new .verbatim) (Or.inl rfl) steps
  have hout : (new .verbatim).out.toList = [] := rfl
  rw [hout, List.nil_append] at ho
  have hmode : (steps.foldl step (new .verbatim)).mode = .verbatim := hm
  rw [render, finish, hmode, ← ho, String.ofList_toList]

/-- The trimmed print of steps whose last one is a token. -/
theorem render_trimmed_token {gaps ss rest : List Step} (h : ∀ s ∈ gaps, ∃ t, s = .trivia t)
    {s last : String} (hs : s ≠ "") (hl : last ≠ "")
    (hss : .token s :: ss = rest ++ [.token last]) :
    render .trimmed (gaps ++ .token s :: ss) =
      String.ofList (dropTrailingBlanks (text (.token s :: ss))) := by
  obtain ⟨hm, ho⟩ := foldl_trimmed h hs ss
  have hb : ((gaps ++ .token s :: ss).foldl step (new .trimmed)).beforeTerminator = none := by
    rw [hss, ← List.append_assoc, List.foldl_append]
    exact beforeTerminator_token _ hl
  rw [render, finish, hm, hb]
  simp only [Option.getD_none, ho]

/-- The trimmed print of steps whose last one is a terminator. -/
theorem render_trimmed_terminator {gaps ss : List Step} (h : ∀ s ∈ gaps, ∃ t, s = .trivia t)
    {s : String} (hs : s ≠ "") (t : Trivia) :
    render .trimmed (gaps ++ .token s :: ss ++ [.terminator t]) =
      String.ofList (dropTrailingBlanks (text (.token s :: ss))) := by
  obtain ⟨hm, ho⟩ := foldl_trimmed h hs ss
  rw [render, List.foldl_append]
  generalize hp : (gaps ++ .token s :: ss).foldl step (new .trimmed) = p at hm ho ⊢
  have hw : p.Writes := by
    refine Or.inr fun he => hs ?_
    rw [he] at ho
    have : s.toList = [] := (List.append_eq_nil_iff.mp ho.symm).1
    exact String.toList_eq_nil_iff.mp this
  have hmode : ([Step.terminator t].foldl step p).mode = .trimmed := (out_foldl hw _).1.trans hm
  have hb : ([Step.terminator t].foldl step p).beforeTerminator = some p.out :=
    p.beforeTerminator_terminator t
  rw [finish, hmode, hb]
  simp only [Option.getD_some, ho]

/-- A lone terminator leaves nothing of a trimmed print. -/
theorem render_trimmed_lone (t : Trivia) : render .trimmed [.terminator t] = "" := by
  have hmode : ((new .trimmed).step (.terminator t)).mode = .trimmed := rfl
  rw [render, List.foldl_cons, List.foldl_nil, finish_of_trimmed hmode,
    beforeTerminator_terminator]
  rfl

end Step

end LosslessJava
