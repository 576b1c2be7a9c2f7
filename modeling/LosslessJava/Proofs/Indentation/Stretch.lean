import LosslessJava.Proofs.Indentation.Leads
import LosslessJava.Proofs.Indentation.Margin
import LosslessJava.Proofs.Trimming

/-!
# Shifted texts of statements

What a statement prints as is its leads, each with the text up to the next one. A shift changes the
leads and leaves the rest alone.

* `Statement.spreads`: the text of a tidy statement and of all its shifts, in stretches.
* `shifted_textOf`: where no stretch has a line break behind its lead, the shift of the text as a
  whole is the text of the shifted leads.
* `length_shifted_right`: a shift to the right makes every line but the first one longer.
-/

namespace LosslessJava

/-- A lead and the text up to the next one. -/
structure Stretch where
  lead : Trivia
  body : List Char

namespace Stretch

def chars (p : Stretch) : List Char := p.lead.toList ++ p.body

def textOf (ps : List Stretch) : List Char := ps.flatMap chars

/-- The stretch with its lead shifted. -/
def shift (s : Shift) (p : Stretch) : Stretch := { p with lead := s.apply p.lead }

/-- The text behind the lead starts with a character that is no blank. -/
def Firm (p : Stretch) : Prop := ∃ c cs, p.body = c :: cs ∧ Trivia.isIndent c = false

@[simp] theorem textOf_nil : textOf [] = [] := rfl

@[simp] theorem textOf_cons (p : Stretch) (ps : List Stretch) :
    textOf (p :: ps) = p.lead.toList ++ (p.body ++ textOf ps) := by
  simp [textOf, chars]

@[simp] theorem textOf_append (ps qs : List Stretch) : textOf (ps ++ qs) = textOf ps ++ textOf qs :=
  List.flatMap_append

/-! ## Shifts of texts -/

variable {ps : List Stretch} (s : Shift)

/-- The lines of a text that all start in leads are shifted with them. -/
theorem shifted_textOf (hfirm : ∀ p ∈ ps, p.Firm) (hbreak : ∀ p ∈ ps, '\n' ∉ p.body) :
    s.shifted (textOf ps) = textOf (ps.map (shift s)) := by
  induction ps with
  | nil => rfl
  | cons p ps ih =>
    obtain ⟨⟨c, cs, hbody, hc⟩, hfirm⟩ := List.forall_mem_cons.mp hfirm
    obtain ⟨hline, hbreak⟩ := List.forall_mem_cons.mp hbreak
    have hline : ∀ d ∈ p.body, d ≠ '\n' := fun d hd heq => hline (heq ▸ hd)
    have hfront : s.shifted (p.lead.toList ++ (p.body ++ textOf ps)) =
        s.shifted p.lead.toList ++ s.shifted (p.body ++ textOf ps) := by
      rw [hbody, List.cons_append, Shift.shifted_append s hc]
    rw [textOf_cons, hfront, s.shifted_append_line hline, ih hfirm hbreak, ← s.toList_apply]
    simp [shift]

theorem count_textOf (ps : List Stretch) :
    (textOf ps).count '\n' = (ps.flatMap (·.lead.toList)).count '\n' +
      (ps.flatMap body).count '\n' := by
  induction ps with
  | nil => rfl
  | cons p ps ih =>
    simp only [textOf_cons, List.flatMap_cons, List.count_append, ih]
    omega

theorem not_mem_body_iff : (∀ p ∈ ps, '\n' ∉ p.body) ↔
    (textOf ps).count '\n' = (ps.flatMap (·.lead.toList)).count '\n' := by
  have hcount : (ps.flatMap body).count '\n' = 0 ↔ ∀ p ∈ ps, '\n' ∉ p.body := by
    simp [List.count_eq_zero]
  rw [← hcount, count_textOf]
  omega

end Stretch

namespace Shift

/-- A shift to the right makes every line but the first one longer by its amount. -/
theorem length_shifted_right {s : Shift} (h : 0 ≤ s.amount) (cs : List Char) :
    (s.shifted cs).length = cs.length + s.amount.toNat * cs.count '\n' := by
  have hlost : ∀ ds, s.lost ds = 0 := by
    intro ds
    rw [lost, show (-s.amount).toNat = 0 by omega]
    rfl
  induction cs with
  | nil => rfl
  | cons c cs ih =>
    by_cases hc : c = '\n'
    · rw [hc, shifted_lineBreak, hlost, List.drop_zero, List.count_cons_self, Nat.mul_succ]
      simp only [List.length_cons, List.length_append, pad, List.length_replicate, ih]
      omega
    · rw [shifted_cons s hc, List.count_cons_of_ne hc, List.length_cons, List.length_cons, ih]
      omega

end Shift

/-! ## Stretches of statements -/

/-- The first text and the one of every shift consist of the leads with the same texts behind
them. -/
def Spreads (leads : List Trivia) (steps : List Step) (shifted : Shift → List Step) : Prop :=
  ∃ ps : List Stretch, ps.map Stretch.lead = leads ∧ (∀ p ∈ ps, p.Firm) ∧
    Step.text steps = Stretch.textOf ps ∧
      ∀ s, Step.text (shifted s) = Stretch.textOf (ps.map (Stretch.shift s))

namespace Spreads

variable {leads leads' : List Trivia} {steps steps' : List Step}
  {shifted shifted' : Shift → List Step}

theorem nil : Spreads [] [] fun _ => [] :=
  ⟨[], rfl, by simp, rfl, fun _ => rfl⟩

theorem append (h : Spreads leads steps shifted) (h' : Spreads leads' steps' shifted') :
    Spreads (leads ++ leads') (steps ++ steps') fun s => shifted s ++ shifted' s := by
  obtain ⟨ps, rfl, hfirm, htext, hshifted⟩ := h
  obtain ⟨qs, rfl, hfirm', htext', hshifted'⟩ := h'
  refine ⟨ps ++ qs, List.map_append, ?_, by simp [htext, htext'], fun s => ?_⟩
  · intro p hp
    exact (List.mem_append.mp hp).elim (hfirm p) (hfirm' p)
  · simp [hshifted s, hshifted' s]

/-- A single lead. -/
theorem single {t : Trivia} {c : Char} {cs : List Char} (hc : Trivia.isIndent c = false)
    (hsteps : Step.text steps = t.toList ++ c :: cs)
    (hshifted : ∀ s, Step.text (shifted s) = (s.apply t).toList ++ c :: cs) :
    Spreads [t] steps shifted := by
  refine ⟨[⟨t, c :: cs⟩], rfl, ?_, by simp [hsteps], fun s => by simp [hshifted, Stretch.shift]⟩
  intro p hp
  rw [List.mem_singleton.mp hp]
  exact ⟨c, cs, rfl, hc⟩

/-- A lead in front of a token and other steps. -/
theorem spaced (t : Trivia) {w : String} {c : Char} {cs : List Char} (hw : w.toList = c :: cs)
    (hc : Trivia.isIndent c = false) (ss : List Step) :
    Spreads [t] (spaced t w ++ ss) fun s => LosslessJava.spaced (s.apply t) w ++ ss := by
  have htext : ∀ u : Trivia, Step.text (LosslessJava.spaced u w ++ ss) =
      u.toList ++ c :: (cs ++ Step.text ss) := fun u => by simp [Step.text_spaced, hw]
  exact single hc (htext t) fun s => htext _

end Spreads

theorem isIndent_of_isBlank {c : Char} (h : isBlank c = false) : Trivia.isIndent c = false := by
  rw [Bool.eq_false_iff]
  intro hindent
  simp only [Trivia.isIndent, Bool.or_eq_true, beq_iff_eq] at hindent
  rcases hindent with rfl | rfl <;> cases h

theorem Begins.exists_text {ss : List Step} (h : Begins ss) :
    ∃ c cs, Step.text ss = c :: cs ∧ Trivia.isIndent c = false := by
  obtain ⟨gaps, s, rest, rfl, hgaps, hs⟩ := h.exists_token
  obtain ⟨c, cs, hcs, hc, -⟩ := hs.first
  refine ⟨c, cs ++ Step.text rest, ?_, isIndent_of_isBlank hc⟩
  rw [Step.text_append, text_gaps hgaps, Step.text_cons, Step.chars, hcs]
  rfl

namespace Statement

/-- A tidy statement has its lead in front of a first character that is no blank, and no other
character depends on the lead. -/
theorem exists_text_withLead {a : Statement} (h : Framed a.lead a.steps) :
    ∃ c cs, Trivia.isIndent c = false ∧
      ∀ t, Step.text (a.withLead t).steps = t.toList ++ c :: cs := by
  rcases a.releads with ⟨rest, hrest, hwith⟩ | ⟨-, hwith⟩
  · obtain ⟨c, cs, hcs, hc⟩ : ∃ c cs, Step.text rest = c :: cs ∧ Trivia.isIndent c = false := by
      cases h with
      | whole h =>
        obtain ⟨rest', heq, hb, -⟩ := h
        obtain rfl : rest' = rest := (List.cons.inj (heq.symm.trans hrest)).2
        exact hb.exists_text
      | ended h heq _ =>
        obtain ⟨rest', rfl, hb, -⟩ := h
        obtain rfl := (List.cons.inj (hrest.symm.trans heq)).2
        exact (hb.append _).exists_text
      | lone heq _ => cases heq.symm.trans hrest
    refine ⟨c, cs, hc, fun t => ?_⟩
    have hsteps : (a.withLead t).steps = .trivia t :: rest := hwith t
    rw [hsteps, Step.text_cons, hcs]
    rfl
  · refine ⟨';', [], rfl, fun t => ?_⟩
    have hsteps : (a.withLead t).steps = [.terminator t] := hwith t
    simp [hsteps, Step.chars]

theorem spreads_withLead {a : Statement} (h : Framed a.lead a.steps) :
    Spreads [a.lead] a.steps fun s => (a.withLead (s.apply a.lead)).steps := by
  obtain ⟨c, cs, hc, hwith⟩ := exists_text_withLead h
  refine .single hc ?_ fun s => hwith _
  rw [← hwith, Shift.withLead_lead]

mutual

/-- The text of a statement and of all its shifts. -/
theorem spreads : (a : Statement) → (Node.statement a).All Node.Tidy →
    Spreads a.leads a.steps fun s => (s.applyTo a).steps
  | .block ⟨lead, as, close⟩, h => by
    have hblock := h.child (List.mem_singleton_self _)
    have hlist := spreads_list as fun b hb => hblock.child (List.mem_map_of_mem hb)
    have hopen := Spreads.spaced lead (w := "\x7b") (c := '{') rfl rfl []
    have hclose := Spreads.spaced close (w := "\x7d") (c := '}') rfl rfl []
    simpa [leads, steps, Block.steps, Shift.applyTo] using (hopen.append hlist).append hclose
  | .branch lead c a, h =>
    (Spreads.spaced lead (w := "if") (c := 'i') rfl rfl c.steps).append
      (spreads a (h.child (by simp [Node.children, children])))
  | .fork lead c a elseLead b, h => by
    have hthen := (Spreads.spaced lead (w := "if") (c := 'i') rfl rfl c.steps).append
      (spreads a (h.child (by simp [Node.children, children])))
    have helse := (Spreads.spaced elseLead (w := "else") (c := 'e') rfl rfl []).append
      (spreads b (h.child (by simp [Node.children, children])))
    simpa [leads, steps, Shift.applyTo] using hthen.append helse
  | .loop lead c a, h =>
    (Spreads.spaced lead (w := "while") (c := 'w') rfl rfl c.steps).append
      (spreads a (h.child (by simp [Node.children, children])))
  | .ret _, h | .throwing .., h | .empty _, h | .declaration _, h | .expression .., h =>
    spreads_withLead h.self.shaped

theorem spreads_list : (as : List Statement) → (∀ a ∈ as, (Node.statement a).All Node.Tidy) →
    Spreads (listLeads as) (listSteps as) fun s => listSteps (s.applyToList as)
  | [], _ => .nil
  | a :: as, h =>
    (spreads a (h a List.mem_cons_self)).append
      (spreads_list as fun b hb => h b (List.mem_cons_of_mem a hb))

end

end Statement

end LosslessJava
