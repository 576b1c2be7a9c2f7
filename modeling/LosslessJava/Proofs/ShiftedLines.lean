import LosslessJava.Proofs.Indentation.Stretch
import LosslessJava.Proofs.Tree.Literals

/-!
# Shifted lines

A shift is applied to the leads of a statement, each a text of its own. The lines of the printed
statement are shifted as a whole when they all start in leads.

* `print_applyTo_iff`: every shift of a statement shifts all lines of its print exactly when no line
  break is outside of the leads.
* `not_print_applyTo_anonymous`: the members of an anonymous class are outside of them, although
  lines start there too.
-/

namespace LosslessJava

/-- Every line break of the text stands in one of the trivia, of which the text has each one
once. -/
def BreaksOnlyIn (leads : List Trivia) (cs : List Char) : Prop :=
  cs.count '\n' = (leads.flatMap Trivia.toList).count '\n'

instance (leads : List Trivia) (cs : List Char) : Decidable (BreaksOnlyIn leads cs) :=
  inferInstanceAs (Decidable (_ = _))

/-- Leads become longer by the amount of a shift to the right for each of their line breaks. -/
theorem length_textOf_shift {s : Shift} (h : 0 ≤ s.amount) (ps : List Stretch) :
    (Stretch.textOf (ps.map (Stretch.shift s))).length = (Stretch.textOf ps).length +
      s.amount.toNat * (ps.flatMap (·.lead.toList)).count '\n' := by
  induction ps with
  | nil => rfl
  | cons p ps ih =>
    simp only [List.map_cons, List.flatMap_cons, Stretch.textOf_cons, List.length_append, ih,
      List.count_append, Nat.mul_add, Stretch.shift, Shift.toList_apply,
      Shift.length_shifted_right h]
    omega

/-- Any shift of a parsed statement shifts all lines of its print, from the first line break on,
exactly when all line breaks are in front of statements, `else` and closing braces, those of
anonymous classes apart. -/
theorem print_applyTo_iff {source : String} {a : Statement} (h : parseStatement source = .ok a) :
    (∀ s : Shift, print (s.applyTo a) = (s.apply ⟨print a⟩).text) ↔
      BreaksOnlyIn a.leads (print a).toList := by
  obtain ⟨ps, hleads, hfirm, htext, hshifted⟩ := a.spreads (Parsed.statement h).all_tidy
  have hprint : (print a).toList = Stretch.textOf ps := (toList_print a).trans htext
  have hbreaks : BreaksOnlyIn a.leads (print a).toList ↔ ∀ p ∈ ps, '\n' ∉ p.body := by
    rw [Stretch.not_mem_body_iff, BreaksOnlyIn, hprint, ← hleads, List.flatMap_map]
  have hiff : ∀ s : Shift, print (s.applyTo a) = (s.apply ⟨print a⟩).text ↔
      Stretch.textOf (ps.map (Stretch.shift s)) = s.shifted (Stretch.textOf ps) := by
    intro s
    rw [← String.toList_inj, toList_print, ← Trivia.toList, Shift.toList_apply]
    show Step.text (s.applyTo a).steps = s.shifted (print a).toList ↔ _
    rw [hshifted, hprint]
  rw [hbreaks]
  constructor
  · intro hall
    -- The lengths of one shift to the right tell the line breaks of the leads from all others.
    have hlength := congrArg List.length ((hiff ⟨1, true⟩).mp (hall _))
    rw [length_textOf_shift (by decide), Shift.length_shifted_right (by decide)] at hlength
    rw [Stretch.not_mem_body_iff]
    simpa using hlength.symm
  · intro hbodies s
    rw [hiff, Stretch.shifted_textOf s hfirm hbodies]

/-- A branch over several lines with a comment in it, moved to the left. -/
theorem print_applyTo_iff_comment :
    ∃ a, parseStatement "\n  if (a) \x7b\n    // b\n    c();\n  \x7d\n  else d();" = .ok a ∧
      print ((Shift.mk (-2) true).applyTo a) =
        "\nif (a) \x7b\n  // b\n  c();\n\x7d\nelse d();" := by
  obtain ⟨a, h, ha⟩ := exists_ok
    (x := parseStatement "\n  if (a) \x7b\n    // b\n    c();\n  \x7d\n  else d();")
    (p := fun a => decide (BreaksOnlyIn a.leads (print a).toList) &&
      print a == "\n  if (a) \x7b\n    // b\n    c();\n  \x7d\n  else d();") (by decide +kernel)
  obtain ⟨hbreaks, hprint⟩ : BreaksOnlyIn a.leads (print a).toList ∧ _ := by simpa using ha
  refine ⟨a, h, ?_⟩
  rw [(print_applyTo_iff h).mpr hbreaks, hprint]
  decide +kernel

/-! ## Anonymous classes -/

namespace Node

/-- The trivia of a node itself in front of a statement, a member, an `else` and a closing brace. -/
def ownLineLeads : Node → List Trivia
  | statement (.fork lead _ _ elseLead _) => [lead, elseLead]
  | statement a => [a.lead]
  | member m => [m.lead]
  | block b => [b.close]
  | classBody b => [b.close]
  | _ => []

/-- The trivia in front of the statements, members, `else` and closing braces of a node, those of
anonymous classes included. -/
def lineLeads (n : Node) : List Trivia :=
  n.ownLineLeads ++ n.children.attach.flatMap fun k => k.1.lineLeads
termination_by sizeOf n
decreasing_by exact sizeOf_children k.2

end Node

/-- The body of an anonymous class stays where it is, although all line breaks are in front of a
member and of a closing brace. -/
theorem not_print_applyTo_anonymous :
    ∃ a, parseStatement "f(new A() \x7b\n  int x;\n\x7d);" = .ok a ∧
      BreaksOnlyIn (Node.statement a).lineLeads (print a).toList ∧
      ∃ s : Shift, print (s.applyTo a) ≠ (s.apply ⟨print a⟩).text := by
  obtain ⟨a, h, ha⟩ := exists_ok (x := parseStatement "f(new A() \x7b\n  int x;\n\x7d);")
    (p := fun a => decide (BreaksOnlyIn (Node.statement a).lineLeads (print a).toList) &&
      print ((Shift.mk 2 true).applyTo a) != ((Shift.mk 2 true).apply ⟨print a⟩).text)
    (by decide +kernel)
  obtain ⟨hbreaks, hprint⟩ : _ ∧ print ((Shift.mk 2 true).applyTo a) ≠ _ := by simpa using ha
  exact ⟨a, h, hbreaks, _, hprint⟩

end LosslessJava
