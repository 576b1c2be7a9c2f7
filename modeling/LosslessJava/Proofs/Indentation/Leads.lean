import LosslessJava.Indentation.Shift

/-!
# The trivia that move with a statement

A shift changes the leads of a statement and nothing else: the trivia in front of it and of the
statements in it, in front of `else` and in front of closing braces.

* `Statement.leads`: these trivia, in the order of the text.
* `Statement.leads_applyTo`: a shift shifts each of them.
-/

namespace LosslessJava

mutual

/-- The trivia in front of the statement, of the statements in it, of `else` and of closing braces.
Statements in the body of an anonymous class are part of an expression and are left out. -/
def Statement.leads : Statement → List Trivia
  | .block ⟨lead, as, close⟩ => lead :: Statement.listLeads as ++ [close]
  | .branch lead _ a => lead :: a.leads
  | .fork lead _ a elseLead b => lead :: a.leads ++ elseLead :: b.leads
  | .loop lead _ a => lead :: a.leads
  | a => [a.lead]

def Statement.listLeads : List Statement → List Trivia
  | [] => []
  | a :: as => a.leads ++ Statement.listLeads as

end

namespace Statement

mutual

theorem leads_applyTo (s : Shift) : (a : Statement) → (s.applyTo a).leads = a.leads.map s.apply
  | .block ⟨lead, as, close⟩ => by
    simp [Shift.applyTo, leads, listLeads_applyTo s as]
  | .branch lead c a => by
    simp [Shift.applyTo, leads, leads_applyTo s a]
  | .fork lead c a elseLead b => by
    simp [Shift.applyTo, leads, leads_applyTo s a, leads_applyTo s b]
  | .loop lead c a => by
    simp [Shift.applyTo, leads, leads_applyTo s a]
  | .ret _ | .throwing .. | .empty _ | .declaration _ | .expression .. => rfl

theorem listLeads_applyTo (s : Shift) :
    (as : List Statement) → listLeads (s.applyToList as) = (listLeads as).map s.apply
  | [] => rfl
  | a :: as => by
    simp [Shift.applyToList, listLeads, leads_applyTo s a, listLeads_applyTo s as]

end

end Statement

end LosslessJava
