import LosslessJava.Tree.Node

/-!
# Leads

The trivia in front of the first token of a node, and its replacement.
-/

namespace LosslessJava

namespace Literal

def withLead (lead : Trivia) (l : Literal) : Literal := { l with lead }

end Literal

namespace Identifier

def withLead (lead : Trivia) (i : Identifier) : Identifier := { i with lead }

/-- A synthesized identifier. -/
def ofName (name : String) : Identifier := ⟨.empty, name, none⟩

end Identifier

namespace Expression

def lead : Expression → Trivia
  | literal l => l.lead
  | identifier i => i.lead
  | fieldAccess lead .. => lead
  | call lead .. => lead
  | invocation lead .. => lead
  | newClass lead .. => lead
  | binary lead .. => lead
  | prefixed lead .. => lead
  | postfixed lead .. => lead
  | assignment lead .. => lead
  | conditional lead .. => lead
  | parentheses lead .. => lead
  | self lead _ => lead

def withLead (lead : Trivia) : Expression → Expression
  | literal l => literal (l.withLead lead)
  | identifier i => identifier (i.withLead lead)
  | fieldAccess _ target dotLead name type => fieldAccess lead target dotLead name type
  | call _ name arguments type => call lead name arguments type
  | invocation _ target dotLead name arguments type =>
    invocation lead target dotLead name arguments type
  | newClass _ type arguments body => newClass lead type arguments body
  | binary _ left operatorLead operator right => binary lead left operatorLead operator right
  | prefixed _ operator operand => prefixed lead operator operand
  | postfixed _ operand operatorLead operator => postfixed lead operand operatorLead operator
  | assignment _ target operatorLead operator value =>
    assignment lead target operatorLead operator value
  | conditional _ condition questionLead thenPart colonLead elsePart =>
    conditional lead condition questionLead thenPart colonLead elsePart
  | parentheses _ inner close => parentheses lead inner close
  | self _ type => self lead type

/-- The expression without its lead. -/
def bare (e : Expression) : Expression := e.withLead .empty

theorem lead_withLead (t : Trivia) (e : Expression) : (e.withLead t).lead = t := by
  cases e <;> rfl

theorem withLead_withLead (t s : Trivia) (e : Expression) :
    (e.withLead s).withLead t = e.withLead t := by
  cases e <;> rfl

theorem withLead_lead (e : Expression) : e.withLead e.lead = e := by
  cases e <;> rfl

end Expression

namespace VariableDeclarations

def withLead (lead : Trivia) (d : VariableDeclarations) : VariableDeclarations := { d with lead }

end VariableDeclarations

namespace ClassDeclaration

def withLead (lead : Trivia) (c : ClassDeclaration) : ClassDeclaration := { c with lead }

end ClassDeclaration

namespace Member

def lead : Member → Trivia
  | field d => d.lead
  | method m => m.lead
  | nested c => c.lead
  | empty lead => lead

def withLead (lead : Trivia) : Member → Member
  | field d => field (d.withLead lead)
  | method m => method { m with lead }
  | nested c => nested (c.withLead lead)
  | empty _ => empty lead

theorem lead_withLead (t : Trivia) (m : Member) : (m.withLead t).lead = t := by
  cases m <;> rfl

end Member

namespace Statement

def lead : Statement → Trivia
  | block b => b.lead
  | ret r => r.lead
  | throwing lead .. => lead
  | branch lead .. => lead
  | fork lead .. => lead
  | loop lead .. => lead
  | empty lead => lead
  | declaration d => d.lead
  | expression lead .. => lead

def withLead (lead : Trivia) : Statement → Statement
  | block b => block { b with lead }
  | ret r => ret { r with lead }
  | throwing _ exception terminator => throwing lead exception terminator
  | branch _ condition thenPart => branch lead condition thenPart
  | fork _ condition thenPart elseLead elsePart => fork lead condition thenPart elseLead elsePart
  | loop _ condition body => loop lead condition body
  | empty _ => empty lead
  | declaration d => declaration (d.withLead lead)
  | expression _ e terminator => expression lead e terminator

theorem lead_withLead (t : Trivia) (s : Statement) : (s.withLead t).lead = t := by
  cases s <;> rfl

end Statement

end LosslessJava
