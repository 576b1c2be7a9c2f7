import LosslessJava.Proofs.Lex.Legal
import LosslessJava.Proofs.Print.Render
import LosslessJava.Proofs.Tree.Untyped

/-!
# The shape of printed nodes

The trivia in front of a node is the lead of the node and nothing else, because a child that starts
with the first token of its parent has an empty lead. So the steps of a node are its lead, maybe
some empty trivia, and then a token.

* `Whole lead steps`: the steps start with the lead and go from a token to a token.
* `Framed lead steps`: the same, or such steps with a terminator behind them, or a terminator only.
* `Node.Tidy`: the steps of the node have the shape of its kind, and the trivia that it stores are
  white space and comments.
* `Expression.all_tidy_withLead`: another lead leaves an expression tidy.
-/

namespace LosslessJava

open Step

/-! ## Shapes of steps -/

/-- The first step that writes anything writes a crisp token. -/
inductive Begins : List Step → Prop
  | token {s : String} {ss : List Step} (hs : Crisp s.toList) : Begins (.token s :: ss)
  | skip {ss : List Step} (h : Begins ss) : Begins (.trivia .empty :: ss)

/-- The last step writes a crisp token. -/
def Closes (ss : List Step) : Prop := ∃ init s, ss = init ++ [.token s] ∧ Crisp s.toList

/-- A lead, and then steps from a crisp token to a crisp token. -/
def Whole (lead : Trivia) (steps : List Step) : Prop :=
  ∃ rest, steps = .trivia lead :: rest ∧ Begins rest ∧ Closes rest

/-- A lead, and then steps from a crisp token to a crisp token or to a terminator. -/
inductive Framed (lead : Trivia) (steps : List Step) : Prop
  | whole (h : Whole lead steps)
  | ended {front : List Step} {t : Trivia} (h : Whole lead front)
    (heq : steps = front ++ [.terminator t]) (ht : Lex.IsGap false t.toList)
  | lone (heq : steps = [.terminator lead]) (ht : Lex.IsGap false lead.toList)

theorem Begins.append {ss : List Step} (h : Begins ss) (ts : List Step) : Begins (ss ++ ts) := by
  induction h with
  | token hs => exact .token hs
  | skip _ ih => exact .skip ih

theorem Begins.of_trivia {t : Trivia} {ss : List Step} (h : Begins (.trivia t :: ss)) :
    t = .empty ∧ Begins ss := by
  cases h with
  | skip h => exact ⟨rfl, h⟩

theorem Closes.append {ts : List Step} (h : Closes ts) (ss : List Step) : Closes (ss ++ ts) := by
  obtain ⟨init, s, rfl, hs⟩ := h
  exact ⟨ss ++ init, s, by rw [List.append_assoc], hs⟩

theorem Closes.cons {ts : List Step} (h : Closes ts) (s : Step) : Closes (s :: ts) :=
  h.append [s]

theorem closes_spaced {s : String} (hs : Crisp s.toList) (t : Trivia) : Closes (spaced t s) :=
  ⟨[.trivia t], s, rfl, hs⟩

namespace Whole

variable {lead : Trivia} {steps : List Step}

theorem closes (h : Whole lead steps) : Closes steps := by
  obtain ⟨rest, rfl, -, hc⟩ := h
  exact hc.cons _

theorem spaced {s : String} (hs : Crisp s.toList) (lead : Trivia) : Whole lead (spaced lead s) :=
  ⟨[.token s], rfl, .token hs, [], s, rfl, hs⟩

/-- A first token and more steps. -/
theorem spaced_append {s : String} (hs : Crisp s.toList) (lead : Trivia) {ss : List Step}
    (hc : Closes ss) : Whole lead (LosslessJava.spaced lead s ++ ss) :=
  ⟨.token s :: ss, rfl, .token hs, hc.cons _⟩

/-- A lead in front of a child that has none. -/
theorem cons (h : Whole .empty steps) (lead : Trivia) : Whole lead (.trivia lead :: steps) := by
  obtain ⟨rest, rfl, hb, hc⟩ := h
  exact ⟨.trivia .empty :: rest, rfl, .skip hb, hc.cons _⟩

theorem append (h : Whole lead steps) {ss : List Step} (hc : Closes ss) :
    Whole lead (steps ++ ss) := by
  obtain ⟨rest, rfl, hb, -⟩ := h
  exact ⟨rest ++ ss, rfl, hb.append ss, hc.append rest⟩

end Whole

/-- A statement behind other steps of its parent. -/
theorem Framed.prepend {lead t : Trivia} {ss pre : List Step} (h : Framed t ss)
    (hpre : Whole lead pre) : Framed lead (pre ++ ss) := by
  cases h with
  | whole h => exact .whole (hpre.append h.closes)
  | ended h heq ht =>
    rw [heq, ← List.append_assoc]
    exact .ended (hpre.append h.closes) rfl ht
  | lone heq ht =>
    rw [heq]
    exact .ended hpre rfl ht

/-! ## Tidy nodes -/

/-- What the steps of a node can look like. -/
inductive Form where
  | whole | framed | list | unit
deriving DecidableEq

namespace Node

def form : Node → Form
  | typeList _ => .list
  | unit _ => .unit
  | declarations _ | member _ | method _ | ret _ | statement _ | package _
  | importDeclaration _ => .framed
  | _ => .whole

/-- The trivia in front of the first token of a node. A unit has none of its own. -/
def lead : Node → Trivia
  | dimension d => d.lead
  | typeTree t => t.lead
  | wildcardBound b => b.lead
  | typeList l => l.lead
  | literal l => l.lead
  | identifier i => i.lead
  | expression e => e.lead
  | modifier (.keyword lead _) => lead
  | modifier (.annotated lead ..) => lead
  | initializer i => i.lead
  | namedVariable v => v.lead
  | declarations d => d.lead
  | classBody b => b.lead
  | classDeclaration c => c.lead
  | member m => m.lead
  | method m => m.lead
  | block b => b.lead
  | ret r => r.lead
  | condition c => c.lead
  | statement s => s.lead
  | package d => d.lead
  | importDeclaration i => i.lead
  | unit _ => .empty

/-- The steps of the node have the shape of its kind. -/
def Shaped (n : Node) : Prop :=
  match n.form with
  | .whole => Whole n.lead n.steps
  | .framed => Framed n.lead n.steps
  | .list => Closes n.steps
  | .unit => True

/-- The node has the shape of its kind, and all trivia that it stores are white space and comments.
Only the trivia at the end of a unit can end with an open line comment. -/
structure Tidy (n : Node) : Prop where
  shaped : n.Shaped
  gaps : ∀ t ∈ n.trivia, Lex.IsGap (n.form == .unit) t.toList

theorem form_untyped (n : Node) : n.untyped.form = n.form := by
  cases n <;> rfl

theorem lead_untyped (n : Node) : n.untyped.lead = n.lead := by
  cases n with
  | typeTree t => cases t; rfl
  | wildcardBound b => cases b; rfl
  | expression e => exact e.lead_untyped
  | modifier m =>
    cases m with
    | keyword lead kind => rfl
    | annotated lead nameLead name arguments type => cases arguments <;> rfl
  | namedVariable v => cases v; rfl
  | declarations d => cases d; rfl
  | classBody b => cases b; rfl
  | classDeclaration c => cases c; rfl
  | member m =>
    cases m with
    | field d => cases d; rfl
    | method m => cases m; rfl
    | nested c => cases c; rfl
    | empty t => rfl
  | method m => cases m; rfl
  | block b => cases b; rfl
  | ret r => cases r; rfl
  | condition c => cases c; rfl
  | statement s =>
    cases s with
    | block b => cases b; rfl
    | ret r => cases r; rfl
    | declaration d => cases d; rfl
    | _ => rfl
  | _ => rfl

/-- The types that attribution adds to a node do not show. -/
theorem Tidy.of_untyped {m n : Node} (he : m.untyped = n.untyped) (h : n.Tidy) : m.Tidy := by
  have hform : m.form = n.form := by rw [← m.form_untyped, he, n.form_untyped]
  have hlead : m.lead = n.lead := by rw [← m.lead_untyped, he, n.lead_untyped]
  have hsteps : m.steps = n.steps := by rw [← m.steps_untyped, he, n.steps_untyped]
  have htrivia : m.trivia = n.trivia := by rw [← m.trivia_untyped, he, n.trivia_untyped]
  constructor
  · have := h.shaped
    rwa [Shaped, hform, hlead, hsteps]
  · rw [htrivia, hform]
    exact h.gaps

end Node

namespace Node

/-- A node that is only a token. -/
theorem all_tidy_leaf {n : Node} {t : Trivia} {s : String} (hf : n.form = .whole)
    (hs : n.steps = .trivia n.lead :: [.token s]) (hc : Crisp s.toList)
    (ht : Lex.IsGap false t.toList) (htrivia : n.trivia = [t]) (hk : n.children = []) :
    n.All Tidy := by
  refine all_iff.mpr ⟨⟨?_, ?_⟩, ?_⟩
  · rw [Shaped, hf, hs]
    exact Whole.spaced hc _
  · rw [htrivia, hf]
    intro u hu
    rw [List.mem_singleton.mp hu]
    exact ht
  · rw [hk]
    intro k hk
    cases hk

theorem Tidy.crisp_of_leaf {n : Node} {s : String} (h : n.Tidy) (hf : n.form = .whole)
    (hs : n.steps = .trivia n.lead :: [.token s]) : Crisp s.toList := by
  have hw := h.shaped
  rw [Shaped, hf, hs] at hw
  obtain ⟨rest, heq, hb, -⟩ := hw
  cases heq
  cases hb with
  | token hs => exact hs

end Node

/-! ## Other leads -/

namespace Expression

/-- The lead of an expression is its first step, and no other step knows it. -/
theorem exists_steps_withLead (e : Expression) :
    ∃ rest, ∀ t, (e.withLead t).steps = .trivia t :: rest := by
  cases e with
  | literal l => exact ⟨[.token l.source], fun _ => rfl⟩
  | identifier i => exact ⟨[.token i.name], fun _ => rfl⟩
  | newClass lead type arguments body =>
    obtain ⟨before, elements, close⟩ := arguments
    cases body <;> exact ⟨_, fun _ => rfl⟩
  | call lead name arguments type =>
    obtain ⟨before, elements, close⟩ := arguments
    exact ⟨_, fun _ => rfl⟩
  | invocation lead target dotLead name arguments type =>
    obtain ⟨before, elements, close⟩ := arguments
    exact ⟨_, fun _ => rfl⟩
  | _ => exact ⟨_, fun _ => rfl⟩

theorem exists_steps (e : Expression) :
    ∃ rest, e.steps = .trivia e.lead :: rest ∧ ∀ t, (e.withLead t).steps = .trivia t :: rest := by
  obtain ⟨rest, h⟩ := e.exists_steps_withLead
  refine ⟨rest, ?_, h⟩
  have := h e.lead
  rwa [withLead_lead] at this

/-- The text of an expression is its lead and the rest. -/
theorem text_bare (e : Expression) :
    text e.steps = e.lead.toList ++ text e.bare.steps := by
  obtain ⟨rest, h, hlead⟩ := e.exists_steps
  rw [h, bare, hlead]
  simp [chars]

theorem whole_withLead {e : Expression} (h : Whole e.lead e.steps) (t : Trivia) :
    Whole t (e.withLead t).steps := by
  obtain ⟨rest, he, hlead⟩ := e.exists_steps
  obtain ⟨rest', h', hb, hc⟩ := h
  rw [he] at h'
  cases h'
  exact ⟨rest, hlead t, hb, hc⟩

theorem mem_trivia_withLead {e : Expression} {t u : Trivia} (h : u ∈ (e.withLead t).trivia) :
    u = t ∨ u ∈ e.trivia := by
  cases e with
  | literal l => cases h
  | identifier i => cases h
  | _ =>
    rcases List.mem_cons.mp h with h | h
    · exact Or.inl h
    · exact Or.inr (List.mem_cons_of_mem _ h)

theorem tidy_withLead {e : Expression} (h : (Node.expression e).Tidy) {t : Trivia}
    (ht : Lex.IsGap false t.toList) : (Node.expression (e.withLead t)).Tidy := by
  constructor
  · have hw : Whole e.lead e.steps := h.shaped
    show Whole (e.withLead t).lead (e.withLead t).steps
    rw [lead_withLead]
    exact whole_withLead hw t
  · intro u hu
    rcases mem_trivia_withLead hu with rfl | hu
    · exact ht
    · exact h.gaps u hu

/-- Another lead leaves an expression tidy. -/
theorem all_tidy_withLead {e : Expression} (h : (Node.expression e).All Node.Tidy) {t : Trivia}
    (ht : Lex.IsGap false t.toList) : (Node.expression (e.withLead t)).All Node.Tidy := by
  refine Node.all_iff.mpr ⟨tidy_withLead h.self ht, ?_⟩
  have hc := (Node.all_iff.mp h).2
  cases e with
  | literal l =>
    intro k hk
    rw [List.mem_singleton.mp hk]
    have hl := (hc (.literal l) (List.mem_singleton_self _)).self.crisp_of_leaf rfl rfl
    exact Node.all_tidy_leaf rfl rfl hl ht rfl rfl
  | identifier i =>
    intro k hk
    rw [List.mem_singleton.mp hk]
    have hi := (hc (.identifier i) (List.mem_singleton_self _)).self.crisp_of_leaf rfl rfl
    exact Node.all_tidy_leaf rfl rfl hi ht rfl rfl
  | _ => exact hc

theorem all_tidy_bare {e : Expression} (h : (Node.expression e).All Node.Tidy) :
    (Node.expression e.bare).All Node.Tidy :=
  all_tidy_withLead h .nil

theorem whole_bare {e : Expression} (h : (Node.expression e).All Node.Tidy) :
    Whole .empty e.bare.steps :=
  whole_withLead (show Whole e.lead e.steps from h.self.shaped) .empty

end Expression

end LosslessJava
