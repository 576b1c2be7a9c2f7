import LosslessJava.Proofs.Grammar.Phrase
import LosslessJava.Proofs.Grammar.Reads
import LosslessJava.Proofs.Tree.Shape

/-!
# Pieces of a node

A rule reads the parts of a node one behind the other. `Piece` says of the lexemes of some parts
what they print as, which nodes and which trivia are kept of them, and that they are a phrase.
Pieces are put together like the text, and a node is read when its pieces are complete
(`Reading.of_piece`).

* `Reading s n xs`: the lexemes are read as the node. They print as the node does, everything in the
  node is tidy, and they are a phrase that starts with the lead of the node and a token that can
  start a statement, declaration or expression.
-/

namespace LosslessJava

namespace Lexeme

@[simp] theorem textOf_nil : textOf [] = [] := rfl

@[simp] theorem textOf_cons (l : Lexeme) (ls : List Lexeme) :
    textOf (l :: ls) = l.toList ++ textOf ls := rfl

@[simp] theorem textOf_append (xs ys : List Lexeme) : textOf (xs ++ ys) = textOf xs ++ textOf ys :=
  List.flatMap_append

end Lexeme

namespace Padded

variable {α : Type}

/-- The steps of a list with commas between its elements. -/
def steps (f : α → List Step) : List (Padded α) → List Step
  | [] => []
  | [p] => f p.element
  | p :: q :: ps => f p.element ++ spaced p.after "," ++ steps f (q :: ps)

end Padded

theorem TypeTree.listSteps_eq (ps : List (Padded TypeTree)) :
    TypeTree.listSteps ps = Padded.steps TypeTree.steps ps := by
  fun_induction Padded.steps TypeTree.steps ps with
  | case1 => rfl
  | case2 p => rfl
  | case3 p q ps ih => rw [← ih]; rfl

theorem Expression.listSteps_eq (ps : List (Padded Expression)) :
    Expression.listSteps ps = Padded.steps Expression.steps ps := by
  fun_induction Padded.steps Expression.steps ps with
  | case1 => rfl
  | case2 p => rfl
  | case3 p q ps ih => rw [← ih]; rfl

theorem NamedVariable.listSteps_eq (ps : List (Padded NamedVariable)) :
    NamedVariable.listSteps ps = Padded.steps NamedVariable.steps ps := by
  fun_induction Padded.steps NamedVariable.steps ps with
  | case1 => rfl
  | case2 p => rfl
  | case3 p q ps ih => rw [← ih]; rfl

theorem VariableDeclarations.listSteps_eq (ps : List (Padded VariableDeclarations)) :
    VariableDeclarations.listSteps ps = Padded.steps VariableDeclarations.steps ps := by
  fun_induction Padded.steps VariableDeclarations.steps ps with
  | case1 => rfl
  | case2 p => rfl
  | case3 p q ps ih => rw [← ih]; rfl

theorem Modifier.listSteps_eq (ms : List Modifier) :
    Modifier.listSteps ms = ms.flatMap Modifier.steps := by
  induction ms with
  | nil => rfl
  | cons m ms ih => rw [Modifier.listSteps, ih, List.flatMap_cons]

theorem Member.listSteps_eq (ms : List Member) :
    Member.listSteps ms = ms.flatMap Member.steps := by
  induction ms with
  | nil => rfl
  | cons m ms ih => rw [Member.listSteps, ih, List.flatMap_cons]

theorem Statement.listSteps_eq (ss : List Statement) :
    Statement.listSteps ss = ss.flatMap Statement.steps := by
  induction ss with
  | nil => rfl
  | cons s ss ih => rw [Statement.listSteps, ih, List.flatMap_cons]

namespace Grammar

open Step LosslessJava.Grammar.Parser

/-! ## Pieces -/

/-- What some lexemes print as, and what is kept of them. -/
structure Piece (s : Bool) (steps : List Step) (nodes : List Node) (gaps : List Trivia)
    (xs : List Lexeme) : Prop where
  text : Lexeme.textOf xs = text steps
  nodes : ∀ n ∈ nodes, n.All Node.Tidy
  gaps : ∀ t ∈ gaps, Lex.IsGap false t.toList
  phrase : Phrase s xs

namespace Piece

variable {s g : Bool} {steps steps' : List Step} {nodes nodes' : List Node}
  {gaps gaps' : List Trivia} {xs ys : List Lexeme}

theorem nil : Piece s [] [] [] [] := ⟨rfl, by simp, by simp, .nil⟩

theorem append (hx : Piece s steps nodes gaps xs) (hy : Piece s steps' nodes' gaps' ys) :
    Piece s (steps ++ steps') (nodes ++ nodes') (gaps ++ gaps') (xs ++ ys) := by
  refine ⟨?_, ?_, ?_, hx.phrase.append hy.phrase⟩
  · rw [Lexeme.textOf_append, text_append, hx.text, hy.text]
  · intro n hn
    exact (List.mem_append.mp hn).elim (hx.nodes n) (hy.nodes n)
  · intro t ht
    exact (List.mem_append.mp ht).elim (hx.gaps t) (hy.gaps t)

theorem weaken (h : Piece false steps nodes gaps xs) : Piece s steps nodes gaps xs :=
  ⟨h.text, h.nodes, h.gaps, h.phrase.weaken⟩

/-- The same piece, told in another way. -/
theorem congr (h : Piece s steps nodes gaps xs) (hsteps : Step.text steps = Step.text steps')
    (hnodes : ∀ n ∈ nodes', n ∈ nodes) (hgaps : ∀ t ∈ gaps', t ∈ gaps) :
    Piece s steps' nodes' gaps' xs :=
  ⟨h.text.trans hsteps, fun n hn => h.nodes n (hnodes n hn), fun t ht => h.gaps t (hgaps t ht),
    h.phrase⟩

/-- A token and the trivia in front of it. -/
theorem token {t : Trivia} {k : Token} {w : String} (ht : Lex.IsGap false t.toList)
    (hk : k.toList = w.toList) (hp : Phrase s [⟨t, k⟩]) : Piece s (spaced t w) [] [t] [⟨t, k⟩] := by
  refine ⟨?_, by simp, by simpa using ht, hp⟩
  rw [text_spaced, ← hk]
  simp [Lexeme.toList]

/-- A piece between brackets. -/
theorem bracket {t u : Trivia} {o c : Token} {w v : String} (ht : Lex.IsGap false t.toList)
    (hu : Lex.IsGap false u.toList) (ho : Opening g o) (hc : Closing g c) (hw : o.toList = w.toList)
    (hv : c.toList = v.toList) (h : Piece g steps nodes gaps xs) :
    Piece s (spaced t w ++ steps ++ spaced u v) nodes (t :: u :: gaps)
      (⟨t, o⟩ :: xs ++ [⟨u, c⟩]) := by
  refine ⟨?_, h.nodes, ?_, h.phrase.bracket ho hc⟩
  · simp only [Lexeme.textOf_append, Lexeme.textOf_cons, Lexeme.toList, Lexeme.textOf_nil, hw, hv,
      h.text, text_append, text_spaced, List.append_assoc, List.append_nil, List.cons_append]
  · intro t' ht'
    rcases List.mem_cons.mp ht' with rfl | ht'
    · exact ht
    · rcases List.mem_cons.mp ht' with rfl | ht'
      · exact hu
      · exact h.gaps t' ht'

end Piece

/-! ## Nodes -/

/-- The lexemes are read as the node. -/
structure Reading (s : Bool) (n : Node) (xs : List Lexeme) : Prop where
  text : Lexeme.textOf xs = text n.steps
  tidy : n.All Node.Tidy
  phrase : Phrase s xs
  opens : Opens n.lead xs

namespace Reading

variable {s : Bool} {n : Node} {xs : List Lexeme}

theorem weaken (h : Reading false n xs) : Reading s n xs :=
  ⟨h.text, h.tidy, h.phrase.weaken, h.opens⟩

theorem shaped (h : Reading s n xs) : n.Shaped := h.tidy.self.shaped

/-- The node as a piece of its parent. -/
theorem piece (h : Reading s n xs) : Piece s n.steps [n] [] xs :=
  ⟨h.text, by simpa using h.tidy, by simp, h.phrase⟩

/-- A node is read when its parts are. -/
theorem of_piece {steps : List Step} {nodes : List Node} {gaps : List Trivia}
    (h : Piece s steps nodes gaps xs) (hsteps : Step.text steps = Step.text n.steps)
    (hnodes : ∀ k ∈ n.children, k ∈ nodes) (hgaps : ∀ t ∈ n.trivia, t ∈ gaps) (hn : n.Shaped)
    (ho : Opens n.lead xs) : Reading s n xs := by
  refine ⟨h.text.trans hsteps, ?_, h.phrase, ho⟩
  refine Node.all_iff.mpr ⟨⟨hn, ?_⟩, ?_⟩
  · intro t ht
    exact (h.gaps t (hgaps t ht)).weaken
  · intro k hk
    exact h.nodes k (hnodes k hk)

/-- A node that prints as its only child and stores nothing itself. -/
theorem wrap {m : Node} (h : Reading s n xs) (hsteps : m.steps = n.steps)
    (hchildren : m.children = [n]) (htrivia : m.trivia = []) (hlead : m.lead = n.lead)
    (hm : m.Shaped) : Reading s m xs := by
  refine .of_piece h.piece (congrArg Step.text hsteps.symm) ?_ ?_ hm (hlead ▸ h.opens)
  · intro k hk
    rwa [hchildren] at hk
  · intro t ht
    rwa [htrivia] at ht

end Reading

end Grammar

end LosslessJava
