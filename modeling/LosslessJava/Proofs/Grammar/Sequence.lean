import LosslessJava.Proofs.Grammar.Terminal

/-!
# Sequences of nodes

Nodes one behind the other, nodes with commas between them, and such lists between delimiters.
-/

namespace LosslessJava

/-! ## Steps of lists with commas -/

namespace Padded

variable {α : Type} {f : α → List Step}

theorem steps_cons (p : Padded α) {ps : List (Padded α)} (h : ps ≠ []) :
    steps f (p :: ps) = f p.element ++ spaced p.after "," ++ steps f ps := by
  cases ps with
  | nil => exact absurd rfl h
  | cons q qs => rfl

theorem closes_steps {ps : List (Padded α)} (hne : ps ≠ []) (h : ∀ p ∈ ps, Closes (f p.element)) :
    Closes (steps f ps) := by
  induction ps with
  | nil => exact absurd rfl hne
  | cons p ps ih =>
    by_cases hps : ps = []
    · rw [hps]
      exact h p List.mem_cons_self
    · rw [steps_cons p hps]
      exact (ih hps fun q hq => h q (List.mem_cons_of_mem _ hq)).append _

end Padded

namespace Grammar

open Step LosslessJava.Grammar.Parser

variable {α : Type}

/-! ## Nodes one behind the other -/

theorem piece_several {s : Bool} (node : α → Node) {C : List Lexeme → α → Prop}
    (hC : ∀ xs a, C xs a → Reading s (node a) xs) {xs : List Lexeme} {as : List α}
    (h : Several C xs as) : Piece s (as.flatMap fun a => (node a).steps) (as.map node) [] xs := by
  induction h with
  | nil => exact .nil
  | cons h _ ih =>
    rw [List.flatMap_cons]
    exact (hC _ _ h).piece.append ih

theorem piece_perhaps {s : Bool} (node : α → Node) {C : List Lexeme → α → Prop}
    (hC : ∀ xs a, C xs a → Reading s (node a) xs) {xs : List Lexeme} {o : Option α}
    (h : Perhaps C xs o) :
    Piece s ((o.map fun a => (node a).steps).getD []) (o.map node).toList [] xs := by
  cases h with
  | none => exact .nil
  | some h => exact (hC _ _ h).piece

/-! ## Lists with commas -/

/-- Elements with commas between them, as a piece. -/
def IsList (node : α → Node) (xs : List Lexeme) (ps : List (Padded α)) : Prop :=
  Piece false (Padded.steps (fun a => (node a).steps) ps) (ps.map fun p => node p.element)
    (Padded.commas ps) xs

/-- A list of whole nodes ends with a token. -/
theorem IsList.closes {node : α → Node} {xs : List Lexeme} {ps : List (Padded α)}
    (h : IsList node xs ps) (hne : ps ≠ []) (hform : ∀ a, (node a).form = .whole) :
    Closes (Padded.steps (fun a => (node a).steps) ps) := by
  refine Padded.closes_steps hne fun p hp => ?_
  have hmem : node p.element ∈ ps.map fun p => node p.element := List.mem_map.mpr ⟨p, hp, rfl⟩
  have hshaped := (h.nodes _ hmem).self.shaped
  rw [Node.Shaped, hform] at hshaped
  exact Whole.closes hshaped

theorem padded_ne_nil (a : α) (rest : List (Trivia × α)) : padded a rest ≠ [] := by
  cases rest <;> simp [padded]

theorem forall_padded {P : α → Prop} {a : α} {rest : List (Trivia × α)} (ha : P a)
    (hrest : ∀ b ∈ rest, P b.2) : ∀ p ∈ padded a rest, P p.element := by
  induction rest generalizing a with
  | nil => simpa [padded] using ha
  | cons b rest ih =>
    obtain ⟨t, b⟩ := b
    simp only [List.forall_mem_cons] at hrest
    simpa [padded] using ⟨ha, ih hrest.1 hrest.2⟩

theorem piece_comma {xs : List Lexeme} {t : Trivia} (h : IsMark ',' xs t) (s : Bool) :
    Piece s (spaced t ",") [] [t] xs := by
  cases s <;> exact h.piece rfl rfl rfl

theorem isList_padded {node : α → Node} {xs ys : List Lexeme} {a : α} {rest : List (Trivia × α)}
    (ha : Reading false (node a) xs)
    (hrest : Several (fun zs b => ∃ us vs, zs = us ++ vs ∧ IsMark ',' us b.1 ∧
      Reading false (node b.2) vs) ys rest) : IsList node (xs ++ ys) (padded a rest) := by
  induction hrest generalizing a xs with
  | nil =>
    have hempty : Lex.IsGap false Trivia.empty.toList := .nil
    refine ⟨?_, ?_, ?_, ?_⟩
    · simpa [padded, Padded.steps] using ha.text
    · simpa [padded] using ha.tidy
    · intro t ht
      rw [List.mem_singleton.mp ht]
      exact hempty
    · simpa using ha.phrase
  | @cons zs ys b rest h _ ih =>
    obtain ⟨us, vs, rfl, hcomma, hb⟩ := h
    have hlist := ih hb
    have hcomma := piece_comma hcomma false
    obtain ⟨t, b⟩ := b
    have := ha.piece.append (hcomma.append hlist)
    rw [padded, IsList, Padded.steps_cons _ (padded_ne_nil b rest)]
    simpa only [List.append_assoc, List.nil_append, List.singleton_append, List.map_cons,
      Padded.commas_cons] using this

theorem reads_separated {node : α → Node} {p : Parser α} {bound : Nat}
    (hp : Reads p fun xs a => Reading false (node a) xs) :
    Reads (separated bound p) fun xs ps => IsList node xs ps ∧ ps ≠ [] := by
  have hcomma : Reads comma (IsMark ',') := reads_delimiter rfl
  have hnext := (hcomma.map (Prod.mk (β := α))).seq hp
  apply ((hp.map _).seq (hnext.many bound)).mono
  rintro xs ps ⟨ys, zs, f, rest, rfl, ⟨a, ha, rfl⟩, hrest, rfl⟩
  refine ⟨isList_padded ha (hrest.mono ?_), padded_ne_nil a rest⟩
  rintro xs b ⟨us, vs, f, c, rfl, ⟨t, ht, rfl⟩, hc, rfl⟩
  exact ⟨us, vs, rfl, ht, hc⟩

theorem reads_elements {node : α → Node} {p : Parser α} {bound : Nat}
    (hp : Reads p fun xs a => Reading false (node a) xs) :
    Reads (optional (separated bound p)) fun xs o => IsList node xs (o.getD []) := by
  apply (reads_separated hp).optional.mono
  intro xs o h
  cases h with
  | none => exact .nil
  | some h => exact h.1

/-! ## Parentheses and braces -/

theorem piece_parentheses {s : Bool} {steps : List Step} {nodes : List Node} {gaps : List Trivia}
    {xs ys zs : List Lexeme} {t u : Trivia} (ht : IsMark '(' xs t)
    (h : Piece false steps nodes gaps ys) (hu : IsMark ')' zs u) :
    Piece s (spaced t "(" ++ steps ++ spaced u ")") nodes (t :: u :: gaps) (xs ++ ys ++ zs) := by
  obtain ⟨rfl, ht⟩ := ht
  obtain ⟨rfl, hu⟩ := hu
  exact Piece.bracket (g := false) ht hu rfl rfl rfl rfl h

theorem piece_braces {s : Bool} {steps : List Step} {nodes : List Node} {gaps : List Trivia}
    {xs ys zs : List Lexeme} {t u : Trivia} (ht : IsMark '{' xs t)
    (h : Piece true steps nodes gaps ys) (hu : IsMark '}' zs u) :
    Piece s (spaced t "\x7b" ++ steps ++ spaced u "\x7d") nodes (t :: u :: gaps)
      (xs ++ ys ++ zs) := by
  obtain ⟨rfl, ht⟩ := ht
  obtain ⟨rfl, hu⟩ := hu
  exact Piece.bracket (g := true) ht hu rfl rfl rfl rfl h

/-- Steps between two delimiters. -/
theorem whole_between {v w : String} (hv : v ∈ delimiters) (hw : w ∈ delimiters) (t u : Trivia)
    (ss : List Step) : Whole t (spaced t v ++ ss ++ spaced u w) := by
  rw [List.append_assoc]
  exact Whole.spaced_append (crisp_delimiter v hv) t
    ((closes_spaced (crisp_delimiter w hw) u).append ss)

/-! ## Lists between delimiters -/

/-- A list between delimiters, as a piece. -/
def IsDelimited (opening closing : String) (node : α → Node) (xs : List Lexeme)
    (d : Delimited α) : Prop :=
  ∀ s, Piece s (spaced d.before opening ++ Padded.steps (fun a => (node a).steps) d.elements ++
    spaced d.close closing) (d.toList.map node) d.trivia xs

theorem map_toList (node : α → Node) (d : Delimited α) :
    d.toList.map node = d.elements.map fun p => node p.element := by
  simp [Delimited.toList]

/-- A list between parentheses. -/
theorem reads_parenthesized {node : α → Node} {p : Parser α} {bound : Nat}
    (hp : Reads p fun xs a => Reading false (node a) xs) :
    Reads (delimited bound leftParenthesis p rightParenthesis)
      fun xs d => IsDelimited "(" ")" node xs d := by
  apply (((reads_leftParenthesis.map _).seq (reads_elements hp)).seq
    reads_rightParenthesis).mono
  rintro xs d ⟨_, _, _, u, rfl, ⟨us, vs, _, o, rfl, ⟨t, ht, rfl⟩, ho, rfl⟩, hu, rfl⟩
  intro s
  have hpiece := piece_parentheses (s := s) ht ho hu
  simpa only [map_toList, Delimited.trivia] using hpiece

/-- A list between angle brackets. -/
theorem reads_angled {node : α → Node} {p : Parser α} {bound : Nat}
    (hp : Reads p fun xs a => Reading false (node a) xs) :
    Reads (delimited bound less p greater) fun xs d => IsDelimited "<" ">" node xs d := by
  have hopen : Reads less (IsMark '<') := reads_delimiter rfl
  have hclose : Reads greater (IsMark '>') := reads_delimiter rfl
  apply (((hopen.map _).seq (reads_elements hp)).seq hclose).mono
  rintro xs d ⟨_, ws, _, u, rfl, ⟨us, vs, _, o, rfl, ⟨t, ht, rfl⟩, ho, rfl⟩, hu, rfl⟩
  intro s
  have hless : Piece s (spaced t "<") [] [t] us := by
    cases s <;> exact ht.piece rfl rfl rfl
  have hgreater : Piece s (spaced u ">") [] [u] ws := by
    cases s <;> exact hu.piece rfl rfl rfl
  refine ((hless.append ho.weaken).append hgreater).congr rfl ?_ ?_
  · intro n hn
    rw [map_toList] at hn
    simpa using hn
  · intro v hv
    simp only [Delimited.trivia, List.mem_cons] at hv
    simp only [List.mem_append, List.mem_singleton]
    rcases hv with hv | hv | hv
    · exact Or.inl (Or.inl hv)
    · exact Or.inr hv
    · exact Or.inl (Or.inr hv)

end Grammar

end LosslessJava
