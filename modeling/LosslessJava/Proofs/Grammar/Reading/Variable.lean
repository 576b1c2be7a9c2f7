import LosslessJava.Proofs.Grammar.Lead
import LosslessJava.Proofs.Grammar.Reading.Expression

/-!
# Readings of modifiers and variables

A declaration takes the trivia off its first token before it reads its first part, which is a
modifier, a type, a keyword or a name. So that part has an empty lead (`Heads.begins`).
-/

namespace LosslessJava.Grammar

open Step LosslessJava.Grammar.Parser

variable {r : Rules}

/-! ## The first part of a declaration -/

/-- The lexemes and the steps start with the same trivia, and with a token behind it. -/
structure Heads (t : Trivia) (xs : List Lexeme) (steps : List Step) : Prop where
  opens : Opens t xs
  begins : ∃ rest, steps = .trivia t :: rest ∧ Begins rest

namespace Heads

variable {t : Trivia} {xs : List Lexeme} {steps : List Step}

theorem append (h : Heads t xs steps) (ys : List Lexeme) (ss : List Step) :
    Heads t (xs ++ ys) (steps ++ ss) := by
  obtain ⟨rest, rfl, hb⟩ := h.begins
  exact ⟨h.opens.append ys, rest ++ ss, rfl, hb.append ss⟩

/-- Behind a lead that was taken off, the steps begin with a token. -/
theorem begins_of_bare {l : Lexeme} {ls : List Lexeme} (h : Heads t (l.bare :: ls) steps) :
    Begins steps ∧ Opens l.lead (l :: ls) := by
  obtain ⟨rest, rfl, hb⟩ := h.begins
  obtain ⟨m, ms, heq, hlead, hopens⟩ := h.opens
  cases heq
  have ht : t = .empty := hlead.symm
  exact ⟨ht ▸ .skip hb, l, ls, rfl, rfl, hopens⟩

end Heads

theorem Reading.heads {s : Bool} {n : Node} {xs : List Lexeme} (h : Reading s n xs)
    (hf : n.form = .whole) : Heads n.lead xs n.steps := by
  have hs := h.shaped
  rw [Node.Shaped, hf] at hs
  obtain ⟨rest, heq, hb, -⟩ := hs
  exact ⟨h.opens, rest, heq, hb⟩

theorem IsKeyword.heads {w : String} {xs : List Lexeme} {t : Trivia} (h : IsKeyword w xs t)
    (hw : w ≠ "else") : Heads t xs (spaced t w) :=
  ⟨h.opens hw, [.token w], rfl, .token h.crisp⟩

/-- A piece behind a lead that was taken off. -/
theorem Piece.lead {s : Bool} {steps : List Step} {nodes : List Node} {gaps : List Trivia}
    {l : Lexeme} {ls : List Lexeme} (h : Piece s steps nodes gaps (l.bare :: ls)) (hl : l.Legal) :
    Piece s (.trivia l.lead :: steps) nodes (l.lead :: gaps) (l :: ls) := by
  have hfinish : l.token ≠ .finish := h.phrase.ne_finish
  refine ⟨?_, h.nodes, ?_, h.phrase.of_tokens rfl⟩
  · have ht := h.text
    simp only [Lexeme.textOf_cons, Lexeme.bare, Lexeme.toList, Trivia.toList_empty,
      List.nil_append] at ht
    simp only [Lexeme.textOf_cons, Lexeme.toList, text_cons, chars, List.append_assoc, ht]
  · intro t ht
    rcases List.mem_cons.mp ht with rfl | ht
    · exact hl.gap hfinish
    · exact h.gaps t ht

/-- The front of a declaration, behind a lead that was taken off. -/
structure IsFront (s : Bool) (steps : List Step) (nodes : List Node) (gaps : List Trivia)
    (xs : List Lexeme) : Prop where
  piece : Piece s steps nodes gaps xs
  heads : ∃ u, Heads u xs steps
  closes : Closes steps

namespace IsFront

variable {s : Bool} {steps : List Step} {nodes : List Node} {gaps : List Trivia}
  {xs ys zs ls : List Lexeme} {l : Lexeme}

theorem ne_nil (h : IsFront s steps nodes gaps xs) : xs ≠ [] := by
  obtain ⟨u, hu⟩ := h.heads
  exact hu.opens.ne_nil

/-- The first lexeme is that of the front. -/
theorem exists_cons (h : IsFront s steps nodes gaps ys) (heq : l :: xs = ys ++ zs) :
    ∃ us, ys = l :: us ∧ xs = us ++ zs := by
  cases ys with
  | nil => exact absurd rfl h.ne_nil
  | cons m us =>
    obtain ⟨rfl, rfl⟩ := List.cons.inj heq
    exact ⟨us, rfl, rfl⟩

theorem whole (h : IsFront s steps nodes gaps (l.bare :: ls)) :
    Whole l.lead (.trivia l.lead :: steps) := by
  obtain ⟨u, hu⟩ := h.heads
  exact ⟨steps, rfl, hu.begins_of_bare.1, h.closes⟩

theorem opens (h : IsFront s steps nodes gaps (l.bare :: ls)) : Opens l.lead (l :: ls) := by
  obtain ⟨u, hu⟩ := h.heads
  exact hu.begins_of_bare.2

/-- A further part. -/
theorem append {steps' : List Step} {nodes' : List Node} {gaps' : List Trivia}
    (h : IsFront s steps nodes gaps xs) (hy : Piece s steps' nodes' gaps' ys)
    (hc : steps' = [] ∨ Closes steps') :
    IsFront s (steps ++ steps') (nodes ++ nodes') (gaps ++ gaps') (xs ++ ys) := by
  refine ⟨h.piece.append hy, ?_, ?_⟩
  · obtain ⟨u, hu⟩ := h.heads
    exact ⟨u, hu.append ys steps'⟩
  · rcases hc with rfl | hc
    · rw [List.append_nil]
      exact h.closes
    · exact hc.append steps

end IsFront

/-! ## Modifiers -/

theorem steps_annotated (lead nameLead : Trivia) (name : QualifiedName)
    (o : Option (Delimited Expression)) :
    (Node.modifier (.annotated lead nameLead name o none)).steps =
      spaced lead "@" ++ spaced nameLead name.text ++ (o.map fun d => spaced d.before "(" ++
        Padded.steps (fun e => (Node.expression e).steps) d.elements ++ spaced d.close ")").getD
        [] := by
  cases o with
  | none => simp [Node.steps, Modifier.steps]
  | some d =>
    obtain ⟨before, elements, close⟩ := d
    simp [Node.steps, Modifier.steps, Expression.listSteps_eq]

theorem reads_annotationUse (hr : r.Sound) :
    Reads (annotationUse r) fun xs m => Reading false (.modifier m) xs := by
  have hat : Reads at_ (IsMark '@') := reads_delimiter rfl
  apply ((((hat.map _).seq reads_qualifiedName).seq (reads_arguments hr).optional).named
    .annotationUse).mono
  rintro xs m ⟨_, zs, _, o, rfl, ⟨xs, ys, _, ⟨nameLead, name⟩, rfl, ⟨t, ht, rfl⟩, hn, rfl⟩, ho,
    rfl⟩
  have hmark : Piece false (spaced t "@") [] [t] xs := ht.piece rfl rfl rfl
  have hopens := ((ht.opens rfl).append ys).append zs
  have hwhole : Whole t (spaced t "@" ++ spaced nameLead name.text) :=
    (Whole.spaced (crisp_delimiter "@" (by decide)) t).append (closes_spaced hn.crisp nameLead)
  cases ho with
  | none =>
    refine .of_piece ((hmark.append (hn.piece false)).append .nil) ?_ ?_ ?_ ?_ hopens
    · rw [steps_annotated]
      rfl
    · simp [Node.children, Modifier.children, Delimited.optionalList]
    · simp [Node.trivia, Modifier.trivia, Delimited.optionalTrivia]
    · show Whole t (Node.steps _)
      rw [steps_annotated]
      exact hwhole.append_optional (Or.inl rfl)
  | @some _ d hd =>
    refine .of_piece ((hmark.append (hn.piece false)).append (hd false)) ?_ ?_ ?_ ?_ hopens
    · rw [steps_annotated]
      rfl
    · simp [Node.children, Modifier.children, Delimited.optionalList]
    · simp [Node.trivia, Modifier.trivia, Delimited.optionalTrivia]
    · show Whole t (Node.steps _)
      rw [steps_annotated]
      exact hwhole.append_optional (Or.inr (closes_arguments d _))

theorem reads_modifierWord :
    Reads modifierWord fun xs m => Reading false (.modifier m) xs := by
  apply (reads_wordOf.map _).mono
  rintro xs m ⟨⟨t, k⟩, ⟨w, hw, hk⟩, rfl⟩
  obtain rfl : w = k.keyword := keyword_of_find hk
  have hne : k.keyword ≠ "else" := by cases k <;> decide
  exact .of_piece (hw.piece false) rfl (by simp [Node.children, Modifier.children])
    (by simp [Node.trivia, Modifier.trivia]) (Whole.spaced hw.crisp t) (hw.opens hne)

/-- The lexemes are the modifiers. -/
abbrev IsModifiers : List Lexeme → List Modifier → Prop :=
  Several fun xs m => Reading false (.modifier m) xs

theorem reads_modifiers (hr : r.Sound) : Reads (modifiers r) IsModifiers :=
  ((reads_annotationUse hr).orElse reads_modifierWord).many r.bound

theorem IsModifiers.piece {xs : List Lexeme} {ms : List Modifier} (h : IsModifiers xs ms) :
    Piece false (Modifier.listSteps ms) (ms.map .modifier) [] xs := by
  rw [Modifier.listSteps_eq]
  exact piece_several .modifier (fun _ _ h => h) h

/-- Modifiers and the part behind them. -/
theorem IsModifiers.heads {xs ys : List Lexeme} {ms : List Modifier} {t : Trivia}
    {steps : List Step} (h : IsModifiers xs ms) (hy : Heads t ys steps) :
    ∃ u, Heads u (xs ++ ys) (Modifier.listSteps ms ++ steps) := by
  cases h with
  | nil => exact ⟨t, hy⟩
  | @cons us vs m ms hm hms =>
    have := ((hm.heads rfl).append vs (Modifier.listSteps ms)).append ys steps
    exact ⟨_, this⟩

/-! ## Variables -/

theorem reads_initializer (hr : r.Sound) :
    Reads (initializer r) fun xs i => Reading false (.initializer i) xs := by
  have hequals : Reads equals (IsSymbol "=") := reads_symbol
  apply ((hequals.map _).seq hr.expression).mono
  rintro xs i ⟨ys, zs, _, e, rfl, ⟨t, ht, rfl⟩, he, rfl⟩
  have hcrisp : Crisp "=".toList := crisp_singleton rfl (by decide) (by decide)
  have hopens : Opens t (ys ++ zs) := by
    obtain ⟨rfl, -⟩ := ht
    exact ⟨_, _, rfl, rfl, rfl⟩
  exact .of_piece (ht.append (by decide) he.piece he.opens) rfl (by simp [Node.children])
    (by simp [Node.trivia]) (Whole.spaced_append hcrisp t he.closes) hopens

theorem steps_namedVariable (lead : Trivia) (name : Identifier) (ds : List Dimension)
    (o : Option Initializer) :
    (Node.namedVariable ⟨lead, name, ds, o, none⟩).steps =
      (.trivia lead :: name.steps) ++ ds.flatMap Dimension.steps ++
        (o.map fun i => (Node.initializer i).steps).getD [] := by
  cases o with
  | none => simp [Node.steps, NamedVariable.steps]
  | some i =>
    obtain ⟨lead', value⟩ := i
    simp [Node.steps, NamedVariable.steps]

/-- A name that gives its lead to its parent. -/
theorem IsName.barePiece {xs : List Lexeme} {i : Identifier} (h : IsName xs i) (s : Bool) :
    Piece s (.trivia i.lead :: (i.withLead .empty).steps) [.identifier (i.withLead .empty)]
      [i.lead] xs := by
  refine ⟨?_, ?_, by simpa using h.gap, h.isKeyword.phrase s⟩
  · rw [(h.isKeyword.piece false).text]
    simp [spaced, chars, Identifier.steps, Identifier.withLead]
  · intro n hn
    rw [List.mem_singleton.mp hn]
    exact h.all_tidy .nil

theorem IsName.whole_bare {xs : List Lexeme} {i : Identifier} (h : IsName xs i) :
    Whole i.lead (.trivia i.lead :: (i.withLead .empty).steps) :=
  (Whole.spaced h.isKeyword.crisp .empty).cons i.lead

theorem reads_variableDeclarator (hr : r.Sound) :
    Reads (variableDeclarator r) fun xs v => Reading false (.namedVariable v) xs := by
  apply ((((reads_identifier.map _).seq (reads_dimensions false r.bound)).seq
    (reads_initializer hr).optional).named .variableDeclarator).mono
  rintro xs v ⟨_, zs, _, o, rfl, ⟨xs, ys, _, ds, rfl, ⟨i, hi, rfl⟩, hds, rfl⟩, ho, rfl⟩
  have hinit := piece_perhaps .initializer (fun _ _ h => h) ho
  refine .of_piece (((hi.barePiece false).append hds).append hinit) ?_ ?_ ?_ ?_
    ((hi.opens.append ys).append zs)
  · rw [steps_namedVariable]
  · simp [Node.children]
  · simp [Node.trivia]
  · show Whole i.lead (Node.steps _)
    rw [steps_namedVariable]
    refine (hi.whole_bare.append_optional (closes_dimensions ds)).append_optional ?_
    cases ho with
    | none => exact Or.inl rfl
    | some hi => exact Or.inr (Whole.closes hi.shaped)

/-! ## Declarations -/

theorem piece_semicolon {xs : List Lexeme} {t : Trivia} (h : IsMark ';' xs t) :
    Piece true [.terminator t] [] [t] xs := by
  obtain ⟨rfl, ht⟩ := h
  refine ⟨?_, by simp, by simpa using ht, .single rfl rfl⟩
  simp [Lexeme.toList, Token.toList, chars]

theorem ended_semicolon {xs : List Lexeme} {t : Trivia} (h : IsMark ';' xs t) : Ended xs :=
  ⟨[], t, ';', h.1, Or.inl rfl⟩

theorem reads_semicolon : Reads semicolon (IsMark ';') := reads_delimiter rfl

/-- Modifiers, a type and variables are the front of a declaration. -/
theorem isFront_declared {xs ys zs : List Lexeme} {ms : List Modifier} {t : TypeTree}
    {ps : List (Padded NamedVariable)} (hms : IsModifiers xs ms)
    (ht : Reading false (.typeTree t) ys) (hps : IsList .namedVariable zs ps) (hne : ps ≠ []) :
    IsFront false (Modifier.listSteps ms ++ t.steps ++ NamedVariable.listSteps ps)
      (ms.map .modifier ++ .typeTree t :: ps.map fun p => .namedVariable p.element)
      (Padded.commas ps) (xs ++ ys ++ zs) := by
  rw [NamedVariable.listSteps_eq]
  refine ⟨?_, ?_, (hps.closes hne fun _ => rfl).append _⟩
  · have hpiece := (hms.piece.append ht.piece).append hps
    simpa [Node.steps] using hpiece
  · obtain ⟨u, hu⟩ := hms.heads (ht.heads rfl)
    exact ⟨u, hu.append zs _⟩

/-- The lexemes are the declaration without its lead and its terminator. -/
def IsDeclared (xs : List Lexeme) (d : VariableDeclarations) : Prop :=
  IsFront false (Modifier.listSteps d.modifiers ++ d.type.steps ++
    NamedVariable.listSteps d.declared) (Node.declarations d).children (Padded.commas d.declared) xs

theorem reads_variableDeclarations (hr : r.Sound) :
    Reads (variableDeclarations r) fun xs d => Reading true (.declarations d) xs ∧ Ended xs := by
  have hparts : ∀ t, Reads (declaredBehind r t <*> (some <$> semicolon)) fun xs d =>
      ∃ ys zs u, xs = ys ++ zs ∧ IsDeclared ys d ∧ IsMark ';' zs u ∧ d.lead = t ∧
        d.terminator = some u := by
    intro t
    apply (((((reads_modifiers hr).map _).seq (reads_typeReference hr)).seq
      (reads_separated (reads_variableDeclarator hr))).seq (reads_semicolon.map some)).mono
    rintro xs d ⟨_, ws, _, _, rfl, ⟨_, zs, _, ps, rfl, ⟨xs, ys, _, type, rfl, ⟨ms, hms, rfl⟩, ht,
      rfl⟩, ⟨hps, hne⟩, rfl⟩, ⟨u, hu, rfl⟩, rfl⟩
    exact ⟨_, ws, u, rfl, isFront_declared hms ht hps hne, hu, rfl, rfl⟩
  refine ((takesLead_variableDeclarations r).reads hparts ?_).mono ?_
  · rintro t d ⟨ys, zs, u, heq, -, ⟨rfl, -⟩, -⟩
    exact absurd heq.symm (by simp)
  · rintro xs d ⟨l, ls, rfl, hl, ys, zs, u, heq, hd, hu, hlead, hend⟩
    obtain ⟨us, rfl, rfl⟩ := hd.exists_cons heq
    obtain ⟨lead, ms, type, ps, terminator⟩ := d
    obtain rfl : lead = l.lead := hlead
    obtain rfl : terminator = some u := hend
    refine ⟨?_, (ended_semicolon hu).append (l :: us)⟩
    refine .of_piece ((hd.piece.lead hl).weaken.append (piece_semicolon hu)) ?_ ?_ ?_ ?_ ?_
    · simp [Node.steps, VariableDeclarations.steps]
    · simp
    · intro t ht
      simp only [Node.trivia, Option.toList_some, List.cons_append, List.nil_append,
        List.mem_cons] at ht
      simp only [List.mem_append, List.mem_cons, List.not_mem_nil, or_false]
      rcases ht with ht | ht | ht
      · exact Or.inl (Or.inl ht)
      · exact Or.inr ht
      · exact Or.inl (Or.inr ht)
    · refine .ended hd.whole ?_ hu.2
      simp [Node.steps, VariableDeclarations.steps]
    · exact hd.opens.append zs

theorem reads_formalParameter (hr : r.Sound) :
    Reads (formalParameter r) fun xs d => Reading false (.declarations d) xs := by
  have hparts : ∀ t, Reads (parameterBehind r t) fun xs d =>
      IsDeclared xs d ∧ d.lead = t ∧ d.terminator = none := by
    intro t
    apply ((((reads_modifiers hr).map _).seq (reads_typeReference hr)).seq
      (reads_variableDeclarator hr)).mono
    rintro xs d ⟨_, zs, _, v, rfl, ⟨xs, ys, _, type, rfl, ⟨ms, hms, rfl⟩, ht, rfl⟩, hv, rfl⟩
    have hlist := @isList_padded _ _ _ _ _ [] hv .nil
    rw [List.append_nil] at hlist
    exact ⟨isFront_declared hms ht hlist (by simp), rfl, rfl⟩
  refine ((takesLead_formalParameter r).reads hparts ?_).mono ?_
  · rintro t d ⟨hd, -⟩
    exact hd.ne_nil rfl
  · rintro xs d ⟨l, ls, rfl, hl, hd, hlead, hend⟩
    obtain ⟨lead, ms, type, ps, terminator⟩ := d
    obtain rfl : lead = l.lead := hlead
    obtain rfl : terminator = none := hend
    refine .of_piece (hd.piece.lead hl) ?_ ?_ ?_ ?_ ?_
    · simp [Node.steps, VariableDeclarations.steps]
    · simp
    · simp [Node.trivia]
    · refine .whole ?_
      have := hd.whole
      simpa [Node.lead, Node.steps, VariableDeclarations.steps] using this
    · exact hd.opens

end LosslessJava.Grammar
