import LosslessJava.Proofs.Lossless

/-!
# Leads and trimmed prints

The lead of a node is exactly what stands in front of its first token, and a trimmed print is
exactly what is left without the lead and a final semicolon.

* `Crisp` bodies: steps from a token to a token write a text that starts with no white space and no
  comment and ends with neither white space nor a semicolon.
* `PrintsOwn`: what this means for the two prints of a node.
* `printsOwn_of_parsed`: it holds of every statement, member, import, class and expression in a
  parsed tree.
-/

namespace LosslessJava

open Step

/-! ## The text of whole nodes -/

theorem Begins.exists_token {ss : List Step} (h : Begins ss) :
    ∃ gaps s rest, ss = gaps ++ .token s :: rest ∧ (∀ g ∈ gaps, g = .trivia .empty) ∧
      Crisp s.toList := by
  induction h with
  | @token s ss hs => exact ⟨[], s, ss, rfl, by simp, hs⟩
  | skip _ ih =>
    obtain ⟨gaps, s, rest, rfl, hgaps, hs⟩ := ih
    refine ⟨.trivia .empty :: gaps, s, rest, rfl, ?_, hs⟩
    intro g hg
    rcases List.mem_cons.mp hg with rfl | hg
    · rfl
    · exact hgaps g hg

theorem text_gaps {gaps : List Step} (h : ∀ g ∈ gaps, g = .trivia .empty) : text gaps = [] := by
  induction gaps with
  | nil => rfl
  | cons g gaps ih =>
    rw [text_cons, h g List.mem_cons_self, ih fun k hk => h k (List.mem_cons_of_mem _ hk)]
    rfl

/-- The last token is still there without the steps in front of the first one. -/
theorem closes_of_append {gaps ss : List Step} (h : Closes (gaps ++ ss)) (hss : ss ≠ []) :
    Closes ss := by
  obtain ⟨init, s, heq, hs⟩ := h
  refine ⟨ss.dropLast, s, ?_, hs⟩
  have hlast := congrArg List.getLast? heq
  rw [List.getLast?_append, List.getLast?_append, List.getLast?_eq_some_getLast hss] at hlast
  have : ss.getLast hss = .token s := by simpa using hlast
  rw [← this, List.dropLast_concat_getLast hss]

theorem crisp_text {s : String} {ss : List Step} (hs : Crisp s.toList)
    (hc : Closes (.token s :: ss)) : Crisp (text (.token s :: ss)) := by
  obtain ⟨init, last, heq, hlast⟩ := hc
  constructor
  · obtain ⟨c, ds, hcs, hfirst⟩ := hs.first
    refine ⟨c, ds ++ text ss, ?_, hfirst⟩
    rw [text_cons, chars, hcs, List.cons_append]
  · obtain ⟨ds, c, hcs, hend⟩ := hlast.last
    refine ⟨text init ++ ds, c, ?_, hend⟩
    rw [heq, text_append]
    simp [chars, hcs]

theorem Crisp.ne_nil {cs : List Char} (h : Crisp cs) : cs ≠ [] := by
  obtain ⟨c, ds, rfl, -⟩ := h.first
  exact List.cons_ne_nil c ds

theorem Crisp.dropTrailingBlanks {cs : List Char} (h : Crisp cs) :
    LosslessJava.dropTrailingBlanks cs = cs := by
  obtain ⟨ds, c, rfl, hc, -⟩ := h.last
  exact dropTrailingBlanks_of_last hc

/-- The body of a whole node: what it writes behind any lead. -/
theorem exists_body {rest : List Step} (hb : Begins rest) (hc : Closes rest) :
    ∃ body, Crisp body ∧ ∀ t, text (.trivia t :: rest) = t.toList ++ body ∧
      render .trimmed (.trivia t :: rest) = String.ofList body ∧
      ∀ u, render .trimmed (.trivia t :: rest ++ [.terminator u]) = String.ofList body := by
  obtain ⟨gaps, s, ss, rfl, hgaps, hs⟩ := hb.exists_token
  have hclose := closes_of_append hc (List.cons_ne_nil _ _)
  have hbody := crisp_text hs hclose
  have hsne : s ≠ "" := by
    rintro rfl
    exact hs.ne_nil rfl
  refine ⟨_, hbody, fun t => ?_⟩
  have hfront : ∀ g ∈ Step.trivia t :: gaps, ∃ v, g = .trivia v := by
    intro g hg
    rcases List.mem_cons.mp hg with rfl | hg
    · exact ⟨t, rfl⟩
    · exact ⟨_, hgaps g hg⟩
  refine ⟨?_, ?_, fun u => ?_⟩
  · rw [text_cons, text_append, text_gaps hgaps]
    rfl
  · obtain ⟨init, last, heq, hlast⟩ := hclose
    have hlne : last ≠ "" := by
      rintro rfl
      exact hlast.ne_nil rfl
    have := render_trimmed_token hfront hsne hlne heq
    rwa [hbody.dropTrailingBlanks] at this
  · have := @render_trimmed_terminator _ ss hfront _ hsne u
    rwa [hbody.dropTrailingBlanks] at this

/-! ## Other leads -/

/-- The steps start with the lead, and `f` puts other leads in its place. -/
def Releads (lead : Trivia) (steps : List Step) (f : Trivia → List Step) : Prop :=
  (∃ rest, steps = .trivia lead :: rest ∧ ∀ t, f t = .trivia t :: rest) ∨
    steps = [.terminator lead] ∧ ∀ t, f t = [.terminator t]

theorem Expression.releads (e : Expression) :
    Releads e.lead e.steps fun t => (e.withLead t).steps :=
  Or.inl e.exists_steps

theorem VariableDeclarations.releads (d : VariableDeclarations) :
    Releads d.lead d.steps fun t => (d.withLead t).steps := by
  obtain ⟨lead, modifiers, type, declared, terminator⟩ := d
  exact Or.inl ⟨_, rfl, fun _ => rfl⟩

theorem ClassDeclaration.releads (c : ClassDeclaration) :
    Releads c.lead c.steps fun t => (c.withLead t).steps := by
  obtain ⟨lead, modifiers, kindLead, kind, name, superclasses, interfaces, body, type⟩ := c
  exact Or.inl ⟨_, rfl, fun _ => rfl⟩

theorem MethodDeclaration.releads (m : MethodDeclaration) :
    Releads m.lead m.steps fun t => MethodDeclaration.steps { m with lead := t } := by
  obtain ⟨lead, ms, type, name, ⟨before, elements, close⟩, throws, ending⟩ := m
  exact Or.inl ⟨_, rfl, fun _ => rfl⟩

theorem Import.releads (i : Import) : Releads i.lead i.steps fun t => (i.withLead t).steps :=
  Or.inl ⟨_, rfl, fun _ => rfl⟩

theorem Statement.releads (s : Statement) :
    Releads s.lead s.steps fun t => (s.withLead t).steps := by
  cases s with
  | block b =>
    obtain ⟨lead, statements, close⟩ := b
    exact Or.inl ⟨_, rfl, fun _ => rfl⟩
  | ret r =>
    obtain ⟨lead, value, terminator⟩ := r
    cases value <;> exact Or.inl ⟨_, rfl, fun _ => rfl⟩
  | declaration d => exact d.releads
  | empty t => exact Or.inr ⟨rfl, fun _ => rfl⟩
  | _ => exact Or.inl ⟨_, rfl, fun _ => rfl⟩

theorem Member.releads (m : Member) :
    Releads m.lead m.steps fun t => (m.withLead t).steps := by
  cases m with
  | field d => exact d.releads
  | method m => exact m.releads
  | nested c => exact c.releads
  | empty t => exact Or.inr ⟨rfl, fun _ => rfl⟩

/-! ## Prints of nodes -/

/-- The lead of a node is what stands in front of it, and its trimmed print is what is left without
the lead and without a final semicolon and its trivia. -/
structure PrintsOwn {α : Type} [Printable α] (lead : Trivia) (withLead : Trivia → α) (a : α) :
    Prop where
  split : ∃ tail, (print a).toList = lead.toList ++ (printTrimmed a).toList ++ tail ∧
    (tail ≠ [] ↔ ∃ front, (print a).toList = front ++ [';']) ∧
    (tail ≠ [] → ∃ gap, Lex.IsGap false gap ∧ tail = gap ++ [';'])
  first : ∀ c cs, (printTrimmed a).toList = c :: cs → isBlank c = false
  last : ∀ c cs, (printTrimmed a).toList = cs ++ [c] → isBlank c = false
  no_lineComment : ¬ ['/', '/'] <+: (printTrimmed a).toList
  no_blockComment : ¬ ['/', '*'] <+: (printTrimmed a).toList
  print_withLead : ∀ t, ∃ rest, (print a).toList = lead.toList ++ rest ∧
    (print (withLead t)).toList = t.toList ++ rest
  printTrimmed_withLead : ∀ t, printTrimmed (withLead t) = printTrimmed a

theorem Crisp.not_prefix {cs : List Char} (h : Crisp cs) (c : Char) : ¬ ['/', c] <+: cs := by
  rintro ⟨rest, rfl⟩
  obtain ⟨d, ds, heq, -, hd⟩ := h.first
  cases heq
  exact hd rfl

/-- The prints of a node whose trimmed print is crisp. -/
theorem printsOwn_of_crisp {α : Type} [Printable α] {lead : Trivia} {withLead : Trivia → α} {a : α}
    {body tail : List Char} (hbody : Crisp body)
    (hprint : (print a).toList = lead.toList ++ body ++ tail)
    (hprints : ∀ t, (print (withLead t)).toList = t.toList ++ body ++ tail)
    (htrimmed : printTrimmed a = String.ofList body)
    (htrimmeds : ∀ t, printTrimmed (withLead t) = String.ofList body)
    (htail : tail = [] ∨ ∃ gap, Lex.IsGap false gap ∧ tail = gap ++ [';']) :
    PrintsOwn lead withLead a := by
  have hlist : (printTrimmed a).toList = body := by rw [htrimmed, String.toList_ofList]
  have hends : tail ≠ [] ↔ ∃ front, (print a).toList = front ++ [';'] := by
    rw [hprint]
    rcases htail with rfl | ⟨gap, -, rfl⟩
    · simp only [ne_eq, not_true_eq_false, List.append_nil, false_iff, not_exists]
      intro front h
      obtain ⟨ds, c, rfl, -, hc⟩ := hbody.last
      rw [← List.append_assoc] at h
      exact hc (List.append_singleton_inj.mp h).2
    · simp only [ne_eq, List.append_eq_nil_iff, List.cons_ne_self, and_false, not_false_eq_true,
        true_iff]
      exact ⟨lead.toList ++ body ++ gap, by simp⟩
  constructor
  · exact ⟨tail, by rw [hlist, hprint], hends, fun hne => htail.resolve_left hne⟩
  · intro c cs h
    rw [hlist] at h
    obtain ⟨d, ds, rfl, hd, -⟩ := hbody.first
    cases h
    exact hd
  · intro c cs h
    rw [hlist] at h
    obtain ⟨ds, d, rfl, hd, -⟩ := hbody.last
    rw [← (List.append_singleton_inj.mp h).2]
    exact hd
  · rw [hlist]
    exact hbody.not_prefix '/'
  · rw [hlist]
    exact hbody.not_prefix '*'
  · intro t
    exact ⟨body ++ tail, by rw [hprint, List.append_assoc], by rw [hprints t, List.append_assoc]⟩
  · intro t
    rw [htrimmeds t, htrimmed]

/-- The prints of a lone semicolon. -/
theorem printsOwn_of_lone {α : Type} [Printable α] {lead : Trivia} {withLead : Trivia → α} {a : α}
    (ha : Printable.steps a = [.terminator lead])
    (hwith : ∀ t, Printable.steps (withLead t) = [.terminator t]) : PrintsOwn lead withLead a := by
  have hlist : printTrimmed a = "" := by rw [printTrimmed, ha, render_trimmed_lone]
  have hprint : (print a).toList = lead.toList ++ [';'] := by
    rw [toList_print, ha]
    simp [chars]
  have hprints : ∀ t, (print (withLead t)).toList = t.toList ++ [';'] := by
    intro t
    rw [toList_print, hwith t]
    simp [chars]
  constructor
  · refine ⟨[';'], by rw [hprint, hlist]; simp, ?_, fun _ => ⟨[], .nil, rfl⟩⟩
    exact ⟨fun _ => ⟨lead.toList, hprint⟩, fun _ => List.cons_ne_nil _ _⟩
  · intro c cs h
    rw [hlist] at h
    cases h
  · intro c cs h
    rw [hlist] at h
    exact absurd h.symm (by simp)
  · rw [hlist]
    simp
  · rw [hlist]
    simp
  · intro t
    exact ⟨[';'], hprint, hprints t⟩
  · intro t
    rw [hlist, printTrimmed, hwith t, render_trimmed_lone]

/-- The prints of a node with the shape of a statement. -/
theorem printsOwn_of_framed {α : Type} [Printable α] {lead : Trivia} {withLead : Trivia → α} {a : α}
    (h : Framed lead (Printable.steps a))
    (hwith : Releads lead (Printable.steps a) fun t => Printable.steps (withLead t)) :
    PrintsOwn lead withLead a := by
  rcases hwith with ⟨rest, hrest, hwith⟩ | ⟨hlone, hwith⟩
  · have hwith : ∀ t, Printable.steps (withLead t) = .trivia t :: rest := hwith
    cases h with
    | whole h =>
      obtain ⟨rest', heq, hb, hc⟩ := h
      rw [heq] at hrest
      obtain rfl : rest' = rest := (List.cons.inj hrest).2
      obtain ⟨body, hbody, hboth⟩ := exists_body hb hc
      refine @printsOwn_of_crisp _ _ _ _ _ _ [] hbody ?_ (fun t => ?_) ?_ (fun t => ?_) (Or.inl rfl)
      · rw [toList_print, heq, (hboth lead).1, List.append_nil]
      · rw [toList_print, hwith t, (hboth t).1, List.append_nil]
      · rw [printTrimmed, heq, (hboth lead).2.1]
      · rw [printTrimmed, hwith t, (hboth t).2.1]
    | @ended front u h heq hu =>
      obtain ⟨front, rfl, hb, hc⟩ := h
      rw [heq] at hrest
      obtain rfl : rest = front ++ [.terminator u] := (List.cons.inj hrest).2.symm
      obtain ⟨body, hbody, hboth⟩ := exists_body hb hc
      refine @printsOwn_of_crisp _ _ _ _ _ _ (u.toList ++ [';']) hbody ?_ (fun t => ?_) ?_
        (fun t => ?_) (Or.inr ⟨_, hu, rfl⟩)
      · rw [toList_print, heq, text_append, (hboth lead).1]
        simp [chars]
      · rw [toList_print, hwith t, ← List.cons_append, text_append, (hboth t).1]
        simp [chars]
      · rw [printTrimmed, heq, (hboth lead).2.2 u]
      · rw [printTrimmed, hwith t, ← List.cons_append, (hboth t).2.2 u]
    | lone heq _ =>
      rw [heq] at hrest
      cases hrest
  · exact printsOwn_of_lone hlone hwith

/-- In a parsed tree every statement, member, import, class and expression owns its lead, and its
trimmed print is exact. -/
theorem printsOwn_of_parsed {root : Node} (h : Parsed root) :
    (∀ s : Statement, Node.Within (.statement s) root → PrintsOwn s.lead (s.withLead ·) s) ∧
    (∀ m : Member, Node.Within (.member m) root → PrintsOwn m.lead (m.withLead ·) m) ∧
    (∀ i : Import, Node.Within (.importDeclaration i) root → PrintsOwn i.lead (i.withLead ·) i) ∧
    (∀ c : ClassDeclaration, Node.Within (.classDeclaration c) root →
      PrintsOwn c.lead (c.withLead ·) c) ∧
    (∀ e : Expression, Node.Within (.expression e) root → PrintsOwn e.lead (e.withLead ·) e) := by
  have hshaped := fun n hn => (h.all_tidy n hn).shaped
  refine ⟨?_, ?_, ?_, ?_, ?_⟩
  · intro s hs
    exact printsOwn_of_framed (hshaped _ hs) s.releads
  · intro m hm
    exact printsOwn_of_framed (hshaped _ hm) m.releads
  · intro i hi
    exact printsOwn_of_framed (hshaped _ hi) i.releads
  · intro c hc
    exact printsOwn_of_framed (.whole (hshaped _ hc)) c.releads
  · intro e he
    exact printsOwn_of_framed (.whole (hshaped _ he)) e.releads

/-- An expression statement with a comment in front of it and of its semicolon. -/
theorem printsOwn_of_parsed_call : ∃ s, parseStatement "// c\n f( x ) /* d */ ;" = .ok s ∧
    PrintsOwn s.lead (s.withLead ·) s := by
  obtain ⟨s, h, -⟩ := exists_ok (p := fun _ => true)
    (x := parseStatement "// c\n f( x ) /* d */ ;") (by decide +kernel)
  exact ⟨s, h, (printsOwn_of_parsed (.statement h)).1 s (.refl _)⟩

end LosslessJava
