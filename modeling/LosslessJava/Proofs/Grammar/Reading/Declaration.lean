import LosslessJava.Grammar.Declaration
import LosslessJava.Proofs.Grammar.Reading.Statement

/-!
# Readings of declarations and units

* `reads_member`, `reads_classBody`, `reads_classDeclaration`: the rules read what they should.
* `reads_compilationUnit`: a unit prints as all of its text and is tidy.
-/

namespace LosslessJava.Grammar

open Step LosslessJava.Grammar.Parser

variable {r : Rules}

/-! ## Clauses of types -/

/-- The lexemes are the keyword and the types of a clause. -/
structure IsClause (w : String) (xs : List Lexeme) (l : TypeList) : Prop where
  piece : Piece false (spaced l.lead w ++ l.steps) [.typeList l] [] xs
  closes : Closes l.steps

theorem reads_typeClause (hr : r.Sound) {rule keywordRule : Rule} {w : String} :
    Reads (typeClause r rule keywordRule w) (IsClause w) := by
  apply (((reads_keyword.map _).seq (reads_separated (reads_typeReference hr))).named rule).mono
  rintro xs l ⟨ys, zs, _, ps, rfl, ⟨t, ht, rfl⟩, ⟨hps, hne⟩, rfl⟩
  have hsteps : TypeList.steps ⟨t, ps⟩ = Padded.steps (fun t => (Node.typeTree t).steps) ps :=
    TypeTree.listSteps_eq ps
  have hcloses : Closes (TypeList.steps ⟨t, ps⟩) := by
    rw [hsteps]
    exact hps.closes hne fun _ => rfl
  have hpiece := (ht.piece false).append hps
  refine ⟨⟨?_, ?_, by simp, hpiece.phrase⟩, hcloses⟩
  · rw [hsteps]
    exact hpiece.text
  · intro n hn
    rw [List.mem_singleton.mp hn]
    refine Node.all_iff.mpr ⟨⟨hcloses, ?_⟩, ?_⟩
    · intro u hu
      exact hpiece.gaps u (by simpa [Node.trivia] using hu)
    · intro k hk
      exact hpiece.nodes k (by simpa [Node.children] using hk)

/-- A clause that may be missing. -/
theorem piece_clause {w : String} {xs : List Lexeme} {o : Option TypeList}
    (h : Perhaps (IsClause w) xs o) :
    Piece false (TypeList.clauseSteps w o) (o.map Node.typeList).toList [] xs := by
  cases h with
  | none => exact .nil
  | some h => exact h.piece

theorem closes_clause {w : String} {xs : List Lexeme} {o : Option TypeList}
    (h : Perhaps (IsClause w) xs o) :
    TypeList.clauseSteps w o = [] ∨ Closes (TypeList.clauseSteps w o) := by
  cases h with
  | none => exact Or.inl rfl
  | some h => exact Or.inr (h.closes.append _)

/-! ## Methods -/

theorem reads_formalParameters (hr : r.Sound) :
    Reads (formalParameters r) fun xs d => IsDelimited "(" ")" .declarations xs d :=
  (reads_parenthesized (reads_formalParameter hr)).named .formalParameters

/-- The steps of a type that may be missing. -/
def optionalSteps : Option TypeTree → List Step
  | none => []
  | some t => t.steps

/-- Modifiers, the name of a method and the type in front of it. -/
theorem reads_methodName (hr : r.Sound) :
    Reads (methodName r) fun xs a => IsFront false (optionalSteps a.1 ++ a.2.steps)
      ((a.1.map Node.typeTree).toList ++ [.identifier a.2]) [] xs := by
  have htyped := ((reads_typeReference hr).map (some · , ·)).seq reads_identifier
  refine Reads.orElse (htyped.mono ?_) ((reads_identifier.map _).mono ?_)
  · rintro xs a ⟨ys, zs, _, i, rfl, ⟨t, ht, rfl⟩, hi, rfl⟩
    have hname := (hi.reading false).piece
    exact ⟨ht.piece.append hname, ⟨_, (ht.heads rfl).append zs _⟩,
      (closes_spaced hi.isKeyword.crisp i.lead).append _⟩
  · rintro xs a ⟨i, hi, rfl⟩
    have hname := hi.reading false
    exact ⟨hname.piece, ⟨_, hname.heads rfl⟩, closes_spaced hi.isKeyword.crisp i.lead⟩

/-- Modifiers in front of another part. -/
theorem IsModifiers.front {xs ys : List Lexeme} {ms : List Modifier} {steps : List Step}
    {nodes : List Node} {gaps : List Trivia} (h : IsModifiers xs ms)
    (hy : IsFront false steps nodes gaps ys) :
    IsFront false (Modifier.listSteps ms ++ steps) (ms.map .modifier ++ nodes) gaps (xs ++ ys) := by
  obtain ⟨u, hu⟩ := hy.heads
  exact ⟨h.piece.append hy.piece, h.heads hu, hy.closes.append _⟩

/-- The lexemes are the method without its lead and its ending. -/
def IsMethodFront (xs : List Lexeme) (m : MethodDeclaration) : Prop :=
  IsFront false
    (Modifier.listSteps m.modifiers ++ (optionalSteps m.returnType ++ m.name.steps) ++
      (spaced m.parameters.before "(" ++
        Padded.steps (fun d => (Node.declarations d).steps) m.parameters.elements ++
        spaced m.parameters.close ")") ++ TypeList.clauseSteps "throws" m.throws)
    (m.modifiers.map .modifier ++ ((m.returnType.map Node.typeTree).toList ++
      [.identifier m.name]) ++ m.parameters.toList.map .declarations ++
      (m.throws.map Node.typeList).toList)
    m.parameters.trivia xs

theorem steps_method (m : MethodDeclaration) : (Node.method m).steps =
    (.trivia m.lead :: (Modifier.listSteps m.modifiers ++
      (optionalSteps m.returnType ++ m.name.steps) ++
      (spaced m.parameters.before "(" ++
        Padded.steps (fun d => (Node.declarations d).steps) m.parameters.elements ++
        spaced m.parameters.close ")") ++ TypeList.clauseSteps "throws" m.throws)) ++
      m.ending.steps := by
  obtain ⟨lead, ms, type, name, ⟨before, elements, close⟩, throws, ending⟩ := m
  cases type <;>
    simp [Node.steps, MethodDeclaration.steps, optionalSteps, VariableDeclarations.listSteps_eq]

/-- The lexemes are the ending of a method. -/
inductive IsEnding : List Lexeme → MethodEnding → Prop
  | body {xs : List Lexeme} {b : Block} (h : Reading true (.block b) xs) : IsEnding xs (.body b)
  | terminator {xs : List Lexeme} {t : Trivia} (h : IsMark ';' xs t) : IsEnding xs (.terminator t)

theorem IsEnding.piece {xs : List Lexeme} {e : MethodEnding} (h : IsEnding xs e) :
    Piece true e.steps (e.block?.map Node.block).toList e.trivia xs := by
  cases h with
  | body h => exact h.piece
  | terminator h => exact piece_semicolon h

/-- The ending decides how the steps of a method end. -/
theorem IsEnding.framed {xs : List Lexeme} {e : MethodEnding} (h : IsEnding xs e) {t : Trivia}
    {steps : List Step} (hw : Whole t steps) : Framed t (steps ++ e.steps) := by
  cases h with
  | @body b h => exact .whole (hw.append (@Whole.closes b.lead _ h.shaped))
  | terminator h => exact .ended hw rfl h.2

theorem reads_methodDeclaration (hr : r.Sound) :
    Reads (methodDeclaration r) fun xs m => Reading true (.method m) xs := by
  have hending : Reads (MethodEnding.body <$> block r <|> MethodEnding.terminator <$> semicolon)
      IsEnding := by
    refine Reads.orElse (((reads_block hr).map _).mono ?_) ((reads_semicolon.map _).mono ?_)
    · rintro xs e ⟨b, hb, rfl⟩
      exact .body (hb.1 true)
    · rintro xs e ⟨t, ht, rfl⟩
      exact .terminator ht
  have hparts : ∀ t, Reads (methodBehind r t) fun xs m =>
      ∃ ys zs, xs = ys ++ zs ∧ IsMethodFront ys m ∧ IsEnding zs m.ending ∧ m.lead = t := by
    intro t
    apply ((((((reads_modifiers hr).map _).seq (reads_methodName hr)).seq
      (reads_formalParameters hr)).seq (reads_typeClause hr).optional).seq hending).mono
    rintro xs m ⟨_, vs, _, e, rfl, ⟨_, ws, _, o, rfl, ⟨_, zs, _, d, rfl, ⟨xs, ys, _, ⟨type, name⟩,
      rfl, ⟨ms, hms, rfl⟩, hname, rfl⟩, hd, rfl⟩, ho, rfl⟩, he, rfl⟩
    have hparameters : Closes (spaced d.before "(" ++
        Padded.steps (fun d => (Node.declarations d).steps) d.elements ++ spaced d.close ")") :=
      (closes_spaced (crisp_delimiter ")" (by decide)) d.close).append _
    have hfront := ((hms.front hname).append (hd false) (Or.inr hparameters)).append
      (piece_clause ho) (closes_clause ho)
    refine ⟨_, vs, rfl, ?_, he, rfl⟩
    simpa [IsMethodFront] using hfront
  refine ((takesLead_methodDeclaration r).reads hparts ?_).mono ?_
  · rintro t m ⟨ys, zs, heq, hm, -⟩
    exact hm.ne_nil (List.append_eq_nil_iff.mp heq.symm).1
  · rintro xs m ⟨l, ls, rfl, hl, ys, zs, heq, hm, he, hlead⟩
    obtain ⟨us, rfl, rfl⟩ := hm.exists_cons heq
    have hpiece := (hm.piece.lead hl).weaken.append he.piece
    have hsteps := steps_method m
    rw [hlead] at hsteps
    refine .of_piece hpiece ?_ ?_ ?_ ?_ ?_
    · rw [hsteps]
    · simp [Node.children]
    · simp [Node.trivia, hlead]
    · show Framed m.lead (Node.steps _)
      rw [hsteps, hlead]
      exact he.framed hm.whole
    · show Opens m.lead _
      rw [hlead]
      exact hm.opens.append zs

/-! ## Classes -/

/-- The lexemes are the class without its lead. -/
def IsClassFront (xs : List Lexeme) (c : ClassDeclaration) : Prop :=
  IsFront false
    (Modifier.listSteps c.modifiers ++ spaced c.kindLead c.kind.keyword ++ c.name.steps ++
      TypeList.clauseSteps "extends" c.superclasses ++
      TypeList.clauseSteps "implements" c.interfaces ++ c.body.steps)
    (Node.classDeclaration c).children [c.kindLead] xs

theorem reads_classDeclaration (hr : r.Sound) :
    Reads (classDeclaration r) fun xs c => Reading false (.classDeclaration c) xs := by
  have hparts : ∀ t, Reads (classBehind r t) fun xs c => IsClassFront xs c ∧ c.lead = t := by
    intro t
    apply (((((((reads_modifiers hr).map _).seq reads_wordOf).seq reads_identifier).seq
      (reads_typeClause hr).optional).seq (reads_typeClause hr).optional).seq hr.classBody).mono
    rintro xs c ⟨_, us, _, body, rfl, ⟨_, vs, _, o', rfl, ⟨_, ws, _, o, rfl, ⟨_, zs, _, i, rfl,
      ⟨xs, ys, _, ⟨kindLead, kind⟩, rfl, ⟨ms, hms, rfl⟩, ⟨w, hw, hk⟩, rfl⟩, hi, rfl⟩, ho, rfl⟩,
      ho', rfl⟩, hbody, rfl⟩
    obtain rfl : w = kind.keyword := keyword_of_find hk
    have hne : kind.keyword ≠ "else" := by cases kind <;> decide
    have hkind : IsFront false (spaced kindLead kind.keyword) [] [kindLead] ys :=
      ⟨hw.piece false, ⟨_, hw.heads hne⟩, closes_spaced hw.crisp kindLead⟩
    have hname : Closes i.steps := closes_spaced hi.isKeyword.crisp i.lead
    have hfront := (((((hms.front hkind).append (hi.reading false).piece (Or.inr hname)).append
      (piece_clause ho) (closes_clause ho)).append (piece_clause ho') (closes_clause ho'))).append
      hbody.piece (Or.inr (Whole.closes hbody.shaped))
    refine ⟨?_, rfl⟩
    simpa [IsClassFront, Node.children, Node.steps] using hfront
  refine ((takesLead_classDeclaration r).reads hparts ?_).mono ?_
  · rintro t c ⟨hc, -⟩
    exact hc.ne_nil rfl
  · rintro xs c ⟨l, ls, rfl, hl, hc, hlead⟩
    obtain ⟨lead, ms, kindLead, kind, name, superclasses, interfaces, body, type⟩ := c
    obtain rfl : lead = l.lead := hlead
    refine .of_piece (hc.piece.lead hl) ?_ (fun _ h => h) (by simp [Node.trivia]) ?_ hc.opens
    · simp [Node.steps, ClassDeclaration.steps]
    · have := hc.whole
      simpa [Node.Shaped, Node.form, Node.lead, Node.steps, ClassDeclaration.steps] using this

/-- The lexemes are the member. -/
abbrev IsMember (xs : List Lexeme) (m : Member) : Prop := Reading true (.member m) xs

theorem reads_member (hr : r.Sound) : Reads (member r) IsMember := by
  have hnested : Reads (Member.nested <$> classDeclaration r) IsMember := by
    apply ((reads_classDeclaration hr).map _).mono
    rintro xs m ⟨c, hc, rfl⟩
    exact hc.weaken.wrap rfl rfl rfl rfl (.whole hc.shaped)
  have hmethod : Reads (Member.method <$> methodDeclaration r) IsMember := by
    apply ((reads_methodDeclaration hr).map _).mono
    rintro xs m ⟨d, hd, rfl⟩
    exact hd.wrap rfl rfl rfl rfl hd.shaped
  have hfield : Reads (Member.field <$> variableDeclarations r) IsMember := by
    apply ((reads_variableDeclarations hr).map _).mono
    rintro xs m ⟨d, ⟨hd, -⟩, rfl⟩
    exact hd.wrap rfl rfl rfl rfl hd.shaped
  have hempty : Reads (Member.empty <$> semicolon) IsMember := by
    apply (reads_semicolon.map _).mono
    rintro xs m ⟨t, ht, rfl⟩
    exact .of_piece (piece_semicolon ht) rfl (by simp [Node.children, Member.children])
      (by simp [Node.trivia, Member.trivia]) (.lone rfl ht.2) (ht.opens rfl)
  exact hnested.orElse <| hmethod.orElse <| hfield.orElse hempty

theorem reads_classBody (hr : r.Sound) :
    Reads (classBody r) fun xs b => Reading false (.classBody b) xs := by
  apply ((((reads_leftBrace.map _).seq ((reads_member hr).many r.bound)).seq
    reads_rightBrace).named .classBody).mono
  rintro xs b ⟨_, zs, _, u, rfl, ⟨xs, ys, _, ms, rfl, ⟨t, ht, rfl⟩, hms, rfl⟩, hu, rfl⟩
  have hlist := piece_several .member (fun _ _ h => h) hms
  have hopens : Opens t (xs ++ ys ++ zs) := ((ht.opens rfl).append ys).append zs
  refine .of_piece (piece_braces ht hlist hu) ?_ ?_ ?_ ?_ hopens
  · simp only [Node.steps, ClassBody.steps, Member.listSteps_eq]
  · simp [Node.children]
  · simp [Node.trivia]
  · exact whole_between (by decide) (by decide) t u _

/-! ## Headers of units -/

theorem reads_packageDeclaration {bound : Nat} :
    Reads (packageDeclaration bound) fun xs d => Reading true (.package d) xs := by
  apply ((((reads_keyword.map _).seq reads_qualifiedName).seq reads_semicolon).named
    .packageDeclaration).mono
  rintro xs d ⟨_, zs, _, u, rfl, ⟨xs, ys, _, ⟨nameLead, n⟩, rfl, ⟨t, ht, rfl⟩, hn, rfl⟩, hu, rfl⟩
  have hopens := ((ht.opens (by decide)).append ys).append zs
  refine .of_piece (((ht.piece true).append (hn.piece true)).append (piece_semicolon hu)) rfl ?_ ?_
    ?_ hopens
  · simp [Node.children]
  · simp [Node.trivia]
  · exact .ended (Whole.spaced_append ht.crisp t (closes_spaced hn.crisp nameLead)) rfl hu.2

/-- The lexemes of `.*` at the end of a path. -/
def wildcardMarks : List Lexeme := [⟨.empty, .mark '.'⟩, ⟨.empty, .mark '*'⟩]

theorem reads_wildcard : Reads wildcard fun xs _ => xs = wildcardMarks := by
  refine reads_tightToken fun l ls a count hls hl h => ?_
  obtain ⟨⟨t, n⟩, ht, heq⟩ := Option.map_eq_some_iff.mp h
  cases heq
  have hs := isSymbol_of_acceptSymbol hls ht
  have hxs : (l :: ls).take count = [⟨t, .mark '.'⟩, ⟨.empty, .mark '*'⟩] := hs.1
  cases count with
  | zero => cases hxs
  | succ n =>
    rw [List.take_succ_cons] at hxs
    have ht' : l.lead = t := by rw [(List.cons.inj hxs).1]
    rw [List.take_succ_cons, hxs, ← ht', hl]
    rfl

/-- The text of an imported path. -/
def pathText (n : QualifiedName) (wildcard : Bool) : String :=
  if wildcard then n.text ++ ".*" else n.text

/-- The lexemes are the path of an import. -/
structure IsPath (xs : List Lexeme) (a : (Trivia × QualifiedName) × Bool) : Prop where
  piece : Piece true (spaced a.1.1 (pathText a.1.2 a.2)) [] [a.1.1] xs
  crisp : Crisp (pathText a.1.2 a.2).toList

theorem reads_importPath {bound : Nat} : Reads (importPath bound) IsPath := by
  apply (((reads_dottedName.map _).seq reads_wildcard.optional).named .importPath).mono
  rintro xs a ⟨ys, zs, _, o, rfl, ⟨⟨t, n⟩, hn, rfl⟩, ho, rfl⟩
  cases ho with
  | none =>
    rw [List.append_nil]
    exact ⟨hn.piece true, hn.crisp⟩
  | some h =>
    obtain rfl := h
    have hp := hn.piece true
    have hmarks : Phrase true wildcardMarks := ⟨rfl, rfl⟩
    refine ⟨⟨?_, by simp, hp.gaps, hp.phrase.append hmarks⟩, ?_⟩
    · rw [Lexeme.textOf_append, hp.text]
      simp [text_spaced, pathText, wildcardMarks, Lexeme.toList, Token.toList]
    · have hstar : Crisp ['*'] := crisp_singleton rfl (by decide) (by decide)
      have := hn.crisp.join hstar ['.']
      simpa [pathText] using this

/-- The keyword of a static import. -/
def staticSteps (o : Option Trivia) : List Step := (o.map (spaced · "static")).getD []

theorem reads_importDeclaration {bound : Nat} :
    Reads (importDeclaration bound) fun xs i => Reading true (.importDeclaration i) xs := by
  apply (((((reads_keyword.map _).seq reads_keyword.optional).seq reads_importPath).seq
    reads_semicolon).named .importDeclaration).mono
  rintro xs i ⟨_, ws, _, u, rfl, ⟨_, zs, _, ⟨⟨nameLead, n⟩, w⟩, rfl, ⟨xs, ys, _, o, rfl,
    ⟨t, ht, rfl⟩, ho, rfl⟩, hn, rfl⟩, hu, rfl⟩
  have hstatic : Piece true (staticSteps o) [] o.toList ys := by
    cases ho with
    | none => exact .nil
    | some h => exact h.piece true
  have hopens := (((ht.opens (by decide)).append ys).append zs).append ws
  refine .of_piece ((((ht.piece true).append hstatic).append hn.piece).append (piece_semicolon hu))
    rfl ?_ ?_ ?_ hopens
  · simp [Node.children]
  · simp only [Node.trivia, List.mem_cons, List.mem_append, List.not_mem_nil, or_false]
    rintro v (h | h | h | h)
    · exact Or.inl (Or.inl (Or.inl h))
    · exact Or.inl (Or.inr h)
    · exact Or.inr h
    · exact Or.inl (Or.inl (Or.inr h))
  · refine .ended ?_ rfl hu.2
    rw [List.append_assoc]
    exact Whole.spaced_append ht.crisp t ((closes_spaced hn.crisp nameLead).append _)

/-! ## Units -/

/-- The lexeme is the end of the text. -/
def IsFinish (xs : List Lexeme) (t : Trivia) : Prop :=
  xs = [⟨t, .finish⟩] ∧ Lex.IsGap true t.toList

theorem reads_endOfInput : Reads endOfInput IsFinish := by
  refine reads_token fun ls a count hls h => ?_
  split at h
  · rename_i t rest
    cases h
    exact ⟨rfl, hls.head.lead⟩
  · cases h

/-- The lexemes of a whole text: a unit prints as all of them and is tidy. -/
def IsUnit (xs : List Lexeme) (u : CompilationUnit) : Prop :=
  Lexeme.textOf xs = text u.steps ∧ (Node.unit u).All Node.Tidy ∧
    ∃ ys, xs = ys ++ [⟨u.tail, .finish⟩]

theorem reads_compilationUnit (hr : r.Sound) : Reads (compilationUnit r) IsUnit := by
  apply ((((reads_packageDeclaration.optional.map _).seq
    (reads_importDeclaration.many r.bound)).seq ((reads_classDeclaration hr).many r.bound)).seq
    reads_endOfInput).mono
  rintro xs u ⟨_, ws, _, t, rfl, ⟨_, zs, _, cs, rfl, ⟨xs, ys, _, is, rfl, ⟨o, ho, rfl⟩, his, rfl⟩,
    hcs, rfl⟩, ⟨rfl, ht⟩, rfl⟩
  have hpackage := piece_perhaps .package (fun _ _ h => h) ho
  have himports := piece_several .importDeclaration (fun _ _ h => h) his
  have hclasses := piece_several (s := true) .classDeclaration (fun _ _ h => h.weaken) hcs
  have hpiece := (hpackage.append himports).append hclasses
  refine ⟨?_, ?_, _, rfl⟩
  · rw [Lexeme.textOf_append, hpiece.text]
    cases o <;>
      simp [CompilationUnit.steps, Lexeme.toList, Token.toList, chars, Node.steps]
  · refine Node.all_iff.mpr ⟨⟨trivial, ?_⟩, ?_⟩
    · intro v hv
      rw [List.mem_singleton.mp hv]
      exact ht
    · intro k hk
      exact hpiece.nodes k (by simpa [Node.children] using hk)

end LosslessJava.Grammar
