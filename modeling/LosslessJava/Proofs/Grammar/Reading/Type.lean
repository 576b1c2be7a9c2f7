import LosslessJava.Grammar.Type
import LosslessJava.Proofs.Grammar.Sequence

/-!
# Readings of types

* `Rules.Sound`: the recursive rules read what they should.
* `reads_typeReference`: so does the rule of types over such rules.
-/

namespace LosslessJava

namespace Whole

/-- More steps behind a node, if there are any. -/
theorem append_optional {lead : Trivia} {steps ss : List Step} (h : Whole lead steps)
    (hss : ss = [] ∨ Closes ss) : Whole lead (steps ++ ss) := by
  rcases hss with rfl | hc
  · rwa [List.append_nil]
  · exact h.append hc

end Whole

namespace Grammar

open Step LosslessJava.Grammar.Parser

/-- The lexemes end with a semicolon or a closing brace. -/
def Ended (xs : List Lexeme) : Prop :=
  ∃ ys t c, xs = ys ++ [⟨t, .mark c⟩] ∧ (c = ';' ∨ c = '}')

theorem Ended.append {ys : List Lexeme} (h : Ended ys) (xs : List Lexeme) : Ended (xs ++ ys) := by
  obtain ⟨zs, t, c, rfl, hc⟩ := h
  exact ⟨xs ++ zs, t, c, by rw [List.append_assoc], hc⟩

/-- The lexemes are the statement. -/
def IsStatement (xs : List Lexeme) (s : Statement) : Prop :=
  Reading true (.statement s) xs ∧ Ended xs

/-- The recursive rules read what they should. -/
structure Rules.Sound (r : Rules) : Prop where
  type : Reads r.type fun xs t => Reading false (.typeTree t) xs
  unary : Reads r.unary fun xs e => Reading false (.expression e) xs
  expression : Reads r.expression fun xs e => Reading false (.expression e) xs
  classBody : Reads r.classBody fun xs b => Reading false (.classBody b) xs
  statement : Reads r.statement IsStatement
  blockStatement : Reads r.blockStatement IsStatement

/-! ## Brackets of arrays -/

theorem reads_dimension (s : Bool) :
    Reads dimension fun xs d => Reading s (.dimension d) xs := by
  have hopen : Reads leftBracket (IsMark '[') := reads_delimiter rfl
  have hclose : Reads rightBracket (IsMark ']') := reads_delimiter rfl
  apply (((hopen.map _).seq hclose).named .dimension).mono
  rintro xs d ⟨ys, zs, _, u, rfl, ⟨t, ht, rfl⟩, hu, rfl⟩
  have hopen : Piece s (spaced t "[") [] [t] ys := by
    cases s <;> exact ht.piece rfl rfl rfl
  have hclose : Piece s (spaced u "]") [] [u] zs := by
    cases s <;> exact hu.piece rfl rfl rfl
  have hopens := (ht.opens rfl).append zs
  refine .of_piece (hopen.append hclose) rfl (by simp [Node.children]) (by simp [Node.trivia]) ?_
    hopens
  exact (Whole.spaced (crisp_delimiter "[" (by decide)) t).append
    (closes_spaced (crisp_delimiter "]" (by decide)) u)

theorem closes_dimensions (ds : List Dimension) :
    ds.flatMap Dimension.steps = [] ∨ Closes (ds.flatMap Dimension.steps) := by
  induction ds with
  | nil => exact Or.inl rfl
  | cons d ds ih =>
    apply Or.inr
    rw [List.flatMap_cons]
    have hd : Closes d.steps :=
      (closes_spaced (crisp_delimiter "]" (by decide)) d.inner).append _
    rcases ih with h | h
    · rwa [h, List.append_nil]
    · exact h.append _

/-- Pairs of brackets, as a piece. -/
def IsDimensions (s : Bool) (xs : List Lexeme) (ds : List Dimension) : Prop :=
  Piece s (ds.flatMap Dimension.steps) (ds.map .dimension) [] xs

theorem reads_dimensions (s : Bool) (bound : Nat) :
    Reads (dimensions bound) (IsDimensions s) :=
  ((reads_dimension s).many bound).mono fun _ _ h => piece_several .dimension (fun _ _ hd => hd) h

/-! ## Words with a meaning -/

/-- A value that is found by its keyword has it. -/
theorem keyword_of_find {α : Type} {keyword : α → String} {all : List α} {w : String} {a : α}
    (h : all.find? (keyword · == w) = some a) : w = keyword a := by
  have heq := List.find?_some h
  exact (beq_iff_eq.mp heq).symm

/-! ## Types -/

variable {r : Rules}

theorem reads_wildcardBound (hr : r.Sound) :
    Reads (wildcardBound r) fun xs b => Reading false (.wildcardBound b) xs := by
  apply ((reads_wordOf.map _).seq hr.type).mono
  rintro xs b ⟨ys, zs, _, t, rfl, ⟨⟨lead, kind⟩, ⟨w, hw, hk⟩, rfl⟩, ht, rfl⟩
  obtain rfl : w = kind.keyword := keyword_of_find hk
  have hne : kind.keyword ≠ "else" := by cases kind <;> decide
  have hopens := (hw.opens hne).append zs
  refine .of_piece ((hw.piece false).append ht.piece) rfl (by simp [Node.children])
    (by simp [Node.trivia]) ?_ hopens
  exact Whole.spaced_append hw.crisp lead (Whole.closes ht.shaped)

theorem steps_wildcard (lead : Trivia) (o : Option WildcardBound) :
    (Node.typeTree ⟨lead, .wildcard o, none, [], none⟩).steps =
      spaced lead "?" ++ (o.map fun b => (Node.wildcardBound b).steps).getD [] := by
  cases o with
  | none => rfl
  | some b =>
    obtain ⟨boundLead, kind, bound⟩ := b
    simp [Node.steps, TypeTree.steps, TypeTreeKind.steps, TypeTree.argumentSteps, spaced]

theorem reads_wildcardType (hr : r.Sound) :
    Reads (wildcardType r) fun xs t => Reading false (.typeTree t) xs := by
  apply (((reads_question.map _).seq (reads_wildcardBound hr).optional).named
    .wildcardType).mono
  rintro xs t ⟨ys, zs, _, o, rfl, ⟨lead, hlead, rfl⟩, ho, rfl⟩
  have hopens := (hlead.opens rfl).append zs
  have hmark : Piece false (spaced lead "?") [] [lead] ys := hlead.piece rfl rfl rfl
  have hbound := piece_perhaps .wildcardBound (fun _ _ h => h) ho
  have hcrisp := crisp_delimiter "?" (by decide)
  refine .of_piece (hmark.append hbound) ?_ ?_ ?_ ?_ hopens
  · rw [steps_wildcard]
  · cases o <;> simp [Node.children, TypeTree.bound?, Delimited.optionalList]
  · simp [Node.trivia, Delimited.optionalTrivia]
  · show Whole lead (Node.steps _)
    rw [steps_wildcard]
    refine (Whole.spaced hcrisp lead).append_optional ?_
    cases ho with
    | none => exact Or.inl rfl
    | some hb => exact Or.inr (Whole.closes hb.shaped)

theorem reads_typeArguments (hr : r.Sound) :
    Reads (typeArguments r) fun xs d => IsDelimited "<" ">" .typeTree xs d :=
  (reads_angled ((reads_wildcardType hr).orElse hr.type)).named .typeArguments

/-- The lexemes are a type as soon as brackets follow. -/
def IsTypeHead (xs : List Lexeme) (f : List Dimension → TypeTree) : Prop :=
  ∀ ys ds, IsDimensions false ys ds → Reading false (.typeTree (f ds)) (xs ++ ys)

theorem isTypeHead_primitive {xs : List Lexeme} {t : Trivia} {p : Primitive}
    (h : IsKeyword p.keyword xs t) : IsTypeHead xs (primitiveArray t p) := by
  intro ys ds hds
  have hopens := (h.opens (by cases p <;> decide)).append ys
  refine .of_piece ((h.piece false).append hds) ?_ ?_ ?_ ?_ hopens
  · simp [Node.steps, primitiveArray, TypeTree.steps, TypeTreeKind.steps, TypeTree.argumentSteps,
      spaced]
  · simp [Node.children, primitiveArray, TypeTree.bound?, Delimited.optionalList]
  · simp [Node.trivia, primitiveArray, Delimited.optionalTrivia]
  · have := (Whole.spaced h.crisp t).append_optional (closes_dimensions ds)
    simpa [Node.Shaped, Node.form, Node.lead, Node.steps, primitiveArray, TypeTree.steps,
      TypeTreeKind.steps, TypeTree.argumentSteps, spaced] using this

theorem isTypeHead_named {xs zs : List Lexeme} {t : Trivia} {n : QualifiedName}
    {o : Option (Delimited TypeTree)} (h : IsDotted xs t n)
    (ho : Perhaps (fun xs d => IsDelimited "<" ">" .typeTree xs d) zs o) :
    IsTypeHead (xs ++ zs) fun ds => ⟨t, .named n, o, ds, none⟩ := by
  intro ys ds hds
  have hopens := (h.opens.append zs).append ys
  cases ho with
  | none =>
    refine .of_piece (((h.piece false).append .nil).append hds) ?_ ?_ ?_ ?_ hopens
    · simp [Node.steps, TypeTree.steps, TypeTreeKind.steps, TypeTree.argumentSteps, spaced]
    · simp [Node.children, TypeTree.bound?, Delimited.optionalList]
    · simp [Node.trivia, Delimited.optionalTrivia]
    · have := (Whole.spaced h.crisp t).append_optional (closes_dimensions ds)
      simpa [Node.Shaped, Node.form, Node.lead, Node.steps, TypeTree.steps,
        TypeTreeKind.steps, TypeTree.argumentSteps, spaced] using this
  | @some _ d hd =>
    refine .of_piece (((h.piece false).append (hd false)).append hds) ?_ ?_ ?_ ?_ hopens
    · simp [Node.steps, TypeTree.steps, TypeTreeKind.steps, TypeTree.argumentSteps, spaced,
        TypeTree.listSteps_eq]
    · simp [Node.children, TypeTree.bound?, Delimited.optionalList]
    · simp [Node.trivia, Delimited.optionalTrivia]
    · have hangle : Closes (spaced d.close ">") :=
        closes_spaced (crisp_delimiter ">" (by decide)) d.close
      have := (((Whole.spaced h.crisp t).append (hangle.append
        (spaced d.before "<" ++ TypeTree.listSteps d.elements)))).append_optional
        (closes_dimensions ds)
      simpa [Node.Shaped, Node.form, Node.lead, Node.steps, TypeTree.steps,
        TypeTreeKind.steps, TypeTree.argumentSteps, spaced] using this

theorem reads_qualifiedName {bound : Nat} :
    Reads (qualifiedName bound) fun xs a => IsDotted xs a.1 a.2 :=
  reads_dottedName.named .qualifiedName

theorem reads_typeHead (hr : r.Sound) : Reads (typeHead r) IsTypeHead := by
  refine Reads.orElse ?_ ?_
  · apply (reads_wordOf.map _).mono
    rintro xs f ⟨⟨t, p⟩, ⟨w, hw, hp⟩, rfl⟩
    obtain rfl : w = p.keyword := keyword_of_find hp
    exact isTypeHead_primitive hw
  · apply ((reads_qualifiedName.map _).seq (reads_typeArguments hr).optional).mono
    rintro xs f ⟨ys, zs, _, o, rfl, ⟨⟨t, n⟩, hn, rfl⟩, ho, rfl⟩
    exact isTypeHead_named hn ho

theorem reads_typeReference (hr : r.Sound) :
    Reads (typeReference r) fun xs t => Reading false (.typeTree t) xs := by
  apply (((reads_typeHead hr).seq (reads_dimensions false r.bound)).named .typeReference).mono
  rintro xs t ⟨ys, zs, f, ds, rfl, hf, hds, rfl⟩
  exact hf zs ds hds

end Grammar

end LosslessJava
