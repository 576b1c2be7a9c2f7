import LosslessJava.Grammar.Declaration
import LosslessJava.Proofs.Grammar.Reading.Expression
import LosslessJava.Proofs.Grammar.Takes
import LosslessJava.Proofs.Tree.Literals
import LosslessJava.Proofs.Tree.OpenStatement

/-!
# Tokens of types and expressions

The rules lose no literal of a text and make up none, whatever they do with the operands of a chain.

* `Spells ks ns`: what is known of the tokens of nodes one behind the other.
* `Rules.Spelling`: the recursive rules make nodes of their tokens.
* `spelling_typeReference`, `spelling_expression`: so do the rules for types and expressions.
-/

namespace LosslessJava

/-- The words that are literals. -/
def literalWords : List String := ["true", "false", "null"]

/-- The text of a token that is a literal. -/
def Token.literalText? : Token → Option String
  | .literal _ text => some text
  | .word w => if w ∈ literalWords then some w else none
  | _ => none

namespace Grammar

open LosslessJava.Grammar.Parser Node

/-- The literals among the tokens are those of the nodes, in the same order. No `else` in the nodes
stands behind an open statement. -/
structure Spells (ks : List Token) (ns : List Node) : Prop where
  literals : ks.filterMap Token.literalText? = ns.flatMap Node.literals
  closed : ∀ n ∈ ns, n.All Node.Closed

namespace Spells

variable {ks ks' : List Token} {ns ns' : List Node} {n : Node} {e e' : Expression}

theorem nil : Spells [] [] := ⟨rfl, by simp⟩

theorem append (h : Spells ks ns) (h' : Spells ks' ns') : Spells (ks ++ ks') (ns ++ ns') :=
  ⟨by rw [List.filterMap_append, List.flatMap_append, h.literals, h'.literals],
    List.forall_mem_append.mpr ⟨h.closed, h'.closed⟩⟩

/-- Tokens of which none is a literal. -/
theorem plain (h : ∀ k ∈ ks, k.literalText? = none) : Spells ks [] :=
  ⟨List.filterMap_eq_nil_iff.mpr h, by simp⟩

/-- A node that is no literal, from its children. -/
theorem node (h : Spells ks ns) (hchildren : n.children = ns) (hliteral : n.literal? = none)
    (hclosed : n.Closed) : Spells ks [n] := by
  constructor
  · rw [h.literals, List.flatMap_singleton, literals_eq, hliteral, hchildren]
    rfl
  · rw [List.forall_mem_singleton]
    exact Node.all_iff.mpr ⟨hclosed, hchildren ▸ h.closed⟩

theorem expression (h : Spells ks ns) (hchildren : e.children = ns) :
    Spells ks [.expression e] :=
  h.node hchildren rfl trivial

/-- A name holds no literal. -/
theorem identifier (h : Spells ks []) (i : Identifier) : Spells ks [.identifier i] :=
  h.node rfl rfl trivial

theorem dimension (h : Spells ks []) (d : Dimension) : Spells ks [.dimension d] :=
  h.node rfl rfl trivial

/-- Another expression with the same literals. -/
theorem congr (h : Spells ks ns)
    (hliterals : (Node.expression e).literals = ns.flatMap Node.literals)
    (hclosed : (Node.expression e).All Node.Closed) : Spells ks [.expression e] :=
  ⟨by rw [h.literals, List.flatMap_singleton, hliterals], by simpa using hclosed⟩

end Spells

/-! ## Chains -/

/-- An operand is put behind the literals of a chain. -/
theorem literals_attach (left : Expression) (t : Trivia) (o : BinaryOperator)
    (right : Expression) : (Node.expression (left.attach t o right)).literals =
      (Node.expression left).literals ++ (Node.expression right).literals := by
  have hof : ∀ e : Expression, (Node.expression (e.ofBinary t o right)).literals =
      (Node.expression e).literals ++ (Node.expression right).literals := by
    intro e
    rw [literals_expression]
    simp [Expression.ofBinary, Expression.children, literals_bare]
  fun_induction Expression.attach left t o right with
  | case1 lead first lastLead last second _ ih =>
    simp [literals_expression (.binary ..), Expression.children, ih]
  | case2 => exact hof _
  | case3 => exact hof _

theorem all_closed_bare {e : Expression} (h : (Node.expression e).All Node.Closed) :
    (Node.expression e.bare).All Node.Closed := by
  have hchildren := (Node.all_iff.mp h).2
  cases e with
  | literal l =>
    refine Node.all_iff.mpr ⟨trivial, fun k hk => ?_⟩
    rw [List.mem_singleton.mp hk]
    exact Node.all_iff.mpr ⟨trivial, by simp [Node.children]⟩
  | identifier i =>
    refine Node.all_iff.mpr ⟨trivial, fun k hk => ?_⟩
    rw [List.mem_singleton.mp hk]
    exact Node.all_iff.mpr ⟨trivial, by simp [Node.children]⟩
  | _ => exact Node.all_iff.mpr ⟨trivial, hchildren⟩

theorem all_closed_attach {left right : Expression} (hleft : (Node.expression left).All Node.Closed)
    (hright : (Node.expression right).All Node.Closed) (t : Trivia) (o : BinaryOperator) :
    (Node.expression (left.attach t o right)).All Node.Closed := by
  have hof : ∀ e : Expression, (Node.expression e).All Node.Closed →
      (Node.expression (e.ofBinary t o right)).All Node.Closed := by
    intro e he
    refine Node.all_iff.mpr ⟨trivial, ?_⟩
    simpa [Node.children, Expression.children, Expression.ofBinary] using
      ⟨all_closed_bare he, hright⟩
  fun_induction Expression.attach left t o right with
  | case1 lead first lastLead last second _ ih =>
    have hchildren := (Node.all_iff.mp hleft).2
    simp only [Node.children, Expression.children, List.forall_mem_cons] at hchildren
    refine Node.all_iff.mpr ⟨trivial, ?_⟩
    simpa [Node.children, Expression.children] using ⟨hchildren.1, ih hchildren.2.1⟩
  | case2 => exact hof _ hleft
  | case3 => exact hof _ hleft

namespace Spells

variable {ks ks' : List Token} {e left right : Expression}

theorem bare (h : Spells ks [.expression e]) : Spells ks [.expression e.bare] :=
  h.congr (by simp [literals_bare]) (all_closed_bare (h.closed _ (List.mem_singleton_self _)))

/-- An operand behind a chain. -/
theorem attach (h : Spells ks [.expression left]) (h' : Spells ks' [.expression right])
    (t : Trivia) (o : BinaryOperator) :
    Spells (ks ++ ks') [.expression (left.attach t o right)] :=
  (h.append h').congr (by simp [literals_attach])
    (all_closed_attach (h.closed _ (List.mem_singleton_self _))
      (h'.closed _ (List.mem_singleton_self _)) t o)

end Spells

/-! ## Terminals -/

variable {α : Type} {k d : Nat} {r : Rules}

theorem literalText?_eq_none {w : String} (h : w ∉ literalWords) :
    (Token.word w).literalText? = none := if_neg h

theorem spells_word {w : String} (h : w ∉ literalWords) : Spells [.word w] [] :=
  .plain (List.forall_mem_singleton.mpr (literalText?_eq_none h))

theorem spells_marks (cs : List Char) : Spells (cs.map Token.mark) [] := by
  refine .plain fun k hk => ?_
  obtain ⟨c, -, rfl⟩ := List.mem_map.mp hk
  rfl

theorem spelling_wordOf {rule : Rule} {f : String → Option α}
    (hf : ∀ w ∈ literalWords, f w = none) : Takes k 1 (wordOf rule f) fun ks _ => Spells ks [] := by
  refine .of_reads reads_wordOf ?_
  rintro xs a ⟨w, ⟨rfl, -, -⟩, hw⟩
  refine ⟨Nat.le_refl 1, spells_word fun hmem => ?_⟩
  rw [hf w hmem] at hw
  cases hw

theorem spelling_keyword {rule : Rule} {w : String} (hw : w ∉ literalWords) :
    Takes k 1 (keyword rule w) fun ks _ => Spells ks [] := by
  refine .of_reads reads_keyword ?_
  rintro xs t ⟨rfl, -, -⟩
  exact ⟨Nat.le_refl 1, spells_word hw⟩

theorem not_mem_literalWords {w : String} (h : reservedWords.contains w = false) :
    w ∉ literalWords := by
  have hall : ∀ w ∈ literalWords, reservedWords.contains w = true := by decide
  intro hmem
  rw [hall w hmem] at h
  cases h

theorem spelling_identifier : Takes k 1 identifier fun ks _ => Spells ks [] := by
  refine .of_reads reads_identifier ?_
  rintro xs i ⟨⟨rfl, -, -⟩, -, hreserved⟩
  exact ⟨Nat.le_refl 1, spells_word (not_mem_literalWords hreserved)⟩

theorem spelling_dottedName {bound : Nat} :
    Takes k 1 (dottedName bound) fun ks _ => Spells ks [] := by
  refine .of_reads reads_dottedName ?_
  rintro xs ⟨t, n⟩ h
  obtain ⟨first, rest, hn, rfl⟩ := h.lexemes
  have hwords : ∀ w ∈ first :: rest, (Token.word w).literalText? = none := fun w hw =>
    literalText?_eq_none (not_mem_literalWords (h.words w (hn ▸ hw)).2)
  refine ⟨Nat.succ_le_succ (Nat.zero_le _), .plain ?_⟩
  simp only [tokens_cons, List.forall_mem_cons] at hwords ⊢
  refine ⟨hwords.1, fun k hk => ?_⟩
  simp only [tokens, dotSegment, List.map_flatMap, List.map_cons, List.map_nil, List.mem_flatMap,
    List.mem_cons, List.not_mem_nil, or_false] at hk
  obtain ⟨w, hw, rfl | rfl⟩ := hk
  · rfl
  · exact hwords.2 w hw

theorem spelling_qualifiedName {bound : Nat} :
    Takes k 1 (qualifiedName bound) fun ks _ => Spells ks [] :=
  spelling_dottedName.compound

/-- A symbol is made of marks. -/
theorem spells_symbol {w : String} {xs : List Lexeme} {t : Trivia} (h : IsSymbol w xs t)
    (hw : w.toList ≠ []) : 1 ≤ xs.length ∧ Spells (tokens xs) [] := by
  obtain ⟨rfl, -⟩ := h
  rw [tokens_marks]
  refine ⟨?_, spells_marks _⟩
  obtain ⟨c, cs, hcs⟩ := List.exists_cons_of_ne_nil hw
  simp [hcs, marks]

theorem spelling_symbol {rule : Rule} {w : String} {stop : List Char} (hw : w.toList ≠ []) :
    Takes k 1 (symbol rule w stop) fun ks _ => Spells ks [] :=
  .of_reads reads_symbol fun _ _ h => spells_symbol h hw

theorem spelling_delimiter {rule : Rule} {w : String} (hw : w.toList ≠ []) :
    Takes k 1 (delimiter rule w) fun ks _ => Spells ks [] :=
  spelling_symbol hw

theorem spelling_prefixOperator : Takes k 1 prefixOperator fun ks _ => Spells ks [] :=
  .of_reads reads_prefixOperator fun _ a h => spells_symbol h (by cases a.2 <;> decide)

theorem spelling_postfixOperator : Takes k 1 postfixOperator fun ks _ => Spells ks [] :=
  .of_reads reads_postfixOperator fun _ a h => spells_symbol h (by cases a.2 <;> decide)

theorem spelling_assignmentOperator : Takes k 1 assignmentOperator fun ks _ => Spells ks [] :=
  .of_reads reads_assignmentOperator fun _ a h => spells_symbol h (by cases a.2 <;> decide)

theorem spelling_binaryOperator : Takes k 1 binaryOperator fun ks _ => Spells ks [] :=
  .of_reads reads_binaryOperator fun _ a h => spells_symbol h (by cases a.2 <;> decide)

/-! ## Lists -/

variable {p : Parser α} {node : α → Node}

theorem spelling_optional (hp : Takes k d p fun ks a => Spells ks [node a]) :
    Takes k 0 (optional p) fun ks o => Spells ks (o.map node).toList :=
  hp.optional .nil fun _ _ h => h

theorem spelling_many (hp : Takes k d p fun ks a => Spells ks [node a]) {bound : Nat} :
    Takes k 0 (many bound p) fun ks as => Spells ks (as.map node) :=
  hp.many .nil fun _ _ _ _ ha has => ha.append has

theorem map_element_padded (node : α → Node) (a : α) (rest : List (Trivia × α)) :
    (padded a rest).map (fun q => node q.element) = node a :: rest.map fun b => node b.2 := by
  induction rest generalizing a with
  | nil => rfl
  | cons b rest ih => rw [padded, List.map_cons, List.map_cons, ih]

theorem spelling_separated (hp : Takes k d p fun ks a => Spells ks [node a]) {bound : Nat} :
    Takes k d (separated bound p) fun ks ps => Spells ks (ps.map fun q => node q.element) := by
  have hcomma : Takes k 1 comma fun ks _ => Spells ks [] := spelling_delimiter (by decide)
  have hnext : Takes k d (Prod.mk <$> comma <*> p) fun ks b => Spells ks [node b.2] :=
    (hcomma.map fun _ _ h _ _ h' => h.append h').weaken.seq hp
  have hrest : Takes k 0 (many bound (Prod.mk <$> comma <*> p)) fun ks bs =>
      Spells ks (bs.map fun b => node b.2) := spelling_many hnext
  refine (hp.map ?_).seq_of_le hrest (Nat.le_add_right k d)
  intro ks a h ks' rest h'
  rw [map_element_padded]
  exact h.append h'

theorem spelling_delimited {opening closing : Parser Trivia} {bound : Nat}
    (hopening : Takes (k + 1) 1 opening fun ks _ => Spells ks [])
    (hp : Takes k d p fun ks a => Spells ks [node a])
    (hclosing : Takes k 1 closing fun ks _ => Spells ks []) :
    Takes (k + 1) 1 (delimited bound opening p closing)
      fun ks a => Spells ks (a.toList.map node) := by
  have helements : Takes k 0 (optional (separated bound p)) fun ks o =>
      Spells ks ((o.getD []).map fun q => node q.element) :=
    (spelling_separated hp).optional .nil fun _ _ h => h
  refine ((hopening.map ?_).seq_behind helements).seq_behind hclosing
  intro ks t h ks' o h' ks'' u h''
  simpa [Delimited.toList, Function.comp_def] using (h.append h').append h''

/-! ## The recursive rules -/

/-- On fewer than `k` lexemes the recursive rules make nodes of their tokens. -/
structure Rules.Spelling (k : Nat) (r : Rules) : Prop where
  type : Takes k 1 r.type fun ks t => Spells ks [.typeTree t]
  unary : Takes k 1 r.unary fun ks e => Spells ks [.expression e]
  expression : Takes k 1 r.expression fun ks e => Spells ks [.expression e]
  classBody : Takes k 1 r.classBody fun ks b => Spells ks [.classBody b]
  statement : Takes k 1 r.statement fun ks s => Spells ks [.statement s]
  blockStatement : Takes k 1 r.blockStatement fun ks s => Spells ks [.statement s]
  /-- No `else` clause follows an open statement. -/
  closed : ∀ ls s rest, Lexeme.AllLegal ls → ls.length < k →
    r.statement.parse ls = some (s, rest) → s.isOpen = true →
    (elseClause r).parse rest = Option.none

/-! ## Types -/

theorem spelling_dimensions {bound : Nat} :
    Takes k 0 (dimensions bound) fun ks ds => Spells ks (ds.map .dimension) := by
  have hopen : Takes k 1 leftBracket fun ks _ => Spells ks [] := spelling_delimiter (by decide)
  have hclose : Takes k 1 rightBracket fun ks _ => Spells ks [] := spelling_delimiter (by decide)
  have hdimension : Takes k 1 dimension fun ks a => Spells ks [.dimension a] :=
    ((hopen.map fun _ _ h _ _ h' => (h.append h').dimension _).weaken.seq hclose).named
  exact spelling_many hdimension

theorem spelling_wildcardType (hr : r.Spelling k) :
    Takes (k + 1) 1 (wildcardType r) fun ks t => Spells ks [.typeTree t] := by
  have hquestion : Takes (k + 1) 1 question fun ks _ => Spells ks [] :=
    spelling_delimiter (by decide)
  have hbound : Takes (k + 1) 1 (wildcardBound r) fun ks b => Spells ks [.wildcardBound b] := by
    refine ((spelling_wordOf (by decide)).map ?_).seq_behind hr.type
    intro ks _ h ks' t h'
    exact (h.append h').node rfl rfl trivial
  refine ((hquestion.map ?_).seq_behind
    (spelling_optional (hbound.of_le (Nat.le_succ k)))).named
  intro ks _ h ks' o h'
  refine (h.append h').node ?_ rfl trivial
  simp [Node.children, TypeTree.bound?, Delimited.optionalList]

theorem spelling_typeArguments (hr : r.Spelling k) :
    Takes (k + 1) 1 (typeArguments r) fun ks a => Spells ks (a.toList.map .typeTree) :=
  (spelling_delimited (spelling_delimiter (by decide))
    (((spelling_wildcardType hr).of_le (Nat.le_succ k)).orElse hr.type)
    (spelling_delimiter (by decide))).named

theorem spelling_typeHead (hr : r.Spelling k) :
    Takes (k + 1) 1 (typeHead r) fun ks f => ∀ ks' ds, Spells ks' (ds.map .dimension) →
      Spells (ks ++ ks') [.typeTree (f ds)] := by
  have harguments : Takes k 0 (optional (typeArguments r)) fun ks o =>
      Spells ks ((Delimited.optionalList o).map .typeTree) :=
    ((spelling_typeArguments hr).of_le (Nat.le_succ k)).optional .nil fun _ _ h => h
  refine Takes.orElse ((spelling_wordOf (by decide)).map ?primitive)
    ((spelling_qualifiedName.map ?named).seq_behind harguments)
  case primitive =>
    intro ks a h ks' ds h'
    refine (h.append h').node ?_ rfl trivial
    simp [primitiveArray, Node.children, TypeTree.bound?, Delimited.optionalList]
  case named =>
    intro ks a h ks' o h' ks'' ds h''
    refine ((h.append h').append h'').node ?_ rfl trivial
    simp [Node.children, TypeTree.bound?]

theorem spelling_typeReference (hr : r.Spelling k) :
    Takes (k + 1) 1 (typeReference r) fun ks t => Spells ks [.typeTree t] :=
  ((spelling_typeHead hr).seq_behind spelling_dimensions).named

/-! ## Expressions -/

theorem spelling_arguments (hr : r.Spelling k) :
    Takes (k + 1) 1 (arguments r) fun ks a => Spells ks (a.toList.map .expression) :=
  (spelling_delimited (spelling_delimiter (by decide)) hr.expression
    (spelling_delimiter (by decide))).named

/-- A token that is the literal. -/
theorem spells_literal {t : Token} {l : Literal} (h : t.literalText? = some l.source) :
    Spells [t] [.literal l] := by
  refine ⟨by simp [h], ?_⟩
  rw [List.forall_mem_singleton]
  exact Node.all_iff.mpr ⟨trivial, by simp [Node.children]⟩

theorem spelling_literalOf {rule : Rule} {kind : LiteralKind} :
    Takes k 1 (literalOf rule kind) fun ks l => Spells ks [.literal l] := by
  refine .of_reads (reads_token (C := fun xs l => ∃ t text, xs = [⟨t, .literal kind text⟩] ∧
    l.source = text) fun ls l count _ h => ?_) ?_
  · unfold acceptLiteral at h
    split at h
    · split at h
      · rename_i hkind
        cases h
        exact ⟨_, _, by rw [hkind]; rfl, rfl⟩
      · cases h
    · cases h
  · rintro xs l ⟨t, text, rfl, htext⟩
    exact ⟨Nat.le_refl 1, spells_literal (congrArg some htext.symm)⟩

theorem spelling_literal : Takes k 1 literal fun ks l => Spells ks [.literal l] := by
  refine Takes.orElse spelling_literalOf <| Takes.orElse spelling_literalOf <|
    Takes.orElse spelling_literalOf <| Takes.orElse spelling_literalOf <|
    Takes.orElse (.of_reads (reads_wordOf.map _) ?boolean) (.of_reads (reads_keyword.map _) ?null)
  case boolean =>
    rintro xs l ⟨⟨t, b⟩, ⟨w, ⟨rfl, -, -⟩, hb⟩, rfl⟩
    refine ⟨Nat.le_refl 1, spells_literal ?_⟩
    split at hb
    · rename_i hw
      cases hb
      rw [hw]
      rfl
    · split at hb
      · rename_i hw
        cases hb
        rw [hw]
        rfl
      · cases hb
  case null =>
    rintro xs l ⟨t, ⟨rfl, -, -⟩, rfl⟩
    exact ⟨Nat.le_refl 1, spells_literal rfl⟩

theorem spelling_primary (hr : r.Spelling k) :
    Takes (k + 1) 1 (primary r) fun ks e => Spells ks [.expression e] := by
  have harguments := (spelling_arguments hr).of_le (Nat.le_succ k)
  refine Takes.orElse ?literal <| Takes.orElse ?self <| Takes.orElse ?newClass <|
    Takes.orElse ?call <| Takes.orElse ?identifier ?parentheses
  case literal => exact spelling_literal.map fun _ _ h => h.expression rfl
  case self => exact (spelling_keyword (by decide)).map fun _ _ h => h.expression rfl
  case newClass =>
    refine (((((spelling_keyword (by decide)).map ?_).seq_behind hr.type).seq_behind
      harguments).seq_behind (spelling_optional hr.classBody)).named
    intro ks _ h ks₁ _ h₁ ks₂ _ h₂ ks₃ _ h₃
    exact (((h.append h₁).append h₂).append h₃).expression rfl
  case call =>
    refine ((spelling_identifier.map ?_).seq_behind harguments).named
    intro ks i h ks' a h'
    exact ((h.identifier _).append h').expression rfl
  case identifier =>
    exact spelling_identifier.map fun _ i h => (h.identifier i).expression rfl
  case parentheses =>
    refine ((((spelling_delimiter (by decide)).map ?_).seq_behind hr.expression).seq_behind
      (e := 1) (spelling_delimiter (by decide))).named
    intro ks _ h ks₁ _ h₁ ks₂ _ h₂
    exact ((h.append h₁).append h₂).expression rfl

/-- Behind the tokens of a target a selector makes an expression of them and its own. -/
theorem spelling_selector (hr : r.Spelling k) :
    Takes (k + 1) 1 (selector r) fun ks s => ∀ ks' (e : Expression), Spells ks' [.expression e] →
      Spells (ks' ++ ks) [.expression (e.select s)] := by
  have hdot : ∀ {k}, Takes k 1 dot fun ks _ => Spells ks [] := spelling_delimiter (by decide)
  have harguments : Takes k 1 (some <$> arguments r) fun ks o =>
      ∃ a, o = some a ∧ Spells ks (a.toList.map .expression) :=
    ((spelling_arguments hr).of_le (Nat.le_succ k)).map fun _ a h => ⟨a, rfl, h⟩
  refine Takes.orElse (((hdot.map ?call).seq_behind spelling_identifier).seq_behind
    harguments).named ((hdot.map ?field).seq_behind (e := 1) spelling_identifier).named
  case call =>
    rintro ks _ h ks₁ i h₁ ks₂ _ ⟨a, rfl, h₂⟩ ks' e h'
    rw [← List.append_assoc, ← List.append_assoc]
    exact (((h'.bare.append h).append (h₁.identifier i)).append h₂).expression rfl
  case field =>
    intro ks _ h ks₁ i h₁ ks' e h'
    rw [← List.append_assoc]
    exact ((h'.bare.append h).append (h₁.identifier i)).expression rfl

theorem spelling_postfixExpression (hr : r.Spelling k) :
    Takes (k + 1) 1 (postfixExpression r) fun ks e => Spells ks [.expression e] := by
  have hselectors : Takes k 0 (many r.bound (selector r)) fun ks ss =>
      ∀ ks' (e : Expression), Spells ks' [.expression e] →
        Spells (ks' ++ ks) [.expression (ss.foldl Expression.select e)] := by
    refine ((spelling_selector hr).of_le (Nat.le_succ k)).many ?_ ?_
    · intro ks' e h
      rwa [List.append_nil]
    · intro ks ks₁ s ss hs hss ks' e h
      rw [← List.append_assoc]
      exact hss _ _ (hs _ _ h)
  exact (((spelling_primary hr).map fun ks e h ks' ss hss => hss ks e h).seq_behind
    hselectors).named

theorem spelling_unaryExpression (hr : r.Spelling k) :
    Takes (k + 1) 1 (unaryExpression r) fun ks e => Spells ks [.expression e] := by
  have hoperator : Takes k 0 (optional postfixOperator) fun ks _ => Spells ks [] :=
    spelling_postfixOperator.optional .nil fun _ _ h => h
  refine (Takes.orElse ((spelling_prefixOperator.map ?_).seq_behind hr.unary)
    (((spelling_postfixExpression hr).map ?_).seq_behind hoperator)).named
  · intro ks _ h ks' e h'
    exact (h.append h').expression rfl
  · intro ks e h ks' o h'
    cases o with
    | none => exact h.append h'
    | some o => exact (h.bare.append h').expression rfl

/-- Behind the tokens of the first operand the rest of a chain makes an expression of them and its
own, in whatever order the operands are combined. -/
theorem spelling_chain (hr : r.Spelling k) :
    Takes (k + 1) 0 (chain r) fun ks rest => ∀ ks' (e : Expression), Spells ks' [.expression e] →
      Spells (ks' ++ ks) [.expression (Expression.ofChain e rest)] := by
  have hnext : Takes (k + 1) 1 (Prod.mk <$> binaryOperator <*> unaryExpression r)
      fun ks a => Spells ks [.expression a.2] :=
    (spelling_binaryOperator.map fun _ _ h _ _ h' => h.append h').weaken.seq
      (spelling_unaryExpression hr)
  refine (hnext.many ?_ ?_).around
  · intro ks' e h
    rwa [List.append_nil]
  · intro ks ks₁ a rest ha hrest ks' e h
    rw [← List.append_assoc]
    exact hrest _ _ (h.attach ha a.1.1 a.1.2)

theorem spelling_expression (hr : r.Spelling k) :
    Takes (k + 1) 1 (expression r) fun ks e => Spells ks [.expression e] := by
  have hbranches : Takes (k + 1) 1 (branches r) fun ks f => ∀ ks' (e : Expression),
      Spells ks' [.expression e] → Spells (ks' ++ ks) [.expression (f e)] := by
    refine ((((spelling_delimiter (by decide)).map ?_).seq_behind hr.expression).seq_behind
      (e := 1) (spelling_delimiter (by decide))).seq_behind hr.expression
    intro ks _ h ks₁ _ h₁ ks₂ _ h₂ ks₃ _ h₃ ks' e h'
    simp only [← List.append_assoc]
    exact ((((h'.bare.append h).append h₁).append h₂).append h₃).expression rfl
  have hassigned : Takes (k + 1) 1 (assigned r) fun ks f => ∀ ks' (e : Expression),
      Spells ks' [.expression e] → Spells (ks' ++ ks) [.expression (f e)] := by
    refine ((spelling_assignmentOperator.map ?_).seq_behind hr.expression).around
    intro ks _ h ks₁ _ h₁ ks' e h'
    rw [← List.append_assoc]
    exact ((h'.bare.append h).append h₁).expression rfl
  have hcomputed : Takes (k + 1) 0 (computed r) fun ks f => ∀ ks' (e : Expression),
      Spells ks' [.expression e] → Spells (ks' ++ ks) [.expression (f e)] := by
    refine (((spelling_chain hr).map ?_).seq (hbranches.optional
      (D := fun ks o => ∀ ks' (e : Expression), Spells ks' [.expression e] →
        Spells (ks' ++ ks) [.expression (o.getD id e)]) ?_ fun ks f hf => hf)).around
    · intro ks rest hrest ks₁ o ho ks' e h
      rw [← List.append_assoc]
      exact ho _ _ (hrest ks' e h)
    · intro ks' e h
      rwa [List.append_nil]
  exact (((spelling_unaryExpression hr).map fun ks e h ks' f hf => hf ks e h).seq_behind
    ((hassigned.weaken.orElse hcomputed).of_le (Nat.le_succ k))).summary

end Grammar

end LosslessJava
