import LosslessJava.Proofs.Grammar.Build.Text
import LosslessJava.Proofs.Grammar.Spelling.Declaration

/-!
# Tokens of whole texts

* `rules_spelling`: the rules of every depth make nodes of their tokens, by induction on the depth.
* `TextKind`: what a text is read as. `TextKind.tree?` is the tree that the grammar gives the text,
  whatever its literals denote.
* `TextKind.parse_of_none`, `TextKind.parse_of_some`: a text without a tree is refused, and one with
  a tree is accepted or refused because of a literal.
* `TextKind.spells`: the literals among the tokens of a text are those of its tree.
-/

namespace LosslessJava

namespace Grammar

open LosslessJava.Grammar.Parser Node

variable {α : Type} {k : Nat} {r : Rules}

/-! ## All depths -/

/-- Rules of a depth make nodes of the tokens of texts with fewer lexemes than that. -/
theorem rules_spelling {k d : Nat} (hd : k ≤ d) : (rules d).Spelling k := by
  induction k generalizing d with
  | zero =>
    refine ⟨?_, ?_, ?_, ?_, ?_, ?_, ?_⟩
    all_goals exact fun _ _ _ _ h => absurd h (Nat.not_lt_zero _)
  | succ k ih =>
    obtain ⟨d, rfl⟩ : ∃ e, d = e + 1 := ⟨d - 1, by omega⟩
    have hd := Nat.le_of_succ_le_succ hd
    have ih := ih hd
    have hclosed : ∀ ls s rest, Lexeme.AllLegal ls → ls.length < k + 1 →
        (statement (rules d)).parse ls = some (s, rest) → s.isOpen = true →
        (elseClause (rules (d + 1))).parse rest = none := by
      intro ls s rest hls hlength hparse hopen
      obtain ⟨-, hrest⟩ := (spelling_statement ih).left hls hlength hparse
      rw [parse_elseClause_depth (e := d) (by omega) (by omega)]
      exact parse_elseClause_of_isOpen ih hls hlength hparse hopen
    simp only [rules, later_eq] at hclosed ⊢
    exact ⟨spelling_typeReference ih, spelling_unaryExpression ih, spelling_expression ih,
      spelling_classBody ih, spelling_statement ih, spelling_blockStatement ih, hclosed⟩

/-! ## Ends of texts -/

/-- The tokens of a whole text are those of the node, and the end. -/
def SpellsText (ks : List Token) (n : Node) : Prop :=
  ∃ ks', ks = ks' ++ [.finish] ∧ Spells ks' [n]

theorem takes_endOfInput : Takes k 1 endOfInput fun ks _ => ks = [.finish] := by
  refine .of_reads reads_endOfInput ?_
  rintro xs t ⟨rfl, -⟩
  exact ⟨Nat.le_refl 1, rfl⟩

theorem spelling_only {p : Parser α} {node : α → Node}
    (hp : Takes k 1 p fun ks a => Spells ks [node a]) :
    Takes k 1 (only p) fun ks a => SpellsText ks (node a) := by
  refine (hp.map ?_).weaken.seq takes_endOfInput
  rintro ks a h _ _ rfl
  exact ⟨ks, rfl, h⟩

theorem spelling_compilationUnit (hr : r.Spelling k) (path : Option String) :
    Takes (k + 1) 1 (compilationUnit r) fun ks u => SpellsText ks (.unit { u with path }) := by
  refine ((((spelling_optional spelling_packageDeclaration).map ?_).seq
    (spelling_many spelling_importDeclaration)).seq
    (spelling_many (spelling_classDeclaration hr))).seq takes_endOfInput
  rintro ks _ h ks₁ _ h₁ ks₂ _ h₂ _ _ rfl
  exact ⟨_, rfl, ((h.append h₁).append h₂).node rfl rfl trivial⟩

/-- Nothing follows the end among the tokens of a text. -/
theorem tokens_eq_nil_of_finish {cs : List Char} {ks : List Token} {rest : List Lexeme}
    (h : tokens (Lexeme.ofText cs) = ks ++ .finish :: tokens rest) : rest = [] := by
  obtain ⟨xs, ys, hls, -, hys⟩ := List.map_eq_append_iff.mp h
  obtain ⟨l, ys, rfl, hl, hrest⟩ := List.map_eq_cons_iff.mp hys
  obtain ⟨t, token⟩ := l
  obtain rfl : token = .finish := hl
  rw [Lexeme.eq_nil_of_finish cs xs ys t hls] at hrest
  exact List.map_eq_nil_iff.mp hrest.symm

theorem spells_of_parse {p : Parser α} {node : α → Node} {cs : List Char}
    (hp : Takes ((Lexeme.ofText cs).length + 1) 1 p fun ks a => SpellsText ks (node a)) {a : α}
    {rest : List Lexeme} (h : p.parse (Lexeme.ofText cs) = some (a, rest)) :
    Spells (tokens (Lexeme.ofText cs)) [node a] := by
  obtain ⟨-, _, heq, -, ks, rfl, hspells⟩ :=
    hp _ a rest (Lexeme.legal_ofText cs) (Nat.lt_succ_self _) h
  rw [List.append_assoc, List.singleton_append] at heq
  rw [tokens_eq_nil_of_finish heq] at heq
  rw [heq]
  have hfinish : Spells [.finish] [] := .plain (List.forall_mem_singleton.mpr rfl)
  exact hspells.append hfinish

end Grammar

open Grammar

/-- What a text is read as. -/
inductive TextKind where
  | unit (path : Option String)
  | statement
  | expression

namespace TextKind

/-- The path that errors in the text are reported with. -/
def path : TextKind → Option String
  | unit path => path
  | _ => none

/-- The tree that is written by the text, or the error in it. -/
def parse (kind : TextKind) (source : String) : Except ParseError Node :=
  match kind with
  | unit path => Node.unit <$> parseUnit path source
  | statement => Node.statement <$> parseStatement source
  | expression => Node.expression <$> parseExpression source

/-- The tree that the grammar gives the text, whatever its literals denote. -/
def tree? (kind : TextKind) (source : String) : Option Node :=
  let ls := Lexeme.ofText source.toList
  let r := rules (ls.length + 1)
  match kind with
  | unit path => ((compilationUnit r).parse ls).map fun a => .unit { a.1 with path }
  | statement => ((only (blockStatement r)).parse ls).map fun a => .statement a.1
  | expression => ((only (Grammar.expression r)).parse ls).map fun a => .expression a.1

variable {kind : TextKind} {source : String} {n : Node}

theorem parse_of_none (h : kind.tree? source = none) :
    ∃ offset expected, kind.parse source =
      .error ⟨kind.path, .ofOffset source.toList offset, .unexpectedInput expected⟩ := by
  cases kind with
  | unit path =>
    obtain ⟨offset, expected, heq⟩ := read_of_none buildsText_unit path
      .compilationUnit (Option.map_eq_none_iff.mp h)
    refine ⟨offset, expected, ?_⟩
    rw [parse, parseUnit, heq]
    rfl
  | statement =>
    obtain ⟨offset, expected, heq⟩ := read_of_none buildsText_statement none
      .statementText (Option.map_eq_none_iff.mp h)
    refine ⟨offset, expected, ?_⟩
    rw [parse, parseStatement, heq]
    rfl
  | expression =>
    obtain ⟨offset, expected, heq⟩ := read_of_none buildsText_expression none
      .expressionText (Option.map_eq_none_iff.mp h)
    refine ⟨offset, expected, ?_⟩
    rw [parse, parseExpression, heq]
    rfl

/-- A text with a tree is accepted, or refused because of a literal. -/
theorem parse_of_some (h : kind.tree? source = some n) :
    kind.parse source =
      match firstInvalid 0 (Lexeme.ofText source.toList) with
      | some (offset, literal, found) =>
        .error ⟨kind.path, .ofOffset source.toList offset, .invalidLiteral literal found⟩
      | none => .ok n := by
  cases kind with
  | unit path =>
    obtain ⟨⟨u, rest⟩, hparse, rfl⟩ := Option.map_eq_some_iff.mp h
    rw [parse, parseUnit, read_of_some buildsText_unit path .compilationUnit hparse]
    cases firstInvalid 0 (Lexeme.ofText source.toList) <;> rfl
  | statement =>
    obtain ⟨⟨s, rest⟩, hparse, rfl⟩ := Option.map_eq_some_iff.mp h
    rw [parse, parseStatement, read_of_some buildsText_statement none .statementText hparse]
    cases firstInvalid 0 (Lexeme.ofText source.toList) <;> rfl
  | expression =>
    obtain ⟨⟨e, rest⟩, hparse, rfl⟩ := Option.map_eq_some_iff.mp h
    rw [parse, parseExpression, read_of_some buildsText_expression none .expressionText hparse]
    cases firstInvalid 0 (Lexeme.ofText source.toList) <;> rfl

theorem tree_of_parse (h : kind.parse source = .ok n) : kind.tree? source = some n := by
  cases htree : kind.tree? source with
  | none =>
    obtain ⟨offset, expected, heq⟩ := parse_of_none htree
    rw [heq] at h
    cases h
  | some m =>
    rw [parse_of_some htree] at h
    split at h
    · cases h
    · rw [Except.ok.inj h]

/-- The literals among the tokens of a text are those of its tree. -/
theorem spells (h : kind.tree? source = some n) :
    Spells (tokens (Lexeme.ofText source.toList)) [n] := by
  have hr := rules_spelling (Nat.le_succ (Lexeme.ofText source.toList).length)
  cases kind with
  | unit path =>
    obtain ⟨⟨u, rest⟩, hparse, rfl⟩ := Option.map_eq_some_iff.mp h
    exact spells_of_parse (spelling_compilationUnit hr path) hparse
  | statement =>
    obtain ⟨⟨s, rest⟩, hparse, rfl⟩ := Option.map_eq_some_iff.mp h
    exact spells_of_parse (spelling_only (spelling_blockStatement hr)) hparse
  | expression =>
    obtain ⟨⟨e, rest⟩, hparse, rfl⟩ := Option.map_eq_some_iff.mp h
    exact spells_of_parse (spelling_only (spelling_expression hr)) hparse

end TextKind

end LosslessJava
