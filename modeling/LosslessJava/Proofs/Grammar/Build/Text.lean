import LosslessJava.Proofs.Grammar.Build.Declaration
import LosslessJava.Proofs.Grammar.Reading.Text

/-!
# Building of whole texts

A text is accepted where the grammar reads it as a whole and all its literals denote values. What is
built of its pairs is what the grammar reads, and the error that the builders come to first is that
of the first invalid literal.

* `builtBy_rules`: the rules of every depth are built as they are read, by induction on the depth.
* `exists_literal_of_error`: no pair is one that the builders do not expect.
* `read_of_none`, `read_of_some`, `read_eq_ok`: what comes of a text.
* `parseUnit_reads`, `parseStatement_reads`, `parseExpression_reads`: what the lexemes of an
  accepted text are.
-/

namespace LosslessJava

namespace Grammar

open LosslessJava.Grammar.Parser
open Lexeme (ofText)

variable {α : Type}

theorem matches_fail {source : List Char} (C : Relation α) : Matches source fail C :=
  fun _ _ _ => .inl ⟨rfl, fun _ => rfl⟩

/-- The rules of every depth are built as they are read. -/
theorem builtBy_rules (source : List Char) (depth : Nat) :
    BuiltBy source (rules depth) (builders source depth) := by
  induction depth with
  | zero =>
    exact ⟨matches_fail _, matches_fail _, matches_fail _, matches_fail _, matches_fail _,
      matches_fail _⟩
  | succ depth ih =>
    exact ⟨matches_typeReference ih, matches_unaryExpression ih, matches_expression ih,
      matches_classBody ih, matches_statement ih, matches_blockStatement ih⟩

/-- The rule of a whole text, and what builds its value. -/
structure BuildsText (p : Rules → Parser α) (build : List Char → Builders → Pair → Built α) :
    Prop where
  matches_whole : ∀ source r b, BuiltBy source r b →
    Matches source (p r) (BuiltWhole (build source b))
  /-- Nothing is left of a text. -/
  ends : ∀ depth cs a rest, (p (rules depth)).parse (ofText cs) = some (a, rest) → rest = []

theorem buildsText_unit : BuildsText compilationUnit Build.compilationUnit :=
  ⟨fun _ _ _ h => matches_compilationUnit h,
    fun depth _ _ _ h => (isUnit_of_parse (rules_sound depth) h).1⟩

theorem buildsText_statement :
    BuildsText (fun r => only (blockStatement r)) Build.statementText :=
  ⟨fun _ _ _ h => matches_statementText h,
    fun depth _ _ _ h => (wholly_of_parse (reads_blockStatement (rules_sound depth)) h).1⟩

theorem buildsText_expression : BuildsText (fun r => only (expression r)) Build.expressionText :=
  ⟨fun _ _ _ h => matches_expressionText h,
    fun depth _ _ _ h => (wholly_of_parse (reads_expression (rules_sound depth)) h).1⟩

/-! ## Results -/

section

variable {p : Rules → Parser α} {build : List Char → Builders → Pair → Built α} {source : String}

theorem within_ofText (cs : List Char) : Within cs 0 (ofText cs) :=
  ⟨Lexeme.legal_ofText cs, [], by rw [Lexeme.textOf_ofText]; rfl, rfl⟩

/-- The pairs of a text are those that the builders expect. Whatever they refuse, it is a
literal. -/
theorem exists_literal_of_error (h : BuildsText p build) {cs : List Char} {depth : Nat} {m : Match}
    (hm : (p (rules depth)).pairs [] ⟨0, ofText cs⟩ = some m) {rule : Rule} {e : BuildError}
    (he : build cs (builders cs depth) ⟨rule, 0, m.stop, m.pairs⟩ = .error e) :
    ∃ kind found, e.fault = .invalidLiteral kind found := by
  rcases h.matches_whole _ _ _ (builtBy_rules cs depth) 0 _ (within_ofText cs) with
    ⟨-, hnone⟩ | ⟨a, xs, rest, ps, stop, -, -, hp, -, hbuild⟩
  · exact absurd (hm.symm.trans (hnone [])) (Option.some_ne_none m)
  · obtain rfl := Option.some.inj ((hp []).symm.trans hm)
    rw [List.nil_append, hbuild, verdict] at he
    split at he
    · obtain rfl := Except.error.inj he
      exact ⟨_, _, rfl⟩
    · cases he

/-- A text that the grammar does not read is refused as a whole. -/
theorem read_of_none (h : BuildsText p build) (path : Option String) (rule : Rule)
    (hparse : (p (rules ((ofText source.toList).length + 1))).parse (ofText source.toList) = none) :
    ∃ offset expected, read path rule p build source =
      .error ⟨path, .ofOffset source.toList offset, .unexpectedInput expected⟩ := by
  rcases h.matches_whole _ _ _ (builtBy_rules source.toList _) 0 _
    (within_ofText source.toList) with ⟨-, hp⟩ | ⟨a, _, _, _, _, -, ha, -⟩
  · unfold read
    simp only
    rw [hp]
    exact ⟨_, _, rfl⟩
  · exact nomatch hparse.symm.trans ha

/-- Any other text is accepted, or refused because of its first invalid literal. -/
theorem read_of_some (h : BuildsText p build) (path : Option String) (rule : Rule) {a : α}
    {rest : List Lexeme}
    (hparse : (p (rules ((ofText source.toList).length + 1))).parse (ofText source.toList) =
      some (a, rest)) :
    read path rule p build source =
      match firstInvalid 0 (ofText source.toList) with
      | some (offset, kind, found) =>
        .error ⟨path, .ofOffset source.toList offset, .invalidLiteral kind found⟩
      | none => .ok a := by
  rcases h.matches_whole _ _ _ (builtBy_rules source.toList _) 0 _
    (within_ofText source.toList) with ⟨hnone, -⟩ | ⟨b, xs, rest', ps, stop, hls, hb, hp, -, hbuild⟩
  · exact nomatch hnone.symm.trans hparse
  · obtain rfl := h.ends _ _ _ _ hb
    rw [List.append_nil] at hls
    obtain ⟨rfl, -⟩ := Prod.mk.inj (Option.some.inj (hb.symm.trans hparse))
    unfold read
    simp only
    rw [hp]
    show (build source.toList _ ⟨rule, 0, stop, [] ++ ps⟩).mapError
      (·.located path source.toList) = _
    rw [List.nil_append, hbuild, verdict, ← hls]
    cases firstInvalid 0 (ofText source.toList) <;> rfl

/-- A text is accepted when the rule takes a value off its lexemes and all literals are valid. -/
theorem read_eq_ok (h : BuildsText p build) {path : Option String} {rule : Rule} {a : α} :
    read path rule p build source = .ok a ↔
      (∃ rest, (p (rules ((ofText source.toList).length + 1))).parse (ofText source.toList) =
        some (a, rest)) ∧ firstInvalid 0 (ofText source.toList) = none := by
  cases hparse : (p (rules ((ofText source.toList).length + 1))).parse (ofText source.toList) with
  | none =>
    obtain ⟨offset, expected, hread⟩ := read_of_none h path rule hparse
    simp [hread]
  | some r =>
    rw [read_of_some h path rule hparse]
    cases firstInvalid 0 (ofText source.toList) with
    | none => simp [Prod.ext_iff]
    | some e => simp

end

end Grammar

open Grammar

theorem parseStatement_reads {source : String} {s : Statement}
    (h : parseStatement source = .ok s) :
    Wholly IsStatement (Lexeme.ofText source.toList) s := by
  obtain ⟨⟨rest, hparse⟩, -⟩ := (read_eq_ok buildsText_statement).mp h
  exact (wholly_of_parse (reads_blockStatement (rules_sound _)) hparse).2

theorem parseExpression_reads {source : String} {e : Expression}
    (h : parseExpression source = .ok e) :
    Wholly IsExpression (Lexeme.ofText source.toList) e := by
  obtain ⟨⟨rest, hparse⟩, -⟩ := (read_eq_ok buildsText_expression).mp h
  exact (wholly_of_parse (reads_expression (rules_sound _)) hparse).2

/-- The path is no part of what is read. -/
theorem parseUnit_reads {path : Option String} {source : String} {u : CompilationUnit}
    (h : parseUnit path source = .ok u) :
    Step.text u.steps = source.toList ∧ (Node.unit u).All Node.Tidy := by
  unfold parseUnit at h
  cases hv : read path .compilationUnit compilationUnit Build.compilationUnit source with
  | error e =>
    rw [hv] at h
    cases h
  | ok v =>
    rw [hv] at h
    cases h
    obtain ⟨⟨rest, hparse⟩, -⟩ := (read_eq_ok buildsText_unit).mp hv
    obtain ⟨-, htext, htidy, -⟩ := isUnit_of_parse (rules_sound _) hparse
    refine ⟨htext.symm.trans (Lexeme.textOf_ofText source.toList), ?_⟩
    exact Node.all_iff.mpr ⟨⟨trivial, htidy.self.gaps⟩, (Node.all_iff.mp htidy).2⟩

end LosslessJava
