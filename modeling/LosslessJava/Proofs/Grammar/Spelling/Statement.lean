import LosslessJava.Proofs.Grammar.Moved
import LosslessJava.Proofs.Grammar.Spelling.Expression

/-!
# Tokens of variables and statements

* `parse_ifStatement`: an `if` without an `else` is read only where no `else` clause can be read.
* `parse_elseClause_of_isOpen`: so no `else` clause follows an open statement.
* `spelling_statement`: the rules for statements make nodes of their tokens, and no `else` in them
  stands behind an open statement.
-/

namespace LosslessJava.Grammar

open LosslessJava.Grammar.Parser Node
open Lexeme (AllLegal)

variable {k : Nat} {r : Rules}

/-! ## Variables -/

theorem spelling_modifiers (hr : r.Spelling k) :
    Takes (k + 1) 0 (modifiers r) fun ks ms => Spells ks (ms.map .modifier) := by
  have hat : Takes (k + 1) 1 at_ fun ks _ => Spells ks [] := spelling_delimiter (by decide)
  have harguments : Takes k 0 (optional (arguments r)) fun ks o =>
      Spells ks ((Delimited.optionalList o).map .expression) :=
    ((spelling_arguments hr).of_le (Nat.le_succ k)).optional .nil fun _ _ h => h
  refine spelling_many (Takes.orElse ?marker (d := 1) ?keyword)
  case marker =>
    refine (((hat.map ?_).seq_behind spelling_qualifiedName).seq_behind harguments).named
    intro ks _ h ks₁ _ h₁ ks₂ o h₂
    exact ((h.append h₁).append h₂).node rfl rfl trivial
  case keyword =>
    exact (spelling_wordOf (by decide)).map fun _ _ h => h.node rfl rfl trivial

theorem spelling_variableDeclarator (hr : r.Spelling k) :
    Takes (k + 1) 1 (variableDeclarator r) fun ks v => Spells ks [.namedVariable v] := by
  have hequals : Takes (k + 1) 1 equals fun ks _ => Spells ks [] := spelling_symbol (by decide)
  have hinitializer : Takes (k + 1) 1 (initializer r) fun ks i => Spells ks [.initializer i] := by
    refine (hequals.map ?_).seq_behind hr.expression
    intro ks _ h ks₁ _ h₁
    exact (h.append h₁).node rfl rfl trivial
  refine (((spelling_identifier.map ?_).seq_behind spelling_dimensions).seq_behind
    ((spelling_optional hinitializer).of_le (Nat.le_succ k))).named
  intro ks i h ks₁ _ h₁ ks₂ _ h₂
  exact (((h.identifier _).append h₁).append h₂).node rfl rfl trivial

theorem spelling_variableDeclarations (hr : r.Spelling k) :
    Takes (k + 1) 1 (variableDeclarations r) fun ks d => Spells ks [.declarations d] := by
  have hsemicolon : Takes (k + 1) 1 semicolon fun ks _ => Spells ks [] :=
    spelling_delimiter (by decide)
  have hterminator : Takes (k + 1) 1 (some <$> semicolon) fun ks _ => Spells ks [] :=
    hsemicolon.map fun _ _ h => h
  refine (((((takes_lead.map ?_).seq (spelling_modifiers hr)).seq
    (spelling_typeReference hr)).weaken.seq
    (spelling_separated (spelling_variableDeclarator hr))).weaken.seq hterminator).named
  rintro _ _ rfl ks ms h ks₁ _ h₁ ks₂ _ h₂ ks₃ _ h₃
  refine (((h.append h₁).append h₂).append h₃).node ?_ rfl trivial
  simp [Node.children]

theorem spelling_formalParameter (hr : r.Spelling k) :
    Takes (k + 1) 1 (formalParameter r) fun ks d => Spells ks [.declarations d] := by
  refine ((((takes_lead.map ?_).seq (spelling_modifiers hr)).seq
    (spelling_typeReference hr)).weaken.seq (spelling_variableDeclarator hr)).named
  rintro _ _ rfl ks ms h ks₁ _ h₁ ks₂ _ h₂
  refine ((h.append h₁).append h₂).node ?_ rfl trivial
  simp [Node.children, Padded.ofElement]

/-! ## Conditional statements -/

theorem spelling_condition (hr : r.Spelling k) :
    Takes (k + 1) 1 (condition r) fun ks c => Spells ks [.condition c] := by
  refine ((((spelling_delimiter (by decide)).map ?_).seq_behind hr.expression).seq_behind
    (e := 1) (spelling_delimiter (by decide))).named
  intro ks _ h ks₁ _ h₁ ks₂ _ h₂
  exact ((h.append h₁).append h₂).node rfl rfl trivial

theorem spelling_elseClause (hr : r.Spelling k) :
    Takes (k + 1) 1 (elseClause r) fun ks a => Spells ks [.statement a.2] := by
  refine (((spelling_keyword (by decide)).map ?_).seq_behind hr.statement).named
  intro ks _ h ks₁ _ h₁
  exact h.append h₁

/-- The head of a conditional statement, its then part, and an `else` clause if one can be read. -/
theorem parse_ifStatement {ls m : List Lexeme} {s : Statement}
    (h : (ifStatement r).parse ls = some (s, m)) :
    ∃ t c ls' thenPart rest,
      (Prod.mk <$> keyword .ifWord "if" <*> condition r).parse ls = some ((t, c), ls') ∧
      r.statement.parse ls' = some (thenPart, rest) ∧
      (s = .branch t c thenPart ∧ m = rest ∧ (elseClause r).parse rest = none ∨
        ∃ a, s = .fork t c thenPart a.1 a.2 ∧ (elseClause r).parse rest = some (a, m)) := by
  obtain ⟨f, o, rest, hf, ho, rfl⟩ := parse_seq_eq_some.mp h
  obtain ⟨g, thenPart, ls', hg, hthen, rfl⟩ := parse_seq_eq_some.mp hf
  obtain ⟨i, c, ls₁, hi, hc, rfl⟩ := parse_seq_eq_some.mp hg
  obtain ⟨t, ht, rfl⟩ := parse_map_eq_some.mp hi
  refine ⟨t, c, ls', thenPart, rest, ?_, hthen, ?_⟩
  · exact parse_seq_eq_some.mpr ⟨_, c, ls₁, parse_map_eq_some.mpr ⟨t, ht, rfl⟩, hc, rfl⟩
  · rcases parse_optional_eq_some.mp ho with ⟨rfl, rfl, hnone⟩ | ⟨a, rfl, ha⟩
    · exact .inl ⟨rfl, rfl, hnone⟩
    · exact .inr ⟨a, rfl, ha⟩

/-- A keyword and a condition. -/
theorem spelling_head (hr : r.Spelling k) {rule : Rule} {w : String} (hw : w ∉ literalWords) :
    Takes (k + 1) 1 (Prod.mk <$> keyword rule w <*> condition r)
      fun ks a => Spells ks [.condition a.2] := by
  refine ((spelling_keyword hw).map ?_).seq_behind ((spelling_condition hr).of_le (Nat.le_succ k))
  intro ks _ h ks₁ _ h₁
  exact h.append h₁

theorem closed_of_parse_ifStatement (hr : r.Spelling k) {ls m : List Lexeme} {s : Statement}
    (hls : AllLegal ls) (hlength : ls.length < k + 1) (h : (ifStatement r).parse ls = some (s, m)) :
    (Node.statement s).Closed := by
  obtain ⟨t, c, ls', thenPart, rest, hhead, hthen, ⟨rfl, -, -⟩ | ⟨a, rfl, ha⟩⟩ :=
    parse_ifStatement h
  · trivial
  · obtain ⟨hls', hlength'⟩ := (spelling_head hr (by decide)).left hls hlength hhead
    refine Bool.eq_false_iff.mpr fun hopen => ?_
    rw [hr.closed ls' thenPart rest hls' (by omega) hthen hopen] at ha
    cases ha

theorem spelling_ifStatement (hr : r.Spelling k) :
    Takes (k + 1) 1 (ifStatement r) fun ks s => Spells ks [.statement s] := by
  have hcondition := (spelling_condition hr).of_le (Nat.le_succ k)
  have helse : Takes k 0 (optional (elseClause r)) fun ks o =>
      Spells ks (o.map fun a => .statement a.2).toList :=
    spelling_optional ((spelling_elseClause hr).of_le (Nat.le_succ k))
  have hchildren : Takes (k + 1) 1 (ifStatement r) fun ks s => Spells ks s.children := by
    refine (((((spelling_keyword (by decide)).map ?_).seq_behind hcondition).seq_behind
      hr.statement).seq_behind helse).named
    intro ks _ h ks₁ _ h₁ ks₂ _ h₂ ks₃ o h₃
    have hparts := ((h.append h₁).append h₂).append h₃
    cases o with
    | none => exact hparts
    | some a => exact hparts
  refine (hchildren.and fun _ _ _ => closed_of_parse_ifStatement hr).mono ?_
  rintro ks s ⟨h, hclosed⟩
  exact h.node rfl rfl hclosed

/-! ## Statements -/

theorem spelling_block (hr : r.Spelling k) :
    Takes (k + 1) 1 (block r) fun ks b => Spells ks [.block b] := by
  refine ((((spelling_delimiter (by decide)).map ?_).seq_behind
    (spelling_many hr.blockStatement)).seq_behind (e := 1) (spelling_delimiter (by decide))).named
  intro ks _ h ks₁ _ h₁ ks₂ _ h₂
  refine ((h.append h₁).append h₂).node ?_ rfl trivial
  simp [Node.children]

/-- A statement, from its children. -/
theorem Spells.statement {ks : List Token} {ns : List Node} {s : Statement} (h : Spells ks ns)
    (hchildren : s.children = ns) (hclosed : (Node.statement s).Closed) :
    Spells ks [.statement s] :=
  h.node hchildren rfl hclosed

theorem spelling_statement (hr : r.Spelling k) :
    Takes (k + 1) 1 (statement r) fun ks s => Spells ks [.statement s] := by
  have hsemicolon : ∀ {k}, Takes k 1 semicolon fun ks _ => Spells ks [] :=
    spelling_delimiter (by decide)
  refine Takes.orElse ?block <| Takes.orElse ?ret <| Takes.orElse ?throwing <|
    Takes.orElse (spelling_ifStatement hr) <| Takes.orElse ?loop <| Takes.orElse ?empty ?expression
  case block => exact (spelling_block hr).map fun _ _ h => h.statement rfl trivial
  case ret =>
    have hreturn : Takes (k + 1) 1 (returnStatement r) fun ks s => Spells ks [.ret s] := by
      refine ((((spelling_keyword (by decide)).map ?_).seq_behind
        (spelling_optional hr.expression)).seq_behind hsemicolon).named
      intro ks _ h ks₁ _ h₁ ks₂ _ h₂
      refine ((h.append h₁).append h₂).node ?_ rfl trivial
      simp [Node.children]
    exact hreturn.map fun _ _ h => h.statement rfl trivial
  case throwing =>
    refine ((((spelling_keyword (by decide)).map ?_).seq_behind hr.expression).seq_behind
      hsemicolon).named
    intro ks _ h ks₁ _ h₁ ks₂ _ h₂
    exact ((h.append h₁).append h₂).statement rfl trivial
  case loop =>
    refine ((((spelling_keyword (by decide)).map ?_).seq_behind
      ((spelling_condition hr).of_le (Nat.le_succ k))).seq_behind hr.statement).named
    intro ks _ h ks₁ _ h₁ ks₂ _ h₂
    exact ((h.append h₁).append h₂).statement rfl trivial
  case empty =>
    refine (hsemicolon.map ?_).named
    exact fun _ t h => h.statement (s := .empty t) rfl trivial
  case expression =>
    refine (((spelling_expression hr).map ?_).seq_behind hsemicolon).named
    intro ks e h ks₁ _ h₁
    exact (h.bare.append h₁).statement rfl trivial

theorem spelling_blockStatement (hr : r.Spelling k) :
    Takes (k + 1) 1 (blockStatement r) fun ks s => Spells ks [.statement s] :=
  Takes.orElse ((spelling_variableDeclarations hr).map fun _ _ h => h.statement rfl trivial)
    (spelling_statement hr)

/-! ## Open statements -/

/-- A loop is its head and its body. -/
theorem parse_whileStatement {ls m : List Lexeme} {s : Statement}
    (h : (whileStatement r).parse ls = some (s, m)) :
    ∃ t c ls' body,
      (Prod.mk <$> keyword .whileWord "while" <*> condition r).parse ls = some ((t, c), ls') ∧
      r.statement.parse ls' = some (body, m) ∧ s = .loop t c body := by
  obtain ⟨f, body, ls', hf, hbody, rfl⟩ := parse_seq_eq_some.mp h
  obtain ⟨i, c, ls₁, hi, hc, rfl⟩ := parse_seq_eq_some.mp hf
  obtain ⟨t, ht, rfl⟩ := parse_map_eq_some.mp hi
  refine ⟨t, c, ls', body, ?_, hbody, rfl⟩
  exact parse_seq_eq_some.mpr ⟨_, c, ls₁, parse_map_eq_some.mpr ⟨t, ht, rfl⟩, hc, rfl⟩

/-- No `else` clause follows an open statement, which would have been read with it. -/
theorem parse_elseClause_of_isOpen (hr : r.Spelling k) {ls m : List Lexeme} {s : Statement}
    (hls : AllLegal ls) (hlength : ls.length < k + 1) (h : (statement r).parse ls = some (s, m))
    (hopen : s.isOpen = true) : (elseClause r).parse m = none := by
  have hneither : ∀ {p : Parser Statement}, Yields p (fun s => s.isOpen = false) →
      p.parse ls ≠ some (s, m) := by
    intro p hp hparse
    rw [hp ls s m hparse] at hopen
    cases hopen
  rcases parse_orElse_eq_some.mp h with h | ⟨-, h⟩
  · exact absurd h (hneither (Yields.map fun _ => rfl))
  rcases parse_orElse_eq_some.mp h with h | ⟨-, h⟩
  · exact absurd h (hneither (Yields.map fun _ => rfl))
  rcases parse_orElse_eq_some.mp h with h | ⟨-, h⟩
  · exact absurd h (hneither (.seq (.seq (.map fun _ _ _ => rfl))))
  rcases parse_orElse_eq_some.mp h with h | ⟨-, h⟩
  · obtain ⟨t, c, ls', thenPart, rest, hhead, hthen, ⟨rfl, rfl, hnone⟩ | ⟨a, rfl, ha⟩⟩ :=
      parse_ifStatement h
    · exact hnone
    · obtain ⟨hls', hlength'⟩ := (spelling_head hr (by decide)).left hls hlength hhead
      obtain ⟨hrest, hlengthRest⟩ := hr.statement.left hls' (by omega) hthen
      obtain ⟨ls₁, rfl, helse⟩ := parse_elseClause.mp ha
      rw [List.length_cons] at hlengthRest
      exact hr.closed ls₁ a.2 m hrest.tail (by omega) helse hopen
  rcases parse_orElse_eq_some.mp h with h | ⟨-, h⟩
  · obtain ⟨t, c, ls', body, hhead, hbody, rfl⟩ := parse_whileStatement h
    obtain ⟨hls', hlength'⟩ := (spelling_head hr (by decide)).left hls hlength hhead
    exact hr.closed ls' body m hls' (by omega) hbody hopen
  rcases parse_orElse_eq_some.mp h with h | ⟨-, h⟩
  · exact absurd h (hneither (Yields.map fun _ => rfl))
  · exact absurd h (hneither (.seq (.map fun _ _ => rfl)))

end LosslessJava.Grammar
