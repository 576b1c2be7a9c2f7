import LosslessJava.Grammar.Statement
import LosslessJava.Proofs.Grammar.Enclosed

/-!
# Choices that the first token makes

Most statements start with a token that no other statement starts with. So the ordered choice
between them can be made by the first token, whatever follows it.

* `choose`: the parser for a first token.
* `parse_statement_cons`, `parse_blockStatement_cons`: statements are read by what is chosen.
-/

namespace LosslessJava.Grammar

open LosslessJava.Grammar.Parser

variable {α β : Type} {r : Rules}

/-! ## Parsers for one first token -/

/-- The parser reads nothing that starts with another token. -/
def StartsWith (t : Token) (p : Parser α) : Prop :=
  ∀ l ls, l.token ≠ t → p.parse (l :: ls) = none

namespace StartsWith

variable {t : Token}

theorem map {p : Parser α} (h : StartsWith t p) (f : α → β) : StartsWith t (f <$> p) := by
  intro l ls hl
  show (p.parse _).map _ = none
  rw [h l ls hl]
  rfl

theorem seq {p : Parser (α → β)} (h : StartsWith t p) (q : Parser α) : StartsWith t (p <*> q) := by
  intro l ls hl
  rw [parse_seq, h l ls hl]

end StartsWith

theorem TakesToken.startsWith {t : Token} {take : Trivia → α} {p : Parser α}
    (h : TakesToken t take p) : StartsWith t p := by
  intro l ls hl
  rw [h.parse_cons, if_neg hl]

theorem takesToken_keyword {rule : Rule} {w : String} :
    TakesToken (.word w) id (keyword rule w) := by
  refine ⟨rfl, fun l ls => ?_⟩
  obtain ⟨lead, t⟩ := l
  cases t with
  | word v =>
    have hkey : ∀ ls, (keyword rule w).parse (⟨lead, .word v⟩ :: ls) =
        ((if v = w then some () else none).map fun _ => (lead, ls)) := by
      intro ls
      show ((((if v = w then some () else none).map _).map _).map _) = _
      by_cases hv : v = w
      · simp [hv]
      · simp [hv]
    rw [hkey]
    by_cases hv : v = w
    · simp [hv]
    · simp [hv]
  | _ => rfl

/-! ## Choices -/

/-- The first of the parsers that reads something. Each has the token that it starts with. -/
def firstOf : List (Token × Parser α) → Parser α → Parser α
  | [], other => other
  | (_, p) :: ps, other => p <|> firstOf ps other

/-- The parser for the token, or else the other one. -/
def choose : List (Token × Parser α) → Parser α → Token → Parser α
  | [], other, _ => other
  | (u, p) :: ps, other, t => if t = u then p else choose ps other t

theorem choose_of_not_mem {ps : List (Token × Parser α)} {other : Parser α} {t : Token}
    (h : t ∉ ps.map Prod.fst) : choose ps other t = other := by
  induction ps with
  | nil => rfl
  | cons e ps ih =>
    rw [List.map_cons, List.mem_cons, not_or] at h
    rw [choose, if_neg h.1]
    exact ih h.2

theorem choose_of_mem {ps : List (Token × Parser α)} {t : Token} (h : t ∈ ps.map Prod.fst)
    (other other' : Parser α) : choose ps other t = choose ps other' t := by
  induction ps with
  | nil => cases h
  | cons e ps ih =>
    rw [choose, choose]
    by_cases ht : t = e.1
    · rw [if_pos ht, if_pos ht]
    · rw [if_neg ht, if_neg ht]
      exact ih ((List.mem_cons.mp h).resolve_left ht)

/-- When the tokens are different ones, the first token decides. -/
theorem parse_firstOf {ps : List (Token × Parser α)} {other : Parser α}
    (hps : ∀ e ∈ ps, StartsWith e.1 e.2) (hnodup : (ps.map Prod.fst).Nodup)
    (hother : ∀ t ∈ ps.map Prod.fst, ∀ lead ls, other.parse (⟨lead, t⟩ :: ls) = none)
    (l : Lexeme) (ls : List Lexeme) :
    (firstOf ps other).parse (l :: ls) = (choose ps other l.token).parse (l :: ls) := by
  induction ps with
  | nil => rfl
  | cons e ps ih =>
    obtain ⟨u, p⟩ := e
    rw [List.map_cons, List.nodup_cons] at hnodup
    have ih := ih (fun e he => hps e (List.mem_cons_of_mem _ he)) hnodup.2
      fun t ht => hother t (List.mem_cons_of_mem _ ht)
    rw [firstOf, parse_orElse, ih, choose]
    by_cases hl : l.token = u
    · have hnone : (choose ps other l.token).parse (l :: ls) = none := by
        rw [hl, choose_of_not_mem hnodup.1]
        have := hother u List.mem_cons_self l.lead ls
        rwa [← hl] at this
      rw [if_pos hl, hnone]
      cases p.parse (l :: ls) <;> rfl
    · rw [if_neg hl, hps _ List.mem_cons_self l ls hl]

/-! ## Headings of statements -/

/-- The tokens that only statements start with. -/
def headings : List Token :=
  [.mark '{', .word "return", .word "throw", .word "if", .word "while", .mark ';']

/-- The parser reads nothing that starts with a heading. -/
def Rejects (p : Parser α) : Prop :=
  ∀ t ∈ headings, ∀ lead ls, p.parse (⟨lead, t⟩ :: ls) = none

namespace Rejects

theorem map {p : Parser α} (h : Rejects p) (f : α → β) : Rejects (f <$> p) := by
  intro t ht lead ls
  show (p.parse _).map _ = none
  rw [h t ht]
  rfl

theorem seq {p : Parser (α → β)} (h : Rejects p) (q : Parser α) : Rejects (p <*> q) := by
  intro t ht lead ls
  rw [parse_seq, h t ht]

theorem orElse {p q : Parser α} (h : Rejects p) (h' : Rejects q) : Rejects (p <|> q) := by
  intro t ht lead ls
  rw [parse_orElse, h t ht, h' t ht]

/-- A repetition of something that is not there. -/
theorem seq_many {p : Parser α} {q : Parser β} {γ : Type} (h : Rejects p) (h' : Rejects q)
    (bound : Nat) (f : List α → β → γ) : Rejects (f <$> many bound p <*> q) := by
  intro t ht lead ls
  have hnil : parseMany p bound (⟨lead, t⟩ :: ls) = ([], ⟨lead, t⟩ :: ls) := by
    cases bound with
    | zero => rfl
    | succ bound => rw [parseMany, h t ht]
  have hmany : (f <$> many bound p).parse (⟨lead, t⟩ :: ls) = some (f [], ⟨lead, t⟩ :: ls) := by
    have heq : (f <$> many bound p).parse (⟨lead, t⟩ :: ls) =
        (some (parseMany p bound (⟨lead, t⟩ :: ls))).map fun r => (f r.1, r.2) := rfl
    rw [heq, hnil]
    rfl
  rw [parse_seq, hmany]
  simp only [h' t ht, Option.map_none]

end Rejects

theorem rejects_wordOf {rule : Rule} {f : String → Option α}
    (h : ∀ w, .word w ∈ headings → f w = none) : Rejects (wordOf rule f) := by
  intro t ht lead ls
  cases t with
  | word w => simp [wordOf, token, acceptWord, h w ht]
  | _ => rfl

theorem eq_of_word_mem_headings {w : String} (h : .word w ∈ headings) :
    w = "return" ∨ w = "throw" ∨ w = "if" ∨ w = "while" := by
  simpa [headings] using h

theorem rejects_identifier : Rejects identifier := by
  refine (rejects_wordOf fun w hw => ?_).map _
  rcases eq_of_word_mem_headings hw with rfl | rfl | rfl | rfl <;> decide

theorem rejects_keyword {rule : Rule} {w : String} (h : .word w ∉ headings) :
    Rejects (keyword rule w) := by
  refine (rejects_wordOf fun v hv => if_neg ?_).map _
  rintro rfl
  exact h hv

theorem rejects_literalOf {rule : Rule} {kind : LiteralKind} : Rejects (literalOf rule kind) := by
  intro t ht lead ls
  cases t with
  | literal kind w => simp [headings] at ht
  | _ => rfl

theorem rejects_literal : Rejects literal := by
  refine rejects_literalOf.orElse <| rejects_literalOf.orElse <| rejects_literalOf.orElse <|
    rejects_literalOf.orElse <| Rejects.orElse ?_ ?_
  · refine (rejects_wordOf fun w hw => ?_).map _
    rcases eq_of_word_mem_headings hw with rfl | rfl | rfl | rfl <;> rfl
  · exact (rejects_keyword (by decide)).map _

/-- The symbol starts with a mark that is no heading. -/
def isInner (w : String) : Bool := w.toList.head? != some '{' && w.toList.head? != some ';'

theorem acceptSymbol_heading {w : String} {stop : List Char} (h : isInner w = true) {t : Token}
    (ht : t ∈ headings) (lead : Trivia) (ls : List Lexeme) :
    acceptSymbol w stop (⟨lead, t⟩ :: ls) = none := by
  cases t with
  | mark c =>
    have hc : c = '{' ∨ c = ';' := by simpa [headings] using ht
    cases hw : w.toList with
    | nil => exact acceptSymbol_of_nil hw stop _
    | cons d ds =>
      have hne : d ≠ c := by
        simp only [isInner, hw, List.head?_cons, Bool.and_eq_true, bne_iff_ne, ne_eq,
          Option.some.injEq] at h
        rcases hc with rfl | rfl
        · exact h.1
        · exact h.2
      simp [acceptSymbol, hw, hne]
  | _ => rfl

theorem rejects_symbol {rule : Rule} {w : String} {stop : List Char} (h : isInner w = true) :
    Rejects (symbol rule w stop) := by
  intro t ht lead ls
  show (acceptSymbol w stop _).map _ = none
  rw [acceptSymbol_heading h ht]
  rfl

theorem rejects_symbolOf {rule : Rule} {table : List (α × String × List Char)}
    (h : (table.all fun e => isInner e.2.1) = true) : Rejects (symbolOf rule table) := by
  intro t ht lead ls
  have hnone : acceptSymbolOf table (⟨lead, t⟩ :: ls) = none := by
    refine List.findSome?_eq_none_iff.mpr fun e he => ?_
    have hinner := List.all_eq_true.mp h e he
    simp [acceptSymbol_heading hinner ht]
  show (acceptSymbolOf table _).map _ = none
  rw [hnone]
  rfl

/-! ## Expressions and declarations -/

theorem rejects_expression : Rejects (expression r) := by
  have hparentheses : Rejects (parenthesized r) :=
    (((rejects_symbol (by decide)).map _).seq _).seq _
  have hthis : Rejects thisExpression := (rejects_keyword (by decide)).map _
  have hnew : Rejects (newClass r) :=
    (((rejects_keyword (by decide)).map _).seq _).seq _ |>.seq _
  have hcall : Rejects (methodCall r) := (rejects_identifier.map _).seq _
  have hprimary : Rejects (primary r) :=
    (rejects_literal.map _).orElse <| hthis.orElse <| hnew.orElse <| hcall.orElse <|
      (rejects_identifier.map _).orElse hparentheses
  have hchain : Rejects (postfixExpression r) := (hprimary.map _).seq _
  have hunary : Rejects (unaryExpression r) :=
    (((rejects_symbolOf (by decide)).map _).seq _).orElse ((hchain.map _).seq _)
  exact (hunary.map _).seq _

theorem rejects_variableDeclarations : Rejects (variableDeclarations r) := by
  have huse : Rejects (annotationUse r) := (((rejects_symbol (by decide)).map _).seq _).seq _
  have hword : Rejects modifierWord := by
    refine (rejects_wordOf fun w hw => ?_).map _
    rcases eq_of_word_mem_headings hw with rfl | rfl | rfl | rfl <;> decide
  have hname : Rejects (qualifiedName r.bound) := (rejects_identifier.map _).seq _
  have htype : Rejects (typeReference r) := by
    refine Rejects.seq (Rejects.orElse (Rejects.map (rejects_wordOf fun w hw => ?_) _)
      ((hname.map _).seq _)) _
    rcases eq_of_word_mem_headings hw with rfl | rfl | rfl | rfl <;> decide
  intro t ht lead ls
  have hparts : Rejects (declaredBehind r lead <*> (some <$> semicolon)) :=
    ((Rejects.seq_many (huse.orElse hword) htype r.bound _).seq _).seq _
  rw [(takesLead_variableDeclarations r).cons]
  exact hparts t ht .empty ls

/-! ## Statements -/

/-- The statements with a heading. -/
def headed (r : Rules) : List (Token × Parser Statement) :=
  [(.mark '{', Statement.block <$> block r), (.word "return", Statement.ret <$> returnStatement r),
    (.word "throw", throwStatement r), (.word "if", ifStatement r),
    (.word "while", whileStatement r), (.mark ';', emptyStatement)]

theorem headed_startsWith : ∀ e ∈ headed r, StartsWith e.1 e.2 := by
  have hbrace : StartsWith (.mark '{') leftBrace := (takesToken_delimiter rfl).startsWith
  have hsemi : StartsWith (.mark ';') semicolon := takesToken_semicolon.startsWith
  have hword : ∀ {rule : Rule} {w : String}, StartsWith (.word w) (keyword rule w) :=
    takesToken_keyword.startsWith
  intro e he
  simp only [headed, List.mem_cons, List.not_mem_nil, or_false] at he
  rcases he with rfl | rfl | rfl | rfl | rfl | rfl
  · exact (((hbrace.map _).seq _).seq _).map _
  · exact (((hword.map _).seq _).seq _).map _
  · exact ((hword.map _).seq _).seq _
  · exact (((hword.map _).seq _).seq _).seq _
  · exact ((hword.map _).seq _).seq _
  · exact hsemi.map _

theorem parse_choose {other : Parser Statement} (h : Rejects other) (l : Lexeme)
    (ls : List Lexeme) : (firstOf (headed r) other).parse (l :: ls) =
      (choose (headed r) other l.token).parse (l :: ls) :=
  parse_firstOf headed_startsWith (by show headings.Nodup; decide) h l ls

theorem parse_statement_cons (l : Lexeme) (ls : List Lexeme) :
    (statement r).parse (l :: ls) =
      (choose (headed r) (expressionStatement r) l.token).parse (l :: ls) := by
  have hrejects : Rejects (expressionStatement r) := (rejects_expression.map _).seq _
  have heq : statement r = firstOf (headed r) (expressionStatement r) := rfl
  rw [heq]
  exact parse_choose hrejects l ls

/-- What a statement of a block without a heading is. -/
def unheaded (r : Rules) : Parser Statement :=
  Statement.declaration <$> variableDeclarations r <|> expressionStatement r

theorem parse_blockStatement_cons (l : Lexeme) (ls : List Lexeme) :
    (blockStatement r).parse (l :: ls) =
      (choose (headed r) (unheaded r) l.token).parse (l :: ls) := by
  rw [blockStatement, parse_orElse, parse_statement_cons]
  by_cases hl : l.token ∈ (headed r).map Prod.fst
  · have hnone : (Statement.declaration <$> variableDeclarations r).parse (l :: ls) = none :=
      rejects_variableDeclarations.map _ l.token hl l.lead ls
    rw [hnone, choose_of_mem hl _ (unheaded r)]
  · rw [choose_of_not_mem hl, choose_of_not_mem hl]
    rfl

end LosslessJava.Grammar
