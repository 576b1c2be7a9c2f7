import LosslessJava.Grammar.Terminal
import LosslessJava.Proofs.Grammar.Piece

/-!
# Terminals

What the terminals of the grammar take off the front of a text.

* `IsMark`, `IsKeyword`: one delimiter or one keyword.
* `IsSymbol`: the marks of an operator, with trivia in front of the first one only.
* `IsName`, `IsDotted`: an identifier and a dotted name.
* `Joint` operators: `joint_binary`, `joint_prefixed`, `joint_assigned`.
-/

namespace LosslessJava.Grammar

open Step LosslessJava.Grammar.Parser
open Lexeme (AllLegal textOf)

/-! ## Words -/

/-- The lexemes are one word. -/
def IsKeyword (w : String) (xs : List Lexeme) (t : Trivia) : Prop :=
  xs = [⟨t, .word w⟩] ∧ Lex.IsGap false t.toList ∧ IsWord w.toList

theorem reads_wordOf {α : Type} {rule : Rule} {f : String → Option α} :
    Reads (wordOf rule f) fun xs a => ∃ w, IsKeyword w xs a.1 ∧ f w = some a.2 := by
  refine reads_token fun ls a count hls h => ?_
  unfold acceptWord at h
  split at h
  · rename_i lead w rest
    obtain ⟨b, hb, heq⟩ := Option.map_eq_some_iff.mp h
    cases heq
    have hl := hls.head
    exact ⟨w, ⟨rfl, hl.gap (by simp), hl.token⟩, hb⟩
  · cases h

theorem reads_keyword {rule : Rule} {w : String} : Reads (keyword rule w) (IsKeyword w) := by
  apply (reads_wordOf.map Prod.fst).mono
  rintro xs t ⟨⟨t, u⟩, ⟨v, hv, hu⟩, rfl⟩
  by_cases h : v = w
  · rw [← h]
    exact hv
  · simp [h] at hu

namespace IsKeyword

variable {w : String} {xs : List Lexeme} {t : Trivia}

theorem phrase (h : IsKeyword w xs t) (s : Bool) : Phrase s xs := by
  obtain ⟨rfl, -, -⟩ := h
  exact .single rfl rfl

theorem piece (h : IsKeyword w xs t) (s : Bool) : Piece s (spaced t w) [] [t] xs := by
  have hp := h.phrase s
  obtain ⟨rfl, ht, -⟩ := h
  exact .token ht rfl hp

theorem crisp (h : IsKeyword w xs t) : Crisp w.toList := h.2.2.crisp

theorem opens (h : IsKeyword w xs t) (hw : w ≠ "else") : Opens t xs := by
  obtain ⟨rfl, -, -⟩ := h
  exact ⟨_, [], rfl, rfl, by simp [Grammar.opens, hw]⟩

end IsKeyword

/-- The lexemes are the identifier. -/
structure IsName (xs : List Lexeme) (i : Identifier) : Prop where
  isKeyword : IsKeyword i.name xs i.lead
  type : i.type = none
  not_reserved : reservedWords.contains i.name = false

theorem asIdentifier_eq_some {w v : String} (h : asIdentifier w = some v) :
    w = v ∧ reservedWords.contains w = false := by
  unfold asIdentifier at h
  by_cases hw : reservedWords.contains w = true
  · rw [if_pos hw] at h
    cases h
  · rw [if_neg hw] at h
    cases h
    exact ⟨rfl, by simpa using hw⟩

theorem reads_identifier : Reads identifier IsName := by
  apply (reads_wordOf.map _).mono
  rintro xs i ⟨⟨t, v⟩, ⟨w, hw, hv⟩, rfl⟩
  obtain ⟨rfl, hr⟩ := asIdentifier_eq_some hv
  exact ⟨hw, rfl, hr⟩

theorem ne_else_of_not_reserved {w : String} (h : reservedWords.contains w = false) :
    w ≠ "else" := by
  rintro rfl
  revert h
  decide

namespace IsName

variable {xs : List Lexeme} {i : Identifier}

theorem opens (h : IsName xs i) : Opens i.lead xs :=
  h.isKeyword.opens (ne_else_of_not_reserved h.not_reserved)

theorem all_tidy (h : IsName xs i) {t : Trivia} (ht : Lex.IsGap false t.toList) :
    (Node.identifier (i.withLead t)).All Node.Tidy :=
  Node.all_tidy_leaf rfl rfl h.isKeyword.crisp ht rfl rfl

theorem gap (h : IsName xs i) : Lex.IsGap false i.lead.toList := h.isKeyword.2.1

theorem reading (h : IsName xs i) (s : Bool) : Reading s (.identifier i) xs :=
  ⟨(h.isKeyword.piece s).text, h.all_tidy (t := i.lead) h.gap, h.isKeyword.phrase s, h.opens⟩

end IsName

/-! ## Dotted names -/

/-- The lexemes of a segment behind another one. -/
def dotSegment (w : String) : List Lexeme := [⟨.empty, .mark '.'⟩, ⟨.empty, .word w⟩]

theorem Trivia.eq_empty_of_isEmpty {t : Trivia} (h : t.isEmpty = true) : t = .empty := by
  obtain ⟨text⟩ := t
  have h : text = "" := String.isEmpty_iff.mp h
  rw [h]
  rfl

theorem reads_tightMark {c : Char} :
    Reads (tightMark c) fun xs _ => xs = [⟨.empty, .mark c⟩] := by
  intro ls a rest hls h
  unfold tightMark at h
  simp only at h
  split at h
  · rename_i lead d rest'
    split at h
    · rename_i hc
      cases h
      rw [Bool.and_eq_true, beq_iff_eq] at hc
      exact ⟨[⟨lead, .mark d⟩], rfl, by rw [Trivia.eq_empty_of_isEmpty hc.1, hc.2]⟩
    · cases h
  · cases h

theorem reads_tightToken {α : Type} {rule : Rule} {accept : List Lexeme → Option (α × Nat)}
    {C : List Lexeme → α → Prop}
    (h : ∀ l ls a count, AllLegal (l :: ls) → l.lead = .empty →
      accept (l :: ls) = some (a, count) → C ((l :: ls).take count) a) :
    Reads (tightToken rule accept) C := by
  intro ls a rest hls hp
  obtain ⟨⟨b, count⟩, hb, heq⟩ := Option.map_eq_some_iff.mp hp
  obtain ⟨rfl, rfl⟩ := Prod.mk.inj heq
  cases ls with
  | nil => cases hb
  | cons l ls =>
    by_cases hl : l.lead.isEmpty = true
    · simp only [hl, ↓reduceIte] at hb
      refine ⟨(l :: ls).take count, (List.take_append_drop count _).symm, ?_⟩
      exact h l ls b count hls (Trivia.eq_empty_of_isEmpty hl) hb
    · simp only [hl, Bool.false_eq_true, ↓reduceIte] at hb
      cases hb

theorem reads_segment :
    Reads segment fun xs w => xs = dotSegment w ∧ IsWord w.toList ∧
      reservedWords.contains w = false := by
  have hword : Reads (tightToken .identifier (acceptWord asIdentifier)) fun xs a =>
      xs = [⟨.empty, .word a.2⟩] ∧ IsWord a.2.toList ∧ reservedWords.contains a.2 = false := by
    refine reads_tightToken fun l ls a count hls hl h => ?_
    unfold acceptWord at h
    split at h
    · rename_i lead w rest heq
      cases heq
      obtain ⟨b, hb, heq⟩ := Option.map_eq_some_iff.mp h
      cases heq
      obtain ⟨rfl, hr⟩ := asIdentifier_eq_some hb
      exact ⟨by rw [List.take_succ_cons, List.take_zero, ← hl], (hls.head).token, hr⟩
    · cases h
  apply (reads_tightMark.seqRight (hword.map _)).mono
  rintro xs w ⟨ys, zs, f, b, rfl, ⟨-, rfl, rfl⟩, ⟨a, ⟨rfl, hw, hr⟩, rfl⟩, rfl⟩
  exact ⟨rfl, hw, hr⟩

/-- The lexemes are the dotted name, without trivia inside. -/
structure IsDotted (xs : List Lexeme) (t : Trivia) (n : QualifiedName) : Prop where
  lexemes : ∃ first rest, n.segments = first :: rest ∧
    xs = ⟨t, .word first⟩ :: rest.flatMap dotSegment
  gap : Lex.IsGap false t.toList
  words : ∀ w ∈ n.segments, IsWord w.toList ∧ reservedWords.contains w = false

theorem dotted_cons (w : String) (ws : List String) :
    (dotted (w :: ws)).toList = w.toList ++ textOf (ws.flatMap dotSegment) := by
  induction ws generalizing w with
  | nil => simp [dotted]
  | cons v vs ih =>
    simp [dotted, ih v, dotSegment, Lexeme.toList, Token.toList, Trivia.toList, Trivia.empty]

theorem phrase_dotSegments (s : Bool) (ws : List String) : Phrase s (ws.flatMap dotSegment) := by
  induction ws with
  | nil => exact .nil
  | cons w ws ih =>
    rw [List.flatMap_cons]
    have hdot : Phrase s [⟨.empty, .mark '.'⟩] := .single rfl rfl
    have hword : Phrase s [⟨.empty, .word w⟩] := .single rfl rfl
    exact (hdot.append hword).append ih

theorem several_segment {C : List Lexeme → String → Prop} (hC : ∀ xs w, C xs w → xs = dotSegment w)
    {xs : List Lexeme} {ws : List String} (h : Several C xs ws) : xs = ws.flatMap dotSegment := by
  induction h with
  | nil => rfl
  | cons h _ ih => rw [hC _ _ h, ih, List.flatMap_cons]

theorem several_forall {α : Type} {C : List Lexeme → α → Prop} {P : α → Prop}
    (hC : ∀ xs a, C xs a → P a) {xs : List Lexeme} {as : List α} (h : Several C xs as) :
    ∀ a ∈ as, P a := by
  induction h with
  | nil => simp
  | cons h _ ih =>
    intro a ha
    rcases List.mem_cons.mp ha with rfl | ha
    · exact hC _ _ h
    · exact ih a ha

theorem reads_dottedName {bound : Nat} :
    Reads (dottedName bound) fun xs a => IsDotted xs a.1 a.2 := by
  apply ((reads_identifier.map _).seq (reads_segment.many bound)).mono
  rintro xs a ⟨ys, zs, f, ws, rfl, ⟨i, hi, rfl⟩, hws, rfl⟩
  have hzs := several_segment (fun xs w h => h.1) hws
  refine ⟨⟨i.name, ws, rfl, ?_⟩, hi.gap, ?_⟩
  · rw [hzs, hi.isKeyword.1]
    rfl
  · intro w hw
    rcases List.mem_cons.mp hw with rfl | hw
    · exact ⟨hi.isKeyword.2.2, hi.not_reserved⟩
    · exact several_forall (fun xs w h => h.2) hws w hw

theorem crisp_dotted (w : String) (ws : List String) (h : ∀ v ∈ w :: ws, Crisp v.toList) :
    Crisp (dotted (w :: ws)).toList := by
  induction ws generalizing w with
  | nil => exact h w List.mem_cons_self
  | cons v vs ih =>
    have hrest := ih v fun u hu => h u (List.mem_cons_of_mem _ hu)
    have := (h w List.mem_cons_self).join hrest ['.']
    simpa [dotted] using this

namespace IsDotted

variable {xs : List Lexeme} {t : Trivia} {n : QualifiedName}

theorem piece (h : IsDotted xs t n) (s : Bool) : Piece s (spaced t n.text) [] [t] xs := by
  obtain ⟨first, rest, hn, rfl⟩ := h.lexemes
  refine ⟨?_, by simp, by simpa using h.gap, ?_⟩
  · rw [text_spaced, QualifiedName.text, hn, dotted_cons]
    simp [Lexeme.toList, Token.toList]
  · have hword : Phrase s [⟨t, .word first⟩] := .single rfl rfl
    exact hword.append (phrase_dotSegments s rest)

theorem opens (h : IsDotted xs t n) : Opens t xs := by
  obtain ⟨first, rest, hn, rfl⟩ := h.lexemes
  have hw := h.words first (by simp [hn])
  exact ⟨_, _, rfl, rfl, by simp [Grammar.opens, ne_else_of_not_reserved hw.2]⟩

theorem crisp (h : IsDotted xs t n) : Crisp n.text.toList := by
  have hwords := fun w hw => (h.words w hw).1.crisp
  obtain ⟨first, rest, hn, rfl⟩ := h.lexemes
  rw [hn] at hwords
  rw [QualifiedName.text, hn]
  exact crisp_dotted first rest hwords

end IsDotted

/-! ## Literals -/

/-- The lexemes are the literal. -/
structure IsLiteral (xs : List Lexeme) (l : Literal) : Prop where
  lexemes : ∃ k, xs = [⟨l.lead, k⟩] ∧ k.toList = l.source.toList ∧
    ((∃ kind text, k = .literal kind text) ∨ k = .word l.source ∧ l.source ≠ "else")
  gap : Lex.IsGap false l.lead.toList
  crisp : Crisp l.source.toList

theorem reads_literalOf {rule : Rule} {kind : LiteralKind} :
    Reads (literalOf rule kind) IsLiteral := by
  refine reads_token fun ls a count hls h => ?_
  unfold acceptLiteral at h
  split at h
  · rename_i lead k text rest
    by_cases hk : k = kind
    · rw [if_pos hk] at h
      cases h
      have hl := hls.head
      have htext : Token.IsLiteralText text.toList := hl.token
      exact ⟨⟨_, rfl, rfl, Or.inl ⟨k, text, rfl⟩⟩, hl.gap (by simp), htext.crisp⟩
    · rw [if_neg hk] at h
      cases h
  · cases h

theorem isLiteral_of_isKeyword {w : String} {xs : List Lexeme} {t : Trivia} {v : LiteralValue}
    (h : IsKeyword w xs t) (hw : w ≠ "else") : IsLiteral xs ⟨t, v, w⟩ :=
  ⟨⟨.word w, h.1, rfl, Or.inr ⟨rfl, hw⟩⟩, h.2.1, h.crisp⟩

theorem reads_booleanLiteral : Reads booleanLiteral IsLiteral := by
  apply (reads_wordOf.map _).mono
  rintro xs l ⟨⟨t, b⟩, ⟨w, hw, hb⟩, rfl⟩
  by_cases htrue : w = "true"
  · rw [if_pos htrue] at hb
    cases hb
    rw [htrue] at hw
    exact isLiteral_of_isKeyword hw (by decide)
  · rw [if_neg htrue] at hb
    by_cases hfalse : w = "false"
    · rw [if_pos hfalse] at hb
      cases hb
      rw [hfalse] at hw
      exact isLiteral_of_isKeyword hw (by decide)
    · rw [if_neg hfalse] at hb
      cases hb

theorem reads_nullLiteral : Reads nullLiteral IsLiteral := by
  apply (reads_keyword.map _).mono
  rintro xs l ⟨t, ht, rfl⟩
  exact isLiteral_of_isKeyword ht (by decide)

theorem reads_literal : Reads literal IsLiteral :=
  reads_literalOf.orElse <| reads_literalOf.orElse <| reads_literalOf.orElse <|
    reads_literalOf.orElse <| reads_booleanLiteral.orElse reads_nullLiteral

theorem IsLiteral.reading {xs : List Lexeme} {l : Literal} (h : IsLiteral xs l) (s : Bool) :
    Reading s (.literal l) xs := by
  obtain ⟨k, rfl, hk, hkind⟩ := h.lexemes
  refine ⟨?_, Node.all_tidy_leaf rfl rfl h.crisp h.gap rfl rfl, ?_, ?_⟩
  · simp [Node.steps, Literal.steps, text_spaced, Lexeme.toList, hk]
  · rcases hkind with ⟨kind, text, rfl⟩ | ⟨rfl, -⟩
    · exact .single rfl rfl
    · exact .single rfl rfl
  · refine ⟨_, [], rfl, rfl, ?_⟩
    rcases hkind with ⟨kind, text, rfl⟩ | ⟨rfl, hne⟩
    · rfl
    · simp [opens, hne]

/-! ## Delimiters and operators -/

/-- The lexemes of a symbol. -/
def marks (t : Trivia) : List Char → List Lexeme
  | [] => []
  | c :: cs => ⟨t, .mark c⟩ :: cs.map fun d => ⟨.empty, .mark d⟩

/-- The lexemes are the characters of the symbol, without trivia inside. -/
def IsSymbol (w : String) (xs : List Lexeme) (t : Trivia) : Prop :=
  xs = marks t w.toList ∧ Lex.IsGap false t.toList

/-- The lexemes are the delimiter. -/
def IsMark (c : Char) (xs : List Lexeme) (t : Trivia) : Prop :=
  xs = [⟨t, .mark c⟩] ∧ Lex.IsGap false t.toList

theorem take_of_startsTight {cs : List Char} {ls : List Lexeme} (h : startsTight cs ls = true) :
    ls.take cs.length = cs.map fun d => ⟨.empty, .mark d⟩ := by
  induction cs generalizing ls with
  | nil => rfl
  | cons c cs ih =>
    match ls, h with
    | ⟨lead, .mark d⟩ :: ls, h =>
      simp only [startsTight, Bool.and_eq_true, beq_iff_eq] at h
      obtain ⟨⟨hlead, rfl⟩, h⟩ := h
      rw [List.length_cons, List.take_succ_cons, List.map_cons, ih h,
        Trivia.eq_empty_of_isEmpty hlead]

theorem isSymbol_of_acceptSymbol {w : String} {stop : List Char} {ls : List Lexeme} {t : Trivia}
    {count : Nat} (hls : AllLegal ls) (h : acceptSymbol w stop ls = some (t, count)) :
    IsSymbol w (ls.take count) t := by
  unfold acceptSymbol at h
  split at h
  · rename_i lead d rest
    split at h
    · cases h
    · rename_i c cs hw
      split at h
      · rename_i hc
        cases h
        simp only [Bool.and_eq_true, beq_iff_eq] at hc
        obtain ⟨⟨rfl, hcs⟩, -⟩ := hc
        refine ⟨?_, (hls.head).gap (by simp)⟩
        rw [hw, List.take_succ_cons, take_of_startsTight hcs]
        rfl
      · cases h
  · cases h

theorem reads_symbol {rule : Rule} {w : String} {stop : List Char} :
    Reads (symbol rule w stop) (IsSymbol w) :=
  reads_token fun _ _ _ hls h => isSymbol_of_acceptSymbol hls h

theorem reads_delimiter {rule : Rule} {w : String} {c : Char} (hw : w.toList = [c]) :
    Reads (delimiter rule w) (IsMark c) := by
  apply reads_symbol.mono
  rintro xs t ⟨rfl, ht⟩
  rw [hw]
  exact ⟨rfl, ht⟩

theorem reads_symbolOf {α : Type} {rule : Rule} {table : List (α × String × List Char)} :
    Reads (symbolOf rule table) fun xs a =>
      ∃ w stop, (a.2, w, stop) ∈ table ∧ IsSymbol w xs a.1 := by
  refine reads_token fun ls a count hls h => ?_
  obtain ⟨⟨b, w, stop⟩, hmem, hb⟩ := List.exists_of_findSome?_eq_some h
  obtain ⟨⟨t, n⟩, ht, heq⟩ := Option.map_eq_some_iff.mp hb
  cases heq
  exact ⟨w, stop, hmem, isSymbol_of_acceptSymbol hls ht⟩

/-! ## Operators -/

theorem reads_prefixOperator :
    Reads prefixOperator fun xs a => IsSymbol a.2.symbol xs a.1 := by
  apply reads_symbolOf.mono
  rintro xs ⟨t, o⟩ ⟨w, stop, hmem, h⟩
  obtain ⟨o', -, heq⟩ := List.mem_map.mp hmem
  cases heq
  exact h

theorem reads_postfixOperator :
    Reads postfixOperator fun xs a => IsSymbol a.2.symbol xs a.1 := by
  apply reads_symbolOf.mono
  rintro xs ⟨t, o⟩ ⟨w, stop, hmem, h⟩
  obtain ⟨o', -, heq⟩ := List.mem_map.mp hmem
  cases heq
  exact h

theorem reads_assignmentOperator :
    Reads assignmentOperator fun xs a => IsSymbol a.2.symbol xs a.1 := by
  apply reads_symbolOf.mono
  rintro xs ⟨t, o⟩ ⟨w, stop, hmem, h⟩
  obtain ⟨o', -, heq⟩ := List.mem_map.mp hmem
  cases heq
  exact h

theorem reads_binaryOperator :
    Reads binaryOperator fun xs a => IsSymbol a.2.symbol xs a.1 := by
  unfold binaryOperator
  induction binaryOperators with
  | nil => exact reads_fail
  | cons o os ih =>
    refine Reads.orElse ?_ ih
    apply (reads_symbol.map _).mono
    rintro xs a ⟨t, ht, rfl⟩
    exact ht

theorem tokens_marks (t : Trivia) (cs : List Char) : tokens (marks t cs) = cs.map Token.mark := by
  cases cs <;> simp [marks, tokens]

theorem textOf_marks {t : Trivia} {cs : List Char} (h : cs ≠ []) :
    textOf (marks t cs) = t.toList ++ cs := by
  cases cs with
  | nil => exact absurd rfl h
  | cons c cs =>
    have hcs : textOf (cs.map fun d => ⟨.empty, .mark d⟩) = cs := by
      induction cs with
      | nil => rfl
      | cons d ds ih =>
        have ih := ih (List.cons_ne_nil c ds)
        rw [List.map_cons, Lexeme.textOf_cons, ih]
        rfl
    rw [marks, Lexeme.textOf_cons, hcs]
    simp [Lexeme.toList, Token.toList]

/-- Whether the characters are an operator. -/
def isOperator (cs : List Char) : Bool :=
  !cs.isEmpty && (cs.map Token.mark).foldlM nest [false] == some [false] &&
    ((cs.map Token.mark).foldlM touch false).isSome

theorem isOperator_binary (o : BinaryOperator) : isOperator o.symbol.toList = true := by
  cases o <;> decide

theorem isOperator_prefixed (o : PrefixOperator) : isOperator o.symbol.toList = true := by
  cases o <;> decide

theorem isOperator_assignment (o : AssignmentOperator) : isOperator o.symbol.toList = true := by
  cases o <;> decide

theorem crisp_prefixed (o : PrefixOperator) : Crisp o.symbol.toList := by
  cases o <;> exact crisp_of_all rfl (by decide)

theorem crisp_postfixed (o : PostfixOperator) : Crisp o.symbol.toList := by
  cases o <;> exact crisp_of_all rfl (by decide)

namespace IsSymbol

variable {w : String} {xs ys : List Lexeme} {t : Trivia}

theorem joint (h : IsSymbol w xs t) (hw : isOperator w.toList = true) : Joint xs := by
  simp only [isOperator, Bool.and_eq_true, beq_iff_eq] at hw
  obtain ⟨slash, hs⟩ := Option.isSome_iff_exists.mp hw.2
  obtain ⟨rfl, -⟩ := h
  rw [← tokens_marks t] at hs
  refine joint_of_tokens ?_ hs
  rw [tokens_marks]
  exact hw.1.2

theorem text (h : IsSymbol w xs t) (hw : isOperator w.toList = true) :
    textOf xs = Step.text (spaced t w) := by
  simp only [isOperator, Bool.and_eq_true, Bool.not_eq_true', List.isEmpty_eq_false_iff] at hw
  rw [h.1, textOf_marks hw.1.1, text_spaced]

/-- An operator and what follows it. -/
theorem append {s : Bool} {steps : List Step} {nodes : List Node} {gaps : List Trivia}
    (h : IsSymbol w xs t) (hw : isOperator w.toList = true) (hy : Piece s steps nodes gaps ys)
    {u : Trivia} (ho : Opens u ys) :
    Piece s (spaced t w ++ steps) nodes (t :: gaps) (xs ++ ys) := by
  refine ⟨?_, hy.nodes, ?_, h.joint hw u ys ho s hy.phrase⟩
  · rw [Lexeme.textOf_append, h.text hw, hy.text, text_append]
  · intro v hv
    rcases List.mem_cons.mp hv with rfl | hv
    · exact h.2
    · exact hy.gaps v hv

end IsSymbol

/-! ## Delimiters -/

theorem reads_leftParenthesis : Reads leftParenthesis (IsMark '(') := reads_delimiter rfl

theorem reads_rightParenthesis : Reads rightParenthesis (IsMark ')') := reads_delimiter rfl

theorem reads_leftBrace : Reads leftBrace (IsMark '{') := reads_delimiter rfl

theorem reads_rightBrace : Reads rightBrace (IsMark '}') := reads_delimiter rfl

theorem reads_question : Reads question (IsMark '?') := reads_delimiter rfl

/-- The delimiters that a node can start or end with. -/
def delimiters : List String := ["(", ")", "\x7b", "\x7d", "[", "]", ">", "?", "@"]

theorem crisp_delimiter (w : String) (h : w ∈ delimiters) : Crisp w.toList := by
  simp only [delimiters, List.mem_cons, List.not_mem_nil, or_false] at h
  rcases h with rfl | rfl | rfl | rfl | rfl | rfl | rfl | rfl | rfl <;>
    exact crisp_singleton rfl (by decide) (by decide)

namespace IsMark

variable {c : Char} {xs : List Lexeme} {t : Trivia}

theorem piece {w : String} (h : IsMark c xs t) (hw : w.toList = [c]) {s : Bool}
    (hn : nest [s] (.mark c) = some [s]) (ht : touch false (.mark c) = some false) :
    Piece s (spaced t w) [] [t] xs := by
  obtain ⟨rfl, hgap⟩ := h
  exact .token hgap hw.symm (.single hn ht)

theorem opens (h : IsMark c xs t) (hc : Grammar.opens (.mark c) = true) : Opens t xs := by
  obtain ⟨rfl, -⟩ := h
  exact ⟨_, [], rfl, rfl, hc⟩

end IsMark

end LosslessJava.Grammar
