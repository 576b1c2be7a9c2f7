import LosslessJava.Grammar.Terminal
import LosslessJava.Proofs.Grammar.Agree
import LosslessJava.Proofs.Grammar.Lead

/-!
# Terminals agree

A terminal looks at the next token, or at a few marks that are no brackets and no semicolon. So it
does not see what a barrier is followed by.

* `agree_of_head`: parsers that look at one token.
* `agree_symbol`: parsers that look at several marks.
* `TakesLead.agree`: rules that take the trivia off their first token.
* `agree_separated`, `agree_angled`: lists.
-/

namespace LosslessJava.Grammar

open LosslessJava.Grammar.Parser

variable {α β : Type} {s : Bool} {k d : Nat}

/-- Only the readings of a parser count. -/
theorem Agree.congr {p p' q q' : Parser α} (h : Agree s k d p q)
    (hp : ∀ ls, p'.parse ls = p.parse ls) (hq : ∀ ls, q'.parse ls = q.parse ls) :
    Agree s k d p' q' := by
  intro tail tail' xs hctx hxs hn
  rw [hp, hq]
  exact h tail tail' xs hctx hxs hn

theorem Inside.tail {x : Lexeme} {xs tail : List Lexeme} (h : Inside s tail (x :: xs))
    (hx : nest [s] x.token = some [s]) : Inside s tail xs := by
  rcases h with h | h
  · exact Or.inl h
  · apply Or.inr
    rw [tokens_cons, Nested, List.foldlM_cons, hx] at h
    exact h

/-! ## One token -/

/-- Parsers that look at the next token only, and take no bracket and no barrier. -/
theorem agree_of_head {p : Parser α} (hnil : p.parse [] = none)
    (h : ∀ l, (∀ ls, p.parse (l :: ls) = none) ∨ (∃ a, ∀ ls, p.parse (l :: ls) = some (a, ls)) ∧
      nest [s] l.token = some [s] ∧ isBarrier s l.token = false) : Agree s k 1 p p := by
  intro tail tail' xs hctx hxs hn
  cases xs with
  | nil =>
    have hbarred : ∀ ls, Barred s ls → p.parse ls = none := by
      rintro _ ⟨l, ls, rfl, hl⟩
      rcases h l with hnone | ⟨-, -, hfalse⟩
      · exact hnone ls
      · rw [hfalse] at hl
        cases hl
    exact hctx.outcome_none hnil hnil hbarred hbarred
  | cons x xs =>
    rcases h x with hnone | ⟨⟨a, ha⟩, hnest, -⟩
    · exact Or.inl ⟨hnone _, hnone _⟩
    · exact Or.inr ⟨a, xs, ha _, ha _, hxs.tail hnest, Nat.le_refl _⟩

theorem isBarrier_word (w : String) : isBarrier s (.word w) = false := by
  cases s <;> rfl

theorem isBarrier_literal (kind : LiteralKind) (w : String) :
    isBarrier s (.literal kind w) = false := by
  cases s <;> rfl

theorem agree_wordOf {rule : Rule} {f : String → Option α} :
    Agree s k 1 (wordOf rule f) (wordOf rule f) := by
  refine agree_of_head rfl fun l => ?_
  obtain ⟨lead, t⟩ := l
  cases t with
  | word w =>
    cases hw : f w with
    | none =>
      refine Or.inl fun ls => ?_
      simp [wordOf, token, acceptWord, hw]
    | some a =>
      refine Or.inr ⟨⟨(lead, a), fun ls => ?_⟩, rfl, isBarrier_word w⟩
      simp [wordOf, token, acceptWord, hw]
  | literal kind w => exact Or.inl fun ls => rfl
  | mark c => exact Or.inl fun ls => rfl
  | finish => exact Or.inl fun ls => rfl

theorem agree_keyword {rule : Rule} {w : String} :
    Agree s k 1 (keyword rule w) (keyword rule w) :=
  agree_wordOf.map _

theorem agree_identifier : Agree s k 1 identifier identifier := agree_wordOf.map _

theorem agree_literalOf {rule : Rule} {kind : LiteralKind} :
    Agree s k 1 (literalOf rule kind) (literalOf rule kind) := by
  refine agree_of_head rfl fun l => ?_
  obtain ⟨lead, t⟩ := l
  cases t with
  | literal kind' w =>
    by_cases hk : kind' = kind
    · refine Or.inr ⟨⟨⟨lead, (kind.decode w.toList).getD .null, w⟩, fun ls => ?_⟩, rfl,
        isBarrier_literal kind' w⟩
      simp [literalOf, token, acceptLiteral, hk]
    · refine Or.inl fun ls => ?_
      simp [literalOf, token, acceptLiteral, hk]
  | word w => exact Or.inl fun ls => rfl
  | mark c => exact Or.inl fun ls => rfl
  | finish => exact Or.inl fun ls => rfl

theorem agree_literal : Agree s k 1 literal literal :=
  agree_literalOf.orElse <| agree_literalOf.orElse <| agree_literalOf.orElse <|
    agree_literalOf.orElse <| (agree_wordOf.map _).orElse (agree_keyword.map _)

/-- The rest of a rule that takes a lead takes a lexeme, and so does the rule. -/
theorem TakesLead.agree {p p' : Parser α} {q q' : Trivia → Parser α} (hp : TakesLead p q)
    (hp' : TakesLead p' q') (h : ∀ t, Agree s k 1 (q t) (q' t)) : Agree s k 1 p p' := by
  intro tail tail' xs hctx hxs hn
  cases xs with
  | nil =>
    -- The lead of a barrier is taken off, and then nothing is read.
    have hbare : ∀ (l : Lexeme) ls, isBarrier s l.token = true →
        (q l.lead).parse (l.bare :: ls) = none ∧ (q' l.lead).parse (l.bare :: ls) = none :=
      fun l ls hl => (h l.lead).parse_barred hn ⟨l.bare, ls, rfl, hl⟩
    refine hctx.outcome_none hp.nil hp'.nil ?_ ?_
    · rintro _ ⟨l, ls, rfl, hl⟩
      rw [hp.cons]
      exact (hbare l ls hl).1
    · rintro _ ⟨l, ls, rfl, hl⟩
      rw [hp'.cons]
      exact (hbare l ls hl).2
  | cons x xs =>
    rw [List.cons_append, List.cons_append, hp.cons, hp'.cons]
    exact h x.lead tail tail' (x.bare :: xs) hctx hxs hn

/-! ## Marks -/

/-- The mark is no bracket and no semicolon. -/
def isNeutral (c : Char) : Bool := !(['(', ')', '{', '}', ';'].contains c)

theorem nest_neutral {c : Char} (h : isNeutral c = true) (stack : List Bool) :
    nest stack (.mark c) = some stack := by
  simp only [isNeutral, List.contains_eq_mem, List.mem_cons, List.not_mem_nil, or_false,
    Bool.not_eq_true', decide_eq_false_iff_not, not_or] at h
  simp [nest, h]

theorem isBarrier_neutral {c : Char} (h : isNeutral c = true) : isBarrier s (.mark c) = false := by
  simp only [isNeutral, List.contains_eq_mem, List.mem_cons, List.not_mem_nil, or_false,
    Bool.not_eq_true', decide_eq_false_iff_not, not_or] at h
  cases s <;> simp [isBarrier, h]

theorem startsTight_barred {c : Char} (hc : isNeutral c = true) (cs : List Char)
    {tail : List Lexeme} (h : Barred s tail) : startsTight (c :: cs) tail = false := by
  obtain ⟨⟨lead, t⟩, ls, rfl, hl⟩ := h
  cases t with
  | mark d =>
    have hne : c ≠ d := by
      rintro rfl
      rw [isBarrier_neutral hc] at hl
      cases hl
    simp [startsTight, hne]
  | _ => rfl

theorem startsTight_tail {cs : List Char} (hcs : ∀ c ∈ cs, isNeutral c = true)
    {tail tail' : List Lexeme} (hctx : Context s tail tail') (xs : List Lexeme) :
    startsTight cs (xs ++ tail) = startsTight cs (xs ++ tail') := by
  induction cs generalizing xs with
  | nil => rfl
  | cons c cs ih =>
    cases xs with
    | nil =>
      rcases hctx with ⟨rfl, rfl⟩ | ⟨h, h'⟩
      · rfl
      · have hc := hcs c List.mem_cons_self
        rw [List.nil_append, List.nil_append, startsTight_barred hc cs h,
          startsTight_barred hc cs h']
    | cons x xs =>
      obtain ⟨lead, t⟩ := x
      have ih := ih (fun e he => hcs e (List.mem_cons_of_mem _ he)) xs
      cases t with
      | mark d => simp only [List.cons_append, startsTight, ih]
      | _ => rfl

theorem length_of_startsTight {cs : List Char} (hcs : ∀ c ∈ cs, isNeutral c = true)
    {tail tail' : List Lexeme} (hctx : Context s tail tail') {xs : List Lexeme}
    (h : startsTight cs (xs ++ tail) = true) :
    cs.length ≤ xs.length ∧ tokens (xs.take cs.length) = cs.map Token.mark := by
  induction cs generalizing xs with
  | nil => exact ⟨Nat.zero_le _, rfl⟩
  | cons c cs ih =>
    cases xs with
    | nil =>
      rcases hctx with ⟨rfl, rfl⟩ | ⟨hbar, -⟩
      · cases h
      · rw [List.nil_append, startsTight_barred (hcs c List.mem_cons_self) cs hbar] at h
        cases h
    | cons x xs =>
      obtain ⟨lead, t⟩ := x
      cases t with
      | mark d =>
        simp only [List.cons_append, startsTight, Bool.and_eq_true, beq_iff_eq] at h
        obtain ⟨hlen, htok⟩ := ih (fun e he => hcs e (List.mem_cons_of_mem _ he)) h.2
        refine ⟨Nat.succ_le_succ hlen, ?_⟩
        rw [List.length_cons, List.take_succ_cons, tokens_cons, htok, h.1.2, List.map_cons]
      | _ => cases h

theorem continues_tail {stop : List Char} (hstop : ∀ c ∈ stop, isNeutral c = true)
    {tail tail' : List Lexeme} (hctx : Context s tail tail') (xs : List Lexeme) :
    continues stop (xs ++ tail) = continues stop (xs ++ tail') := by
  unfold continues
  rw [Bool.eq_iff_iff, List.any_eq_true, List.any_eq_true]
  have heq : ∀ c ∈ stop, startsTight [c] (xs ++ tail) = startsTight [c] (xs ++ tail') := by
    intro c hc
    refine startsTight_tail (fun e he => ?_) hctx xs
    rw [List.mem_singleton.mp he]
    exact hstop c hc
  constructor
  · rintro ⟨c, hc, h⟩
    exact ⟨c, hc, heq c hc ▸ h⟩
  · rintro ⟨c, hc, h⟩
    exact ⟨c, hc, (heq c hc).symm ▸ h⟩

theorem nested_neutral {cs : List Char} (hcs : ∀ c ∈ cs, isNeutral c = true) :
    Nested s (cs.map Token.mark) := by
  induction cs with
  | nil => exact .nil
  | cons c cs ih =>
    rw [List.map_cons, Nested, List.foldlM_cons, nest_neutral (hcs c List.mem_cons_self)]
    exact ih fun e he => hcs e (List.mem_cons_of_mem _ he)

/-- The characters of a symbol and the marks that must not follow it are neutral. -/
def isPlain (w : String) (stop : List Char) : Bool :=
  w.toList.all isNeutral && stop.all isNeutral

theorem acceptSymbol_of_nil {w : String} (hw : w.toList = []) (stop : List Char)
    (ls : List Lexeme) : acceptSymbol w stop ls = none := by
  unfold acceptSymbol
  split
  · rw [hw]
  · rfl

theorem acceptSymbol_barred {w : String} {stop cs : List Char} {c : Char}
    (hcs : w.toList = c :: cs) (hc : isNeutral c = true) {ls : List Lexeme} (h : Barred s ls) :
    acceptSymbol w stop ls = none := by
  obtain ⟨⟨lead, t⟩, ls, rfl, hl⟩ := h
  cases t with
  | mark d =>
    have hne : c ≠ d := by
      rintro rfl
      rw [isBarrier_neutral hc] at hl
      cases hl
    simp [acceptSymbol, hcs, hne]
  | _ => rfl

/-- A symbol that starts in front of a barrier ends there as well. -/
theorem acceptSymbol_tail {w : String} {stop cs : List Char} {c d : Char} (hcs : w.toList = c :: cs)
    (hw : ∀ e ∈ c :: cs, isNeutral e = true) (hstop : ∀ e ∈ stop, isNeutral e = true)
    {tail tail' : List Lexeme} (hctx : Context s tail tail') (t : Trivia) (xs : List Lexeme) :
    (acceptSymbol w stop (⟨t, .mark d⟩ :: xs ++ tail) = none ∧
      acceptSymbol w stop (⟨t, .mark d⟩ :: xs ++ tail') = none) ∨
    c = d ∧ acceptSymbol w stop (⟨t, .mark d⟩ :: xs ++ tail) = some (t, cs.length + 1) ∧
      acceptSymbol w stop (⟨t, .mark d⟩ :: xs ++ tail') = some (t, cs.length + 1) ∧
      cs.length ≤ xs.length ∧ tokens (xs.take cs.length) = cs.map Token.mark := by
  have hcs' : ∀ e ∈ cs, isNeutral e = true := fun e he => hw e (List.mem_cons_of_mem _ he)
  simp only [List.cons_append, acceptSymbol, hcs, ← startsTight_tail hcs' hctx xs]
  by_cases htight : startsTight cs (xs ++ tail) = true
  · obtain ⟨hlen, htok⟩ := length_of_startsTight hcs' hctx htight
    rw [List.drop_append_of_le_length hlen, List.drop_append_of_le_length hlen,
      ← continues_tail hstop hctx (xs.drop cs.length)]
    by_cases hcond : (c == d && startsTight cs (xs ++ tail) &&
        !continues stop (xs.drop cs.length ++ tail)) = true
    · rw [if_pos hcond]
      simp only [Bool.and_eq_true, beq_iff_eq] at hcond
      exact Or.inr ⟨hcond.1.1, rfl, rfl, hlen, htok⟩
    · rw [if_neg hcond]
      exact Or.inl ⟨rfl, rfl⟩
  · apply Or.inl
    simp [htight]

theorem agree_symbol {rule : Rule} {w : String} {stop : List Char} (h : isPlain w stop = true) :
    Agree s k 1 (symbol rule w stop) (symbol rule w stop) := by
  rw [isPlain, Bool.and_eq_true, List.all_eq_true, List.all_eq_true] at h
  obtain ⟨hw, hstop⟩ := h
  intro tail tail' xs hctx hxs hn
  show Outcome s 1 xs.length tail tail' ((acceptSymbol w stop _).map _)
    ((acceptSymbol w stop _).map _)
  cases hcs : w.toList with
  | nil =>
    rw [acceptSymbol_of_nil hcs, acceptSymbol_of_nil hcs]
    exact Or.inl ⟨rfl, rfl⟩
  | cons c cs =>
    rw [hcs] at hw
    have hc := hw c List.mem_cons_self
    cases xs with
    | nil =>
      have hbarred : ∀ ls, Barred s ls → (symbol rule w stop).parse ls = none := by
        intro ls hls
        show (acceptSymbol w stop ls).map _ = none
        rw [acceptSymbol_barred hcs hc hls]
        rfl
      exact hctx.outcome_none (p := symbol rule w stop) rfl rfl hbarred hbarred
    | cons x xs =>
      obtain ⟨lead, t⟩ := x
      cases t with
      | mark d =>
        rcases acceptSymbol_tail (d := d) hcs hw hstop hctx lead xs with
          ⟨hp, hq⟩ | ⟨rfl, hp, hq, hlen, htok⟩
        · rw [hp, hq]
          exact Or.inl ⟨rfl, rfl⟩
        · rw [hp, hq]
          refine Or.inr ⟨lead, xs.drop cs.length, ?_, ?_, ?_, ?_⟩
          · simp [List.drop_append_of_le_length hlen]
          · simp [List.drop_append_of_le_length hlen]
          · rcases hxs.tail (nest_neutral hc _) with hnil | hnested
            · exact Or.inl hnil
            · apply Or.inr
              rw [← List.take_append_drop cs.length xs, tokens_append, htok] at hnested
              exact hnested.right (nested_neutral fun e he => hw e (List.mem_cons_of_mem _ he))
          · simp only [List.length_drop, List.length_cons]
            omega
      | _ => exact Or.inl ⟨rfl, rfl⟩

theorem agree_delimiter {rule : Rule} {w : String} (h : isPlain w [] = true) :
    Agree s k 1 (delimiter rule w) (delimiter rule w) :=
  agree_symbol h

/-- All symbols of a table are plain. -/
def plainTable (table : List (α × String × List Char)) : Bool :=
  table.all fun e => isPlain e.2.1 e.2.2

theorem agree_symbolOf {rule : Rule} {table : List (α × String × List Char)}
    (h : plainTable table = true) : Agree s k 1 (symbolOf rule table) (symbolOf rule table) := by
  induction table with
  | nil =>
    intro tail tail' xs hctx hxs hn
    exact Or.inl ⟨rfl, rfl⟩
  | cons e table ih =>
    rw [plainTable, List.all_cons, Bool.and_eq_true] at h
    have hsymbol : Agree s k 1 (symbol rule e.2.1 e.2.2) (symbol rule e.2.1 e.2.2) :=
      agree_symbol h.1
    have hfirst := hsymbol.map fun t => (t, e.1)
    have heq : ∀ ls, (symbolOf rule (e :: table)).parse ls =
        ((fun t => (t, e.1)) <$> symbol rule e.2.1 e.2.2 <|> symbolOf rule table).parse ls := by
      intro ls
      have hmap : ((fun t => (t, e.1)) <$> symbol rule e.2.1 e.2.2 : Parser (Trivia × α)).parse ls =
          ((acceptSymbol e.2.1 e.2.2 ls).map fun a => (a.1, ls.drop a.2)).map
            fun a => ((a.1, e.1), a.2) := rfl
      rw [parse_orElse, hmap]
      simp only [symbolOf, token, acceptSymbolOf, List.findSome?_cons]
      cases acceptSymbol e.2.1 e.2.2 ls <;> rfl
    exact (hfirst.orElse (ih h.2)).congr heq heq

theorem agree_prefixOperator : Agree s k 1 prefixOperator prefixOperator :=
  agree_symbolOf (by decide)

theorem agree_postfixOperator : Agree s k 1 postfixOperator postfixOperator :=
  agree_symbolOf (by decide)

theorem agree_assignmentOperator : Agree s k 1 assignmentOperator assignmentOperator :=
  agree_symbolOf (by decide)

theorem plain_binaryOperators :
    (binaryOperators.all fun o => isPlain o.1.symbol o.2) = true := by decide

theorem agree_binaryOperator : Agree s k 1 binaryOperator binaryOperator := by
  have h := plain_binaryOperators
  unfold binaryOperator
  generalize binaryOperators = table at h ⊢
  induction table with
  | nil =>
    intro tail tail' xs hctx hxs hn
    exact Or.inl ⟨rfl, rfl⟩
  | cons o os ih =>
    rw [List.all_cons, Bool.and_eq_true] at h
    exact ((agree_symbol h.1).map _).orElse (ih h.2)

/-! ## Dotted names -/

/-- A token without trivia in front of it. -/
theorem agree_tightToken {rule : Rule} {accept : List Lexeme → Option (α × Nat)}
    (h : Agree s k 1 (token rule accept) (token rule accept)) :
    Agree s k 1 (tightToken rule accept) (tightToken rule accept) := by
  have hcons : ∀ l ls, (tightToken rule accept).parse (l :: ls) =
      if l.lead.isEmpty then (token rule accept).parse (l :: ls) else none := by
    intro l ls
    by_cases hl : l.lead.isEmpty = true
    · simp [tightToken, token, hl]
    · simp [tightToken, token, hl]
  intro tail tail' xs hctx hxs hn
  cases xs with
  | nil =>
    have hbarred : ∀ ls, Barred s ls → (tightToken rule accept).parse ls = none := by
      intro ls hls
      have hnone := (h.parse_barred hn hls).1
      obtain ⟨l, ls, rfl, -⟩ := hls
      rw [hcons, hnone, ite_self]
    exact hctx.outcome_none rfl rfl hbarred hbarred
  | cons x xs =>
    have hout := h tail tail' (x :: xs) hctx hxs hn
    rw [List.cons_append, List.cons_append, hcons, hcons]
    by_cases hx : x.lead.isEmpty = true
    · rw [if_pos hx, if_pos hx]
      exact hout
    · rw [if_neg hx, if_neg hx]
      exact .inl ⟨rfl, rfl⟩

theorem agree_segment : Agree s k 1 segment segment := by
  have hdot : Agree s k 1 (tightMark '.') (tightMark '.') := by
    refine agree_of_head rfl fun l => ?_
    obtain ⟨lead, t⟩ := l
    cases t with
    | mark d =>
      by_cases hd : (lead.isEmpty && '.' == d) = true
      · refine Or.inr ⟨⟨(), fun ls => ?_⟩, ?_⟩
        · simp only [tightMark, if_pos hd]
        · rw [Bool.and_eq_true, beq_iff_eq] at hd
          rw [← hd.2]
          exact ⟨rfl, isBarrier_neutral (by decide)⟩
      · refine Or.inl fun ls => ?_
        simp only [tightMark, if_neg hd]
    | _ => exact Or.inl fun ls => rfl
  have hword : Agree s k 1 (wordOf .identifier asIdentifier) (wordOf .identifier asIdentifier) :=
    agree_wordOf
  have htight : Agree s k 1 (tightToken .identifier (acceptWord asIdentifier))
      (tightToken .identifier (acceptWord asIdentifier)) := agree_tightToken hword
  exact (hdot.map _).weaken.seq (htight.map _)

theorem agree_dottedName {b c : Nat} (hb : k ≤ b) (hc : k ≤ c) :
    Agree s (k + 1) 1 (dottedName b) (dottedName c) :=
  (agree_identifier.map _).seq_behind (agree_segment.many (by omega) (by omega))

theorem agree_qualifiedName {b c : Nat} (hb : k ≤ b) (hc : k ≤ c) :
    Agree s (k + 1) 1 (qualifiedName b) (qualifiedName c) :=
  (agree_dottedName hb hc).compound _ _

/-! ## Lists -/

theorem agree_comma : Agree s k 1 comma comma := agree_delimiter (by decide)

theorem agree_separated {p q : Parser α} {b c : Nat} (h : Agree s k 1 p q) (hb : k ≤ b + 1)
    (hc : k ≤ c + 1) : Agree s k 1 (separated b p) (separated c q) := by
  have hnext := ((agree_comma (s := s) (k := k)).map (Prod.mk (β := α))).weaken.seq h
  exact (h.map padded).seq_of_le (hnext.many hb hc) (Nat.le_succ k)

/-- A list between angle brackets. -/
theorem agree_angled {p q : Parser α} {b c : Nat} (h : Agree s k 1 p q) (hb : k ≤ b + 1)
    (hc : k ≤ c + 1) :
    Agree s (k + 1) 1 (delimited b less p greater) (delimited c less q greater) := by
  have hless : Agree s (k + 1) 1 less less := agree_delimiter (by decide)
  have hgreater : Agree s k 1 greater greater := agree_delimiter (by decide)
  exact ((hless.map _).seq_behind (agree_separated h hb hc).weaken.optional).seq_behind
    hgreater.weaken

end LosslessJava.Grammar
