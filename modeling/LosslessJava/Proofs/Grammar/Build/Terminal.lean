import LosslessJava.Grammar.Build.Declaration
import LosslessJava.Proofs.Grammar.Build.Walk
import LosslessJava.Proofs.Grammar.Reading.Declaration

/-!
# Building of terminals

The pair of a terminal is as long as its token, so the text of the pair tells the token. Literals
are where errors come from.

* `matches_keyword`, `matches_delimiter`, `matches_symbolOf`: words and marks, of which the lead is
  kept.
* `matches_identifier`, `matches_qualifiedName`, `matches_importPath`: names.
* `matches_literal`: literals, and the verdict on one.
-/

namespace LosslessJava.Grammar

open LosslessJava.Grammar.Parser
open Build Building
open Lexeme (textOf)

variable {α β : Type} {source : List Char}

/-- A function of what one pair is read as. -/
theorem Matches.image {p : Parser α} {rules : List Rule} {Q : Nat → List Lexeme → Pair → α → Prop}
    {Q' : Nat → List Lexeme → Pair → β → Prop} (h : Matches source p (Single source rules Q))
    (g : α → β) (hQ : ∀ offset xs pair a, pair.rule ∈ rules → Spans source offset xs pair →
      Q offset xs pair a → Q' offset xs pair (g a)) :
    Matches source (g <$> p) (Single source rules Q') := by
  refine (h.map g).mono ?_
  rintro offset xs ps _ ⟨a, ⟨pair, rfl, hrule, hspans, h⟩, rfl⟩
  exact ⟨pair, rfl, hrule, hspans, hQ _ _ _ _ hrule hspans h⟩

/-! ## Words -/

theorem matches_wordOf {rule : Rule} {f : String → Option α} :
    Matches source (wordOf rule f) (Single source [rule] fun offset xs pair a =>
      a.1 = leadOf xs ∧ f (pair.text source) = some a.2 ∧ firstInvalid offset xs = none) := by
  refine (matches_token reads_wordOf ?_).mono_single ?_
  · rintro a ⟨w, ⟨hnil, -⟩, -⟩
    cases hnil
  · rintro offset _ pair ⟨t, a⟩ - - ⟨⟨w, ⟨rfl, -⟩, hf⟩, hleaf⟩
    have htext := hleaf.text w.toList (by simp [leadOf, Lexeme.toList, Token.toList])
    rw [String.ofList_toList] at htext
    exact ⟨rfl, by rw [htext]; exact hf, rfl⟩

theorem matches_keyword {rule : Rule} {w : String} :
    Matches source (keyword rule w) (Kept source rule) :=
  matches_wordOf.image Prod.fst fun _ _ _ _ _ _ h => ⟨h.1, h.2.2⟩

/-- The identifier with any lead is built of the pair. -/
theorem matches_name :
    Matches source Grammar.identifier (Single source [.identifier] fun offset xs pair i =>
      i.lead = leadOf xs ∧
        (∀ t, Build.identifier source t pair = verdict offset xs (i.withLead t)) ∧
        pair.text source = i.name ∧ firstInvalid offset xs = none) := by
  refine matches_wordOf.image _ ?_
  rintro offset xs pair ⟨t, w⟩ - - ⟨hlead, hname, hvalid⟩
  obtain ⟨rfl, -⟩ := asIdentifier_eq_some hname
  exact ⟨hlead, fun t => (verdict_of_none hvalid _).symm, rfl, hvalid⟩

theorem matches_identifier :
    Matches source Grammar.identifier (Made source [.identifier] (Build.identifier source)) := by
  refine matches_name.mono_single ?_
  rintro offset xs pair i - - ⟨hlead, hbuild, -⟩
  show Build.identifier source (leadOf xs) pair = _
  rw [hbuild, ← hlead]
  rfl

/-! ## Marks -/

theorem firstInvalid_marks (offset : Nat) (t : Trivia) (cs : List Char) :
    firstInvalid offset (marks t cs) = none := by
  have htail : ∀ offset, firstInvalid offset (cs.tail.map fun d => ⟨.empty, .mark d⟩) = none := by
    induction cs.tail with
    | nil => exact fun _ => rfl
    | cons d ds ih => exact fun _ => ih _
  cases cs with
  | nil => rfl
  | cons c cs => exact htail _

theorem leadOf_marks (t : Trivia) {cs : List Char} (h : cs ≠ []) : leadOf (marks t cs) = t := by
  cases cs with
  | nil => exact absurd rfl h
  | cons c cs => rfl

/-- A symbol and the pair of its marks. -/
theorem IsSymbol.leaf {w : String} {xs : List Lexeme} {t : Trivia} {pair : Pair}
    (h : IsSymbol w xs t) (hw : w.toList ≠ []) (hleaf : IsLeaf source xs pair) (offset : Nat) :
    t = leadOf xs ∧ pair.text source = w ∧ firstInvalid offset xs = none := by
  obtain ⟨rfl, -⟩ := h
  have hlead := leadOf_marks t hw
  have htext := hleaf.text w.toList (by rw [textOf_marks hw, hlead])
  rw [String.ofList_toList] at htext
  exact ⟨hlead.symm, htext, firstInvalid_marks _ _ _⟩

theorem not_isSymbol_nil {w : String} (hw : w.toList ≠ []) (t : Trivia) : ¬ IsSymbol w [] t := by
  rintro ⟨hnil, -⟩
  cases h : w.toList with
  | nil => exact hw h
  | cons c cs =>
    rw [h] at hnil
    cases hnil

theorem matches_symbol {rule : Rule} {w : String} {stop : List Char} (hw : w.toList ≠ []) :
    Matches source (symbol rule w stop) (Kept source rule) := by
  refine (matches_token reads_symbol (not_isSymbol_nil hw)).mono_single ?_
  rintro offset xs pair t - - ⟨hsymbol, hleaf⟩
  obtain ⟨hlead, -, hvalid⟩ := hsymbol.leaf hw hleaf offset
  exact ⟨hlead, hvalid⟩

theorem walked_delimiter {rule : Rule} {w : String} (hw : w.toList ≠ []) :
    Walked source (delimiter rule w) (Building.token rule) (.one [rule]) (· = ·) :=
  (matches_symbol hw).token

theorem matches_symbolOf {rule : Rule} {table : List (α × String × List Char)}
    (htable : ∀ e ∈ table, e.2.1.toList ≠ []) :
    Matches source (symbolOf rule table) (Single source [rule] fun offset xs pair a =>
      a.1 = leadOf xs ∧ (∃ stop, (a.2, pair.text source, stop) ∈ table) ∧
        firstInvalid offset xs = none) := by
  refine (matches_token reads_symbolOf ?_).mono_single ?_
  · rintro a ⟨w, stop, hmem, hsymbol⟩
    exact not_isSymbol_nil (htable _ hmem) _ hsymbol
  · rintro offset xs pair a - - ⟨⟨w, stop, hmem, hsymbol⟩, hleaf⟩
    obtain ⟨hlead, rfl, hvalid⟩ := hsymbol.leaf (htable _ hmem) hleaf offset
    exact ⟨hlead, ⟨stop, hmem⟩, hvalid⟩

theorem matches_prefixOperator :
    Matches source Grammar.prefixOperator (Single source [.prefixOperator] fun offset xs pair a =>
      a.1 = leadOf xs ∧ Build.prefixOperator source pair = .ok a.2 ∧
        firstInvalid offset xs = none) := by
  refine (matches_symbolOf (by decide)).mono_single ?_
  rintro offset xs pair ⟨t, o⟩ - - ⟨hlead, ⟨stop, hmem⟩, hvalid⟩
  obtain ⟨o', -, heq⟩ := List.mem_map.mp hmem
  simp only [Prod.mk.injEq] at heq
  obtain ⟨rfl, htext, -⟩ := heq
  have hfind : prefixOperators.find? (·.symbol == o'.symbol) = some o' := by cases o' <;> decide
  rw [Build.prefixOperator, ← htext, hfind]
  exact ⟨hlead, rfl, hvalid⟩

theorem matches_postfixOperator :
    Matches source Grammar.postfixOperator (Single source [.postfixOperator] fun offset xs pair a =>
      a.1 = leadOf xs ∧ Build.postfixOperator source pair = a.2 ∧
        firstInvalid offset xs = none) := by
  refine (matches_symbolOf (by decide)).mono_single ?_
  rintro offset xs pair ⟨t, o⟩ - - ⟨hlead, ⟨stop, hmem⟩, hvalid⟩
  obtain ⟨o', -, heq⟩ := List.mem_map.mp hmem
  simp only [Prod.mk.injEq] at heq
  obtain ⟨rfl, htext, -⟩ := heq
  refine ⟨hlead, ?_, hvalid⟩
  rw [Build.postfixOperator, ← htext]
  cases o' <;> rfl

theorem matches_assignmentOperator :
    Matches source Grammar.assignmentOperator
      (Single source [.assignmentOperator] fun offset xs pair a => a.1 = leadOf xs ∧
        Build.assignmentOperator source pair = .ok a.2 ∧ firstInvalid offset xs = none) := by
  refine (matches_symbolOf (by decide)).mono_single ?_
  rintro offset xs pair ⟨t, o⟩ - - ⟨hlead, ⟨stop, hmem⟩, hvalid⟩
  obtain ⟨o', -, heq⟩ := List.mem_map.mp hmem
  simp only [Prod.mk.injEq] at heq
  obtain ⟨rfl, htext, -⟩ := heq
  have hfind : AssignmentOperator.all.find? (·.symbol == o'.symbol) = some o' := by
    cases o' <;> decide
  rw [Build.assignmentOperator, ← htext, hfind]
  exact ⟨hlead, rfl, hvalid⟩

/-- The operator, whose pair says which one it is. -/
def IsOperator (source : List Char) : Relation (Trivia × BinaryOperator) := fun offset xs ps a =>
  ∃ pair, ps = [pair] ∧ operatorOf pair = some a.2 ∧ pair.stop = after offset xs ∧
    gap source offset pair.start = a.1 ∧ firstInvalid offset xs = none

theorem matches_binaryOperator :
    Matches source Grammar.binaryOperator (IsOperator source) := by
  have hnonempty : ∀ e ∈ binaryOperators, e.1.symbol.toList ≠ [] := by decide
  unfold Grammar.binaryOperator
  generalize binaryOperators = table at hnonempty ⊢
  induction table with
  | nil => exact fun _ _ _ => .inl ⟨rfl, fun _ => rfl⟩
  | cons o os ih =>
    refine Matches.orElse ?_ (ih fun e he => hnonempty e (List.mem_cons_of_mem _ he))
    have hw := hnonempty o List.mem_cons_self
    have hsymbol : Matches source (symbol (.binaryOperator o.1) o.1.symbol o.2)
        (Single source [.binaryOperator o.1] fun offset xs pair t =>
          pair.inner = [] ∧ t = leadOf xs ∧ firstInvalid offset xs = none) := by
      refine (matches_token reads_symbol (not_isSymbol_nil hw)).mono_single ?_
      rintro offset xs pair t - - ⟨hsymbol, hleaf⟩
      obtain ⟨hlead, -, hvalid⟩ := hsymbol.leaf hw hleaf offset
      exact ⟨hleaf.inner, hlead, hvalid⟩
    refine (hsymbol.map _).mono ?_
    rintro offset xs _ _ ⟨t, ⟨pair, rfl, hrule, hspans, hinner, rfl, hvalid⟩, rfl⟩
    refine ⟨pair, rfl, ?_, ?_, hspans.gap, hvalid⟩
    · rw [operatorOf, List.mem_singleton.mp hrule]
    · obtain ⟨rule, start, stop, inner⟩ := pair
      obtain rfl : inner = [] := hinner
      exact hspans.stop

theorem matches_endOfInput : Matches source endOfInput (Kept source .endOfInput) := by
  refine (matches_token reads_endOfInput ?_).mono_single ?_
  · rintro t ⟨hnil, -⟩
    cases hnil
  · rintro offset _ pair t - - ⟨⟨rfl, -⟩, -⟩
    exact ⟨rfl, rfl⟩

/-! ## Literals -/

/-- One rule or another. -/
theorem Matches.choice {p q : Parser α} {rules rules' : List Rule}
    {Q : Nat → List Lexeme → Pair → α → Prop} (h : Matches source p (Single source rules Q))
    (h' : Matches source q (Single source rules' Q)) :
    Matches source (p <|> q) (Single source (rules ++ rules') Q) := by
  refine (h.mono fun _ _ _ _ => ?_).orElse (h'.mono fun _ _ _ _ => ?_)
  · exact Single.mono (fun _ => List.mem_append_left _) fun _ _ _ _ _ _ hQ => hQ
  · exact Single.mono (fun _ => List.mem_append_right _) fun _ _ _ _ _ _ hQ => hQ

/-- What is built of the pairs of a rule, by builders that agree on them. -/
theorem Matches.made_as {p : Parser α} {rule : Rule} {f g : Trivia → Pair → Built α}
    (h : Matches source p (Made source [rule] f))
    (hfg : ∀ lead start stop inner,
      g lead ⟨rule, start, stop, inner⟩ = f lead ⟨rule, start, stop, inner⟩) :
    Matches source p (Made source [rule] g) := by
  refine h.mono_single ?_
  rintro offset xs ⟨_, start, stop, inner⟩ a hrule - hf
  obtain rfl := List.mem_singleton.mp hrule
  exact (hfg _ _ _ _).trans hf

theorem reads_literalOf_decoded {rule : Rule} {kind : LiteralKind} :
    Reads (literalOf rule kind) fun xs l => ∃ t text, xs = [⟨t, .literal kind text⟩] ∧
      l = ⟨t, (kind.decode text.toList).getD .null, text⟩ := by
  refine reads_token fun ls a count _ h => ?_
  unfold acceptLiteral at h
  split at h
  · rename_i lead k text rest _
    by_cases hk : k = kind
    · rw [if_pos hk] at h
      cases h
      exact ⟨lead, text, by rw [hk]; rfl, rfl⟩
    · rw [if_neg hk] at h
      cases h
  · cases h

theorem firstInvalid_literal (offset : Nat) (t : Trivia) (kind : LiteralKind) (text : String) :
    firstInvalid offset [⟨t, .literal kind text⟩] =
      if (kind.decode text.toList).isNone then some (offset + byteLength t.toList, kind, text)
      else none := rfl

/-- The literal with any lead is built of the pair. -/
def IsBuilt (source : List Char) (rules : List Rule) : Relation Literal :=
  Single source rules fun offset xs pair l => l.lead = leadOf xs ∧
    ∀ t, Build.literal source t pair = verdict offset xs (l.withLead t)

/-- A literal is built or refused as its text is decoded. -/
theorem matches_literalOf {rule : Rule} {kind : LiteralKind}
    (hbuild : ∀ lead (pair : Pair), pair.rule = rule → Build.literal source lead pair =
      match kind.decode (pair.text source).toList with
      | some value => .ok ⟨lead, value, pair.text source⟩
      | none => .error ⟨pair.start, .invalidLiteral kind (pair.text source)⟩) :
    Matches source (literalOf rule kind) (IsBuilt source [rule]) := by
  refine (matches_token reads_literalOf_decoded ?_).mono_single ?_
  · rintro l ⟨t, text, hnil, -⟩
    cases hnil
  · rintro offset _ pair _ hrule hspans ⟨⟨t, text, rfl, rfl⟩, hleaf⟩
    have htext := hleaf.text text.toList (by simp [leadOf, Lexeme.toList, Token.toList])
    rw [String.ofList_toList] at htext
    refine ⟨rfl, fun t' => ?_⟩
    rw [hbuild _ _ (List.mem_singleton.mp hrule), htext, hspans.start, verdict,
      firstInvalid_literal]
    cases kind.decode text.toList with
    | none => rfl
    | some value => rfl

theorem matches_booleanLiteral :
    Matches source booleanLiteral (IsBuilt source [.booleanLiteral]) := by
  refine matches_wordOf.image _ ?_
  rintro offset xs pair ⟨t, value⟩ hrule - ⟨rfl, hword, hvalid⟩
  obtain ⟨rule, start, stop, inner⟩ := pair
  obtain rfl : rule = _ := List.mem_singleton.mp hrule
  refine ⟨rfl, fun t => ?_⟩
  rw [verdict_of_none hvalid]
  split at hword
  · rename_i htrue
    cases hword
    rw [Build.literal, htrue]
    rfl
  · split at hword
    · rename_i hfalse
      cases hword
      rw [Build.literal, hfalse]
      rfl
    · cases hword

theorem matches_nullLiteral :
    Matches source nullLiteral (IsBuilt source [.nullLiteral]) := by
  have hkeyword : Matches source (keyword .nullLiteral "null")
      (Single source [.nullLiteral] fun offset xs pair t =>
        t = leadOf xs ∧ pair.text source = "null" ∧ firstInvalid offset xs = none) := by
    refine matches_wordOf.image Prod.fst ?_
    rintro offset xs pair ⟨t, u⟩ - - ⟨hlead, hword, hvalid⟩
    split at hword
    · rename_i hnull
      exact ⟨hlead, hnull, hvalid⟩
    · cases hword
  refine hkeyword.image _ ?_
  rintro offset xs pair _ hrule - ⟨rfl, hnull, hvalid⟩
  obtain ⟨rule, start, stop, inner⟩ := pair
  obtain rfl : rule = _ := List.mem_singleton.mp hrule
  refine ⟨rfl, fun t => ?_⟩
  rw [verdict_of_none hvalid, Build.literal, hnull]
  rfl

/-- The rules of literals. -/
def literalRules : List Rule :=
  [.floatingLiteral, .integerLiteral, .characterLiteral, .stringLiteral, .booleanLiteral,
    .nullLiteral]

theorem matches_literal :
    Matches source Grammar.literal (IsBuilt source literalRules) := by
  have hkind : ∀ {rule kind}, (rule, kind) ∈ [(Rule.floatingLiteral, LiteralKind.floating),
      (.integerLiteral, .integer), (.characterLiteral, .character), (.stringLiteral, .string)] →
      Matches source (literalOf rule kind) (IsBuilt source [rule]) := by
    intro rule kind hmem
    refine matches_literalOf fun lead pair hrule => ?_
    simp only [List.mem_cons, Prod.mk.injEq, List.not_mem_nil, or_false] at hmem
    obtain ⟨rule, start, stop, inner⟩ := pair
    obtain rfl : rule = _ := hrule
    rcases hmem with ⟨rfl, rfl⟩ | ⟨rfl, rfl⟩ | ⟨rfl, rfl⟩ | ⟨rfl, rfl⟩ <;> rfl
  exact (hkind (by simp)).choice <| (hkind (by simp)).choice <| (hkind (by simp)).choice <|
    (hkind (by simp)).choice <| matches_booleanLiteral.choice matches_nullLiteral

/-! ## Dotted names -/

/-- Accepts nothing behind trivia. -/
def tightly (accept : List Lexeme → Option (α × Nat)) : List Lexeme → Option (α × Nat)
  | [] => none
  | l :: ls => if l.lead.isEmpty then accept (l :: ls) else none

theorem matches_tightToken {rule : Rule} {accept : List Lexeme → Option (α × Nat)}
    {C : List Lexeme → α → Prop} (h : Reads (tightToken rule accept) C) (hne : ∀ a, ¬ C [] a) :
    Matches source (tightToken rule accept)
      (Single source [rule] fun _ xs pair a => C xs a ∧ IsLeaf source xs pair) := by
  have hmatches : Matches source (Parser.token rule (tightly accept))
      (Single source [rule] fun _ xs pair a => C xs a ∧ IsLeaf source xs pair) :=
    matches_token h hne
  have hpairs : ∀ before place,
      (tightToken rule accept).pairs before place =
        (Parser.token rule (tightly accept)).pairs before place := by
    rintro before ⟨offset, _ | ⟨l, ls⟩⟩
    · rfl
    · by_cases hlead : l.lead.isEmpty = true
      · have hstart : Place.start ⟨offset, l :: ls⟩ = offset := by
          rw [start_eq, leadOf, Trivia.eq_empty_of_isEmpty hlead, Trivia.toList_empty, byteLength,
            Nat.add_zero]
        simp only [tightToken, Parser.token, tightly, hstart]
      · simp [tightToken, Parser.token, tightly, hlead]
  intro offset ls hls
  simp only [hpairs]
  exact hmatches offset ls hls

/-- The mark is the next token, or there is no match. -/
theorem tightMark_cases (c : Char) (offset : Nat) (ls : List Lexeme) :
    ((tightMark c).parse ls = none ∧ ∀ before, (tightMark c).pairs before ⟨offset, ls⟩ = none) ∨
    ∃ ls', ls = ⟨.empty, .mark c⟩ :: ls' ∧ (tightMark c).parse ls = some ((), ls') ∧
      ∀ before, (tightMark c).pairs before ⟨offset, ls⟩ =
        some ⟨before, offset + c.utf8Size, ⟨offset + c.utf8Size, ls'⟩⟩ := by
  match ls with
  | [] => exact .inl ⟨rfl, fun _ => rfl⟩
  | ⟨_, .word _⟩ :: _ => exact .inl ⟨rfl, fun _ => rfl⟩
  | ⟨_, .literal _ _⟩ :: _ => exact .inl ⟨rfl, fun _ => rfl⟩
  | ⟨_, .finish⟩ :: _ => exact .inl ⟨rfl, fun _ => rfl⟩
  | ⟨lead, .mark d⟩ :: ls' =>
    cases hc : lead.isEmpty && c == d with
    | false =>
      refine .inl ⟨?_, fun before => ?_⟩
      · simp only [tightMark, hc, Bool.false_eq_true, if_false]
      · simp only [tightMark, hc, Bool.false_eq_true, if_false]
    | true =>
      obtain ⟨hlead, hd⟩ := Bool.and_eq_true_iff.mp hc
      obtain rfl := Trivia.eq_empty_of_isEmpty hlead
      obtain rfl := beq_iff_eq.mp hd
      refine .inr ⟨ls', rfl, ?_, fun before => ?_⟩
      · simp only [tightMark, hc, if_true]
      · simp only [tightMark, hc, if_true]
        rfl

/-- What stands directly behind a mark. The mark has no pair. -/
theorem matches_behindMark {c : Char} {q : Parser α} {rules : List Rule}
    {Q : Nat → List Lexeme → Pair → α → Prop} (h : Matches source q (Single source rules Q)) :
    Matches source (tightMark c *> q) fun offset xs ps a => ∃ ys pair,
      xs = ⟨.empty, .mark c⟩ :: ys ∧ ps = [pair] ∧ pair.rule ∈ rules ∧
        Q (offset + c.utf8Size) ys pair a := by
  intro offset ls hls
  have hparse := parse_seq ((fun _ b => b) <$> tightMark c) q ls
  change (tightMark c *> q).parse ls = _ at hparse
  rcases tightMark_cases c offset ls with ⟨hmark, hp⟩ | ⟨ls', rfl, hmark, hp⟩
  · refine .inl ⟨?_, fun before => by rw [pairs_seqRight, hp]⟩
    have hfirst : ((fun _ b => b) <$> tightMark c : Parser (α → α)).parse ls = none :=
      Option.map_eq_none_iff.mpr hmark
    rw [hparse, hfirst]
  · have hafter : ∀ ys, after (offset + c.utf8Size) ys =
        after offset (⟨.empty, .mark c⟩ :: ys) := by
      intro ys
      rw [after, after, Lexeme.textOf_cons, byteLength_append, ← Nat.add_assoc]
      rfl
    have hbehind : Within source (offset + c.utf8Size) ls' := by
      have hright : Within source (after offset [⟨.empty, .mark c⟩]) ls' := hls.right
      rwa [← hafter [], after, Lexeme.textOf_nil, byteLength, Nat.add_zero] at hright
    have hfirst : ((fun _ b => b) <$> tightMark c : Parser (α → α)).parse
        (⟨.empty, .mark c⟩ :: ls') = some (id, ls') := parse_map_eq_some.mpr ⟨(), hmark, rfl⟩
    rw [hparse, hfirst]
    rcases h _ ls' hbehind with ⟨ha, hq⟩ | ⟨a, ys, rest, _, stop, rfl, ha, hq, hends, hC⟩
    · exact .inl ⟨by simp only [ha, Option.map_none], fun before => by
        simp only [pairs_seqRight, hp, hq]⟩
    · obtain ⟨pair, rfl, hrule, -, hQ⟩ := hC
      refine .inr ⟨a, ⟨.empty, .mark c⟩ :: ys, rest, [pair], stop, rfl, by simp [ha],
        fun before => ?_, ⟨by simp, ?_⟩, ys, pair, rfl, rfl, hrule, hQ⟩
      · simp only [pairs_seqRight, hp, hq, hafter]
      · rw [← hafter]
        exact hends.stop

/-- The pairs are the identifiers of a name. -/
structure Segments (source : List Char) (offset : Nat) (xs : List Lexeme) (ps : List Pair)
    (ws : List String) : Prop where
  rule : ∀ p ∈ ps, p.rule = .identifier
  text : ps.map (Pair.text source) = ws
  valid : firstInvalid offset xs = none

theorem Segments.append {offset : Nat} {xs ys : List Lexeme} {ps qs : List Pair}
    {ws vs : List String} (h : Segments source offset xs ps ws)
    (h' : Segments source (after offset xs) ys qs vs) :
    Segments source offset (xs ++ ys) (ps ++ qs) (ws ++ vs) := by
  refine ⟨fun p hp => (List.mem_append.mp hp).elim (h.rule p) (h'.rule p), ?_, ?_⟩
  · rw [List.map_append, h.text, h'.text]
  · rw [firstInvalid_append, h.valid, Option.none_or, h'.valid]

theorem segments_of_several {offset : Nat} {xs : List Lexeme} {ps : List Pair} {ws : List String}
    (h : Several (fun offset xs ps w => Segments source offset xs ps [w]) offset xs ps ws) :
    Segments source offset xs ps ws := by
  induction h with
  | nil => exact ⟨by simp, rfl, rfl⟩
  | cons h _ ih => exact h.append ih

theorem matches_segment :
    Matches source segment fun offset xs ps w => Segments source offset xs ps [w] := by
  have hword : Reads (tightToken .identifier (acceptWord asIdentifier)) fun xs a =>
      xs = [⟨.empty, .word a.2⟩] := by
    refine reads_tightToken fun l ls a count hls hl h => ?_
    unfold acceptWord at h
    split at h
    · rename_i lead w rest heq
      cases heq
      obtain ⟨b, hb, heq⟩ := Option.map_eq_some_iff.mp h
      cases heq
      obtain ⟨rfl, -⟩ := asIdentifier_eq_some hb
      rw [List.take_succ_cons, List.take_zero, ← hl]
    · cases h
  have htoken : Matches source (tightToken .identifier (acceptWord asIdentifier))
      (Single source [.identifier] fun _ xs pair a =>
        xs = [⟨.empty, .word a.2⟩] ∧ IsLeaf source xs pair) := matches_tightToken hword (by simp)
  have hsegment : Matches source (Prod.snd <$> tightToken .identifier (acceptWord asIdentifier))
      (Single source [.identifier] fun _ xs pair w =>
        pair.text source = w ∧ xs = [⟨.empty, .word w⟩]) := by
    refine htoken.image Prod.snd ?_
    rintro offset _ pair ⟨t, w⟩ - - ⟨rfl, hleaf⟩
    have htext := hleaf.text w.toList (by simp [leadOf, Lexeme.toList, Token.toList])
    rw [String.ofList_toList] at htext
    exact ⟨htext, rfl⟩
  refine (matches_behindMark hsegment).mono ?_
  rintro offset _ _ w ⟨_, pair, rfl, rfl, hrule, htext, rfl⟩
  exact ⟨by simpa using hrule, by simp [htext], rfl⟩

/-- The name and the trivia in front of it. -/
theorem matches_dottedName (bound : Nat) :
    Matches source (dottedName bound) fun offset xs ps a =>
      a.1 = leadOf xs ∧ Segments source offset xs ps a.2.segments := by
  refine ((matches_name.map _).seq (matches_segment.many bound)).mono ?_
  rintro offset _ _ _ ⟨xs, ys, _, qs, _, ws, rfl, rfl,
    ⟨i, ⟨pair, rfl, hrule, hspans, hlead, -, htext, hvalid⟩, rfl⟩, hs, rfl⟩
  have hname : Segments source offset xs [pair] [i.name] :=
    ⟨by simpa using hrule, by simp [htext], hvalid⟩
  exact ⟨hlead.trans (leadOf_append hspans.ne_nil ys).symm,
    hname.append (segments_of_several hs)⟩

/-- Relates a name to the one with another lead. -/
theorem passesLead_dottedName (bound : Nat) :
    PassesLead (fun t a b => b = (t, a.2)) (dottedName bound) :=
  .seq <| .map <| passesLead_identifier fun _ _ _ => rfl

theorem nameOf_segments (pair : Pair) (n : QualifiedName) : nameOf pair n.segments = .ok n := by
  obtain ⟨segments, hne⟩ := n
  cases segments with
  | nil => exact absurd rfl hne
  | cons w ws => rfl

theorem matches_qualifiedName (bound : Nat) :
    Matches source (Grammar.qualifiedName bound) (Single source [.qualifiedName]
      fun offset xs pair a => a.1 = leadOf xs ∧ Build.qualifiedName source pair = .ok a.2 ∧
        firstInvalid offset xs = none) := by
  have hdotted : Matches source (dottedName bound) fun offset xs ps a =>
      a.1 = leadOf xs ∧ Segments source offset xs ps a.2.segments := matches_dottedName bound
  have hne : ∀ offset xs ps (a : Trivia × QualifiedName),
      (a.1 = leadOf xs ∧ Segments source offset xs ps a.2.segments) → ps ≠ [] := by
    rintro offset xs ps ⟨t, n⟩ ⟨-, hsegments⟩ rfl
    exact n.segments_ne_nil hsegments.text.symm
  refine (hdotted.compound hne (hdotted.behind hne) (passesLead_dottedName bound) _).mono_single ?_
  rintro offset xs pair _ - hspans ⟨l, ys, ⟨t, n⟩, rfl, ⟨-, hsegments⟩, rfl⟩
  refine ⟨rfl, ?_, ?_⟩
  · have hfilter : pair.inner.filter (·.rule == .identifier) = pair.inner :=
      List.filter_eq_self.mpr fun p hp => by rw [hsegments.rule p hp, beq_self_eq_true]
    rw [Build.qualifiedName, hfilter, hsegments.text, nameOf_segments]
  · exact hspans.firstInvalid_bare ▸ hsegments.valid

/-! ## Imported paths -/

theorem matches_wildcard :
    Matches source wildcard (Single source [.wildcard] fun offset xs _ _ =>
      firstInvalid offset xs = none) := by
  have hmarks : Reads wildcard fun xs _ => ∃ t, IsSymbol ".*" xs t := by
    refine reads_tightToken fun l ls a count hls _ h => ?_
    obtain ⟨⟨t, n⟩, ht, heq⟩ := Option.map_eq_some_iff.mp h
    cases heq
    exact ⟨t, isSymbol_of_acceptSymbol hls ht⟩
  refine (matches_tightToken hmarks ?_).mono_single ?_
  · rintro - ⟨t, ht⟩
    exact not_isSymbol_nil (by decide) t ht
  · rintro offset xs pair - - - ⟨⟨t, ht⟩, hleaf⟩
    exact (ht.leaf (by decide) hleaf offset).2.2

theorem pathParts_append {ps qs : List Pair} (h : ∀ p ∈ ps, p.rule = .identifier) :
    pathParts source (ps ++ qs) = (fun (segments, wildcard) =>
      (ps.map (Pair.text source) ++ segments, wildcard)) <$> pathParts source qs := by
  induction ps with
  | nil => simp
  | cons p ps ih =>
    have ih := ih fun q hq => h q (List.mem_cons_of_mem _ hq)
    rw [List.cons_append, pathParts, h p List.mem_cons_self, ih]
    cases pathParts source qs <;> rfl

theorem matches_importPath (bound : Nat) :
    Matches source (importPath bound) (Single source [.importPath]
      fun offset xs pair a => a.1.1 = leadOf xs ∧
        pathParts source pair.inner = .ok (a.1.2.segments, a.2) ∧
        firstInvalid offset xs = none) := by
  have hpath : Matches source
      ((fun name (wildcard : Option Unit) => (name, wildcard.isSome)) <$> dottedName bound <*>
        optional wildcard)
      fun offset xs ps a => ps ≠ [] ∧ pathParts source ps = .ok (a.1.2.segments, a.2) ∧
        firstInvalid offset xs = none := by
    refine (((matches_dottedName bound).map _).seq matches_wildcard.optional).mono ?_
    rintro offset _ _ _ ⟨xs, ys, ps, qs, _, o, rfl, rfl, ⟨⟨t, n⟩, ⟨-, hsegments⟩, rfl⟩, ho, rfl⟩
    have hne : ps ≠ [] := by
      rintro rfl
      exact n.segments_ne_nil hsegments.text.symm
    refine ⟨by simp [hne], ?_⟩
    rw [pathParts_append hsegments.rule, hsegments.text, firstInvalid_append, hsegments.valid,
      Option.none_or]
    cases ho with
    | none => exact ⟨by simp [pathParts], rfl⟩
    | some hC =>
      obtain ⟨pair, rfl, hrule, -, hvalid⟩ := hC
      refine ⟨?_, hvalid⟩
      rw [pathParts, List.mem_singleton.mp hrule]
      simp [pathParts]
  have hlead : PassesLead (fun t (a b : (Trivia × QualifiedName) × Bool) => b = ((t, a.1.2), a.2))
      ((fun name (wildcard : Option Unit) => (name, wildcard.isSome)) <$> dottedName bound <*>
        optional wildcard) :=
    .seq <| .map <| (passesLead_dottedName bound).mono fun _ _ _ h _ => by rw [h]
  have hne : ∀ offset xs ps (a : (Trivia × QualifiedName) × Bool),
      (ps ≠ [] ∧ pathParts source ps = .ok (a.1.2.segments, a.2) ∧ firstInvalid offset xs = none) →
        ps ≠ [] := fun _ _ _ _ h => h.1
  refine (hpath.compound hne (hpath.behind hne) hlead .importPath).mono_single ?_
  rintro offset xs pair _ - hspans ⟨l, ys, ⟨⟨t, n⟩, wildcard⟩, rfl, ⟨-, hparts, hvalid⟩, rfl⟩
  refine ⟨rfl, hparts, ?_⟩
  exact hspans.firstInvalid_bare ▸ hvalid

end LosslessJava.Grammar
