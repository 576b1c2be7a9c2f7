import LosslessJava.Proofs.Grammar.Build.Verdict
import LosslessJava.Proofs.Grammar.PassesLead

/-!
# Matches and readings

A parser takes a text apart into pairs, and it reads the same text as a value whose trivia the
lexemes carry. `Matches source p C` relates the two: `p` matches where it reads something, both take
the same lexemes, and `C` holds of the offset of these lexemes, the lexemes themselves, the pairs
and the value. There is one lemma for each way to combine parsers.

* `Within`: lexemes of a text, from an offset on.
* `Matches`, and `Matches.seq` and the lemmas around it.
* `Spans`: where the pair of some lexemes starts and where its last token ends.
* `Matches.named`, `matches_token`: the pairs of rules with parts and without.
-/

namespace LosslessJava

theorem Lexeme.textOf_bare (l : Lexeme) (ls : List Lexeme) :
    textOf (l :: ls) = l.lead.toList ++ textOf (l.bare :: ls) := by
  rw [textOf_cons, textOf_cons, toList, List.append_assoc]
  rfl

namespace Grammar

open Lexeme (AllLegal textOf)
open LosslessJava.Grammar.Parser

/-! ## Lexemes of a text -/

/-- The lexemes are the rest of the text, from the offset on. -/
structure Within (source : List Char) (offset : Nat) (ls : List Lexeme) : Prop where
  legal : AllLegal ls
  text : ∃ before, source = before ++ textOf ls ∧ byteLength before = offset

/-- The trivia in front of the first of the lexemes. -/
def leadOf : List Lexeme → Trivia
  | [] => .empty
  | l :: _ => l.lead

/-- The offset behind lexemes that start at an offset. -/
abbrev after (offset : Nat) (xs : List Lexeme) : Nat := offset + byteLength (textOf xs)

theorem after_append (offset : Nat) (xs ys : List Lexeme) :
    after offset (xs ++ ys) = after (after offset xs) ys := by
  rw [after, after, after, Lexeme.textOf_append, byteLength_append, Nat.add_assoc]

theorem after_bare (offset : Nat) (l : Lexeme) (ls : List Lexeme) :
    after (offset + byteLength l.lead.toList) (l.bare :: ls) = after offset (l :: ls) := by
  rw [after, after, Lexeme.textOf_bare l, byteLength_append, Nat.add_assoc]

namespace Within

variable {source : List Char} {offset : Nat} {xs ys ls : List Lexeme} {l : Lexeme}

theorem right (h : Within source offset (xs ++ ys)) : Within source (after offset xs) ys := by
  obtain ⟨before, hsource, rfl⟩ := h.text
  refine ⟨h.legal.right, before ++ textOf xs, ?_, byteLength_append _ _⟩
  rw [hsource, Lexeme.textOf_append, List.append_assoc]

theorem bare (h : Within source offset (l :: ls)) :
    Within source (offset + byteLength l.lead.toList) (l.bare :: ls) := by
  obtain ⟨before, hsource, rfl⟩ := h.text
  refine ⟨h.legal.bare, before ++ l.lead.toList, ?_, byteLength_append _ _⟩
  rw [hsource, Lexeme.textOf_bare l, List.append_assoc]

/-- The text between two offsets that lexemes lie between. -/
theorem slice {middle : List Char} {ds : List Char} (h : Within source offset ls)
    {before : List Char} (htext : textOf ls = before ++ (middle ++ ds)) :
    sliceBytes (offset + byteLength before) (offset + byteLength before + byteLength middle)
      source = middle := by
  obtain ⟨front, hsource, rfl⟩ := h.text
  have hslice := sliceBytes_append (front ++ before) middle ds
  rwa [List.append_assoc, ← htext, ← hsource, byteLength_append] at hslice

/-- In front of the first token is its trivia. -/
theorem gap (h : Within source offset ls) :
    gap source offset (offset + byteLength (leadOf ls).toList) = leadOf ls := by
  cases ls with
  | nil =>
    rw [leadOf, Trivia.toList_empty, byteLength, Nat.add_zero, Grammar.gap, sliceBytes_self]
    rfl
  | cons l ls =>
    have htext : textOf (l :: ls) = [] ++ (l.lead.toList ++ (l.token.toList ++ textOf ls)) := by
      rw [Lexeme.textOf_cons, Lexeme.toList, List.append_assoc, List.nil_append]
    have hslice := h.slice htext
    rw [byteLength, Nat.add_zero] at hslice
    rw [Grammar.gap, leadOf, hslice, Trivia.ofList_toList]

end Within

/-! ## What is matched -/

variable {α β : Type} {source : List Char}

/-- A relation between lexemes at an offset, the pairs that are made of them, and a value. -/
abbrev Relation (α : Type) := Nat → List Lexeme → List Pair → α → Prop

/-- There are pairs where there are lexemes, and the last of them ends with the last lexeme. -/
structure Ends (offset : Nat) (xs : List Lexeme) (ps : List Pair) : Prop where
  nil : ps = [] ↔ xs = []
  stop : (ps.getLast?.map Pair.tokenEnd).getD offset = after offset xs

theorem Ends.empty (offset : Nat) : Ends offset [] [] := ⟨by simp, rfl⟩

theorem Ends.append {offset : Nat} {xs ys : List Lexeme} {ps qs : List Pair}
    (h : Ends offset xs ps) (h' : Ends (after offset xs) ys qs) :
    Ends offset (xs ++ ys) (ps ++ qs) := by
  refine ⟨by simp [h.nil, h'.nil], ?_⟩
  rw [after_append, ← h'.stop]
  cases hq : qs.getLast? with
  | none =>
    rw [List.getLast?_eq_none_iff.mp hq, List.append_nil, h.stop]
    rfl
  | some q =>
    rw [List.getLast?_append, hq]
    rfl

/-- The parser matches where it reads a value. Both take the same lexemes, and the pairs and the
value are related. -/
def Matches (source : List Char) (p : Parser α) (C : Relation α) : Prop :=
  ∀ offset ls, Within source offset ls →
    (p.parse ls = none ∧ ∀ before, p.pairs before ⟨offset, ls⟩ = none) ∨
    ∃ a xs rest ps stop, ls = xs ++ rest ∧ p.parse ls = some (a, rest) ∧
      (∀ before, p.pairs before ⟨offset, ls⟩ =
        some ⟨before ++ ps, stop, ⟨after offset xs, rest⟩⟩) ∧
      Ends offset xs ps ∧ C offset xs ps a

namespace Build

/-! ## Relations -/

def Both (C : Relation (α → β)) (D : Relation α) : Relation β := fun offset zs rs b =>
  ∃ xs ys ps qs f a, zs = xs ++ ys ∧ rs = ps ++ qs ∧ C offset xs ps f ∧
    D (after offset xs) ys qs a ∧ b = f a

def Image (g : α → β) (C : Relation α) : Relation β := fun offset xs ps b =>
  ∃ a, C offset xs ps a ∧ b = g a

inductive Perhaps (C : Relation α) : Relation (Option α)
  | none {offset : Nat} : Perhaps C offset [] [] none
  | some {offset : Nat} {xs : List Lexeme} {ps : List Pair} {a : α} (h : C offset xs ps a) :
    Perhaps C offset xs ps (some a)

inductive Several (C : Relation α) : Relation (List α)
  | nil {offset : Nat} : Several C offset [] [] []
  | cons {offset : Nat} {xs ys : List Lexeme} {ps qs : List Pair} {a : α} {as : List α}
    (h : C offset xs ps a) (hs : Several C (after offset xs) ys qs as) :
    Several C offset (xs ++ ys) (ps ++ qs) (a :: as)

end Build

open Build

/-! ## Combinations -/

theorem parse_map (g : α → β) (p : Parser α) (ls : List Lexeme) :
    (g <$> p).parse ls = (p.parse ls).map fun (a, rest) => (g a, rest) := rfl

theorem pairs_map (g : α → β) (p : Parser α) : (g <$> p).pairs = p.pairs := rfl

theorem pairs_seq (p : Parser (α → β)) (q : Parser α) (before : List Pair) (place : Place) :
    (p <*> q).pairs before place =
      match p.pairs before place with
      | none => none
      | some m => q.pairs m.pairs m.place := rfl

theorem pairs_seqRight (p : Parser α) (q : Parser β) (before : List Pair) (place : Place) :
    (p *> q).pairs before place =
      match p.pairs before place with
      | none => none
      | some m => q.pairs m.pairs m.place := rfl

theorem pairs_orElse (p q : Parser α) (before : List Pair) (place : Place) :
    (p <|> q).pairs before place =
      match p.pairs before place with
      | none => q.pairs before place
      | some m => some m := rfl

namespace Matches

variable {C : Relation α} {D : Relation β} {p : Parser α}

theorem mono {C' : Relation α} (h : Matches source p C)
    (hC : ∀ offset xs ps a, C offset xs ps a → C' offset xs ps a) : Matches source p C' := by
  intro offset ls hls
  rcases h offset ls hls with hnone | ⟨a, xs, rest, ps, stop, hxs, ha, hp, hends, hC'⟩
  · exact .inl hnone
  · exact .inr ⟨a, xs, rest, ps, stop, hxs, ha, hp, hends, hC offset xs ps a hC'⟩

theorem yields {P : α → Prop} (h : Matches source p C) (hp : Yields p P) :
    Matches source p fun offset xs ps a => C offset xs ps a ∧ P a := by
  intro offset ls hls
  rcases h offset ls hls with hnone | ⟨a, xs, rest, ps, stop, hxs, ha, hpairs, hends, hC⟩
  · exact .inl hnone
  · exact .inr ⟨a, xs, rest, ps, stop, hxs, ha, hpairs, hends, hC, hp ls a rest ha⟩

theorem map (h : Matches source p C) (g : α → β) : Matches source (g <$> p) (Image g C) := by
  intro offset ls hls
  rcases h offset ls hls with ⟨ha, hp⟩ | ⟨a, xs, rest, ps, stop, hxs, ha, hp, hends, hC⟩
  · exact .inl ⟨Option.map_eq_none_iff.mpr ha, hp⟩
  · exact .inr ⟨g a, xs, rest, ps, stop, hxs, parse_map_eq_some.mpr ⟨a, ha, rfl⟩, hp, hends, a, hC,
      rfl⟩

theorem seq {p : Parser (α → β)} {q : Parser α} {E : Relation (α → β)} (h : Matches source p E)
    (h' : Matches source q C) : Matches source (p <*> q) (Both E C) := by
  intro offset ls hls
  rw [parse_seq]
  rcases h offset ls hls with ⟨hf, hp⟩ | ⟨f, xs, rest, ps, stop, rfl, hf, hp, hends, hE⟩
  · refine .inl ⟨by rw [hf], fun before => ?_⟩
    rw [pairs_seq, hp]
  rcases h' _ rest hls.right with ⟨ha, hq⟩ | ⟨a, ys, rest, qs, stop, rfl, ha, hq, hends', hC⟩
  · refine .inl ⟨by simp [hf, ha], fun before => ?_⟩
    simp only [pairs_seq, hp, hq]
  · refine .inr ⟨f a, xs ++ ys, rest, ps ++ qs, stop, by simp, by simp [hf, ha], fun before => ?_,
      hends.append hends', xs, ys, ps, qs, f, a, rfl, rfl, hE, hC, rfl⟩
    simp only [pairs_seq, hp, hq, after_append, List.append_assoc]

theorem orElse {q : Parser α} (h : Matches source p C) (h' : Matches source q C) :
    Matches source (p <|> q) C := by
  intro offset ls hls
  rw [parse_orElse]
  rcases h offset ls hls with ⟨ha, hp⟩ | ⟨a, xs, rest, ps, stop, hxs, ha, hp, hends, hC⟩
  · simp only [ha, pairs_orElse, hp]
    exact h' offset ls hls
  · simp only [ha, pairs_orElse, hp]
    exact .inr ⟨a, xs, rest, ps, stop, hxs, rfl, fun _ => rfl, hends, hC⟩

theorem optional (h : Matches source p C) : Matches source (optional p) (Perhaps C) := by
  intro offset ls hls
  rcases h offset ls hls with ⟨ha, hp⟩ | ⟨a, xs, rest, ps, stop, hxs, ha, hp, hends, hC⟩
  · refine .inr ⟨none, [], ls, [], Place.start ⟨offset, ls⟩, rfl, ?_, fun before => ?_,
      .empty offset, .none⟩
    · simp only [Parser.optional, ha]
    · simp only [Parser.optional, hp, List.append_nil]
      rfl
  · refine .inr ⟨some a, xs, rest, ps, stop, hxs, ?_, fun before => ?_, hends, .some hC⟩
    · simp only [Parser.optional, ha]
    · simp only [Parser.optional, hp]

/-- A repetition, behind pairs that stop anywhere. -/
theorem exists_of_parseMany (h : Matches source p C) (bound : Nat) :
    ∀ offset ls, Within source offset ls → ∃ as xs rest ps, ls = xs ++ rest ∧
      parseMany p bound ls = (as, rest) ∧
      (∀ stop, ∃ stop', ∀ before, matchMany p bound ⟨before, stop, ⟨offset, ls⟩⟩ =
        ⟨before ++ ps, stop', ⟨after offset xs, rest⟩⟩) ∧
      Ends offset xs ps ∧ Several C offset xs ps as := by
  induction bound with
  | zero =>
    intro offset ls _
    refine ⟨[], [], ls, [], rfl, rfl, fun stop => ⟨stop, fun before => ?_⟩, .empty offset, .nil⟩
    rw [List.append_nil]
    rfl
  | succ bound ih =>
    intro offset ls hls
    rcases h offset ls hls with ⟨ha, hp⟩ | ⟨a, xs, rest, ps, stop', rfl, ha, hp, hends, hC⟩
    · refine ⟨[], [], ls, [], rfl, ?_, fun stop => ⟨stop, fun before => ?_⟩, .empty offset, .nil⟩
      · simp only [parseMany, ha]
      · simp only [matchMany, hp, List.append_nil]
        rfl
    · obtain ⟨as, ys, rest, qs, rfl, has, hq, hends', hCs⟩ := ih _ rest hls.right
      obtain ⟨stop'', hq⟩ := hq stop'
      refine ⟨a :: as, xs ++ ys, rest, ps ++ qs, by simp, ?_,
        fun stop => ⟨stop'', fun before => ?_⟩, hends.append hends', .cons hC hCs⟩
      · simp only [parseMany, ha, has]
      · simp only [matchMany, hp, hq, after_append, List.append_assoc]

theorem many (h : Matches source p C) (bound : Nat) :
    Matches source (many bound p) (Several C) := by
  intro offset ls hls
  obtain ⟨as, xs, rest, ps, hxs, has, hp, hends, hC⟩ := h.exists_of_parseMany bound offset ls hls
  obtain ⟨stop, hp⟩ := hp (Place.start ⟨offset, ls⟩)
  refine .inr ⟨as, xs, rest, ps, stop, hxs, ?_, fun before => ?_, hends, hC⟩
  · simp only [Parser.many, has]
  · simp only [Parser.many, hp]

end Matches

/-! ## Ends of pairs -/

namespace Pair

/-- The last of the pairs in a list ends where the last pair of the list has its last token. -/
theorem stop_flatten (ps : List Pair) :
    (flatten ps).getLast?.map Pair.stop = ps.getLast?.map tokenEnd := by
  induction ps with
  | nil => rfl
  | cons p ps ih =>
    rw [flatten]
    cases ps with
    | nil =>
      have hend : p.tokenEnd = (p.descendants.getLast?.map Pair.stop).getD p.stop := by
        rw [tokenEnd]
        cases p.descendants.getLast? <;> rfl
      rw [flatten, List.append_nil, List.getLast?_cons, Option.map_some, List.getLast?_singleton,
        Option.map_some, hend]
      cases p.descendants.getLast? <;> rfl
    | cons q qs =>
      rw [List.getLast?_cons_cons, ← ih, flatten, List.getLast?_cons, List.getLast?_append,
        List.getLast?_cons]
      rfl

/-- A pair with parts ends where the last of them has its last token. -/
theorem tokenEnd_mk (rule : Rule) (start stop : Nat) (ps : List Pair) :
    tokenEnd ⟨rule, start, stop, ps⟩ = (ps.getLast?.map tokenEnd).getD stop := by
  rw [← stop_flatten, tokenEnd, descendants]
  cases (flatten ps).getLast? <;> rfl

end Pair

/-! ## Pairs of rules -/

/-- The pair starts with the first token of the lexemes, and its last token is their last. -/
structure Spans (source : List Char) (offset : Nat) (xs : List Lexeme) (pair : Pair) : Prop where
  ne_nil : xs ≠ []
  start : pair.start = offset + byteLength (leadOf xs).toList
  stop : pair.tokenEnd = after offset xs
  gap : gap source offset pair.start = leadOf xs

/-- What is invalid behind the lead is what is invalid in the lexemes. -/
theorem Spans.firstInvalid_bare {offset : Nat} {l : Lexeme} {ys : List Lexeme} {pair : Pair}
    (h : Spans source offset (l :: ys) pair) :
    firstInvalid pair.start (l.bare :: ys) = firstInvalid offset (l :: ys) := by
  rw [h.start, ← Grammar.firstInvalid_bare offset]
  rfl

/-- There is one pair, which is of one of the rules, and the relation holds of it. -/
def Single (source : List Char) (rules : List Rule) (Q : Nat → List Lexeme → Pair → α → Prop) :
    Relation α := fun offset xs ps a =>
  ∃ pair, ps = [pair] ∧ pair.rule ∈ rules ∧ Spans source offset xs pair ∧ Q offset xs pair a

theorem Single.mono {rules rules' : List Rule} {Q Q' : Nat → List Lexeme → Pair → α → Prop}
    (hrules : ∀ r ∈ rules, r ∈ rules')
    (hQ : ∀ offset xs pair a, pair.rule ∈ rules → Spans source offset xs pair →
      Q offset xs pair a → Q' offset xs pair a)
    {offset : Nat} {xs : List Lexeme} {ps : List Pair} {a : α}
    (h : Single source rules Q offset xs ps a) : Single source rules' Q' offset xs ps a := by
  obtain ⟨pair, rfl, hrule, hspans, h⟩ := h
  exact ⟨pair, rfl, hrules _ hrule, hspans, hQ _ _ _ _ hrule hspans h⟩

theorem Matches.mono_single {p : Parser α} {rules : List Rule}
    {Q Q' : Nat → List Lexeme → Pair → α → Prop} (h : Matches source p (Single source rules Q))
    (hQ : ∀ offset xs pair a, pair.rule ∈ rules → Spans source offset xs pair →
      Q offset xs pair a → Q' offset xs pair a) : Matches source p (Single source rules Q') :=
  h.mono fun _ _ _ _ => Single.mono (fun _ hr => hr) hQ

theorem start_eq (offset : Nat) (ls : List Lexeme) :
    Place.start ⟨offset, ls⟩ = offset + byteLength (leadOf ls).toList := by
  cases ls with
  | nil => rfl
  | cons l ls =>
    rw [leadOf, Trivia.toList, byteLength_toList]
    rfl

theorem skip_cons (offset : Nat) (l : Lexeme) (ls : List Lexeme) :
    Place.skip ⟨offset, l :: ls⟩ = ⟨offset + byteLength l.lead.toList, l.bare :: ls⟩ := by
  rw [Place.skip, start_eq]
  rfl

theorem skip_bare (offset : Nat) (l : Lexeme) (ls : List Lexeme) :
    Place.skip ⟨offset, l.bare :: ls⟩ = ⟨offset, l.bare :: ls⟩ := by
  rw [skip_cons]
  simp [Lexeme.bare, byteLength]

theorem leadOf_append {xs : List Lexeme} (h : xs ≠ []) (ys : List Lexeme) :
    leadOf (xs ++ ys) = leadOf xs := by
  cases xs with
  | nil => exact absurd rfl h
  | cons x xs => rfl

/-- A pair whose parts are behind the trivia in front of it. -/
theorem spans_mk {offset : Nat} {l : Lexeme} {ys rest : List Lexeme} {ps : List Pair}
    (hls : Within source offset (l :: (ys ++ rest)))
    (hends : Ends (offset + byteLength l.lead.toList) (l.bare :: ys) ps) (rule : Rule)
    (stop : Nat) :
    Spans source offset (l :: ys) ⟨rule, offset + byteLength l.lead.toList, stop, ps⟩ := by
  refine ⟨List.cons_ne_nil l ys, rfl, ?_, hls.gap⟩
  rw [Pair.tokenEnd_mk, ← after_bare, ← hends.stop]
  cases hp : ps.getLast? with
  | none => exact absurd (hends.nil.mp (List.getLast?_eq_none_iff.mp hp)) (List.cons_ne_nil _ _)
  | some p => rfl

/-- Lexemes without a lead are read alike by both parsers, and nothing is read where there are
none. -/
structure Behind (source : List Char) (p q : Parser α) : Prop where
  nil : p.parse [] = none
  pairs_nil : ∀ offset, Within source offset [] → p.pairs [] ⟨offset, []⟩ = none
  parse : ∀ (l : Lexeme) ls, p.parse (l.bare :: ls) = q.parse (l.bare :: ls)
  pairs : ∀ offset (l : Lexeme) ls, Within source offset (l.bare :: ls) →
    p.pairs [] ⟨offset, l.bare :: ls⟩ = q.pairs [] ⟨offset, l.bare :: ls⟩

namespace Behind

variable {p q : Parser α}

theorem seq {p q : Parser (α → β)} (h : Behind source p q) (s : Parser α) :
    Behind source (p <*> s) (q <*> s) where
  nil := by rw [parse_seq, h.nil]
  pairs_nil offset hls := by rw [pairs_seq, h.pairs_nil offset hls]
  parse l ls := by rw [parse_seq, parse_seq, h.parse]
  pairs offset l ls hls := by rw [pairs_seq, pairs_seq, h.pairs offset l ls hls]

/-- A function of the value that depends on its lead. -/
theorem map (h : Behind source p q) {f g : α → β}
    (hfg : ∀ (l : Lexeme) ls a rest, p.parse (l.bare :: ls) = some (a, rest) → f a = g a) :
    Behind source (f <$> p) (g <$> q) where
  nil := by rw [parse_map, h.nil]; rfl
  pairs_nil := h.pairs_nil
  parse l ls := by
    rw [parse_map, parse_map, ← h.parse]
    cases hp : p.parse (l.bare :: ls) with
    | none => rfl
    | some r =>
      simp only [Option.map_some, hfg l ls r.1 r.2 hp]
  pairs := h.pairs

/-- The lead of lexemes without one. -/
theorem lead (f : Trivia → α → β) (p : Parser α) :
    Behind source (f <$> Parser.lead <*> p) (f .empty <$> p) where
  nil := rfl
  pairs_nil _ _ := rfl
  parse _ _ := rfl
  pairs offset l ls _ := by simp only [pairs_seq, pairs_map, Parser.lead, skip_bare]

end Behind

/-- What is read of lexemes without a lead has none. -/
theorem PassesLead.eq_put_empty {p : Parser α} {put : Trivia → α → α}
    (h : PassesLead (fun t a b => b = put t a) p) {l : Lexeme} {ls rest : List Lexeme} {a : α}
    (hp : p.parse (l.bare :: ls) = some (a, rest)) : ∃ b, a = put .empty b := by
  rcases h .empty l ls with ⟨-, hnone⟩ | ⟨b, c, m, -, hc, hR⟩
  · exact nomatch hnone.symm.trans hp
  · obtain ⟨rfl, -⟩ := Prod.mk.inj (Option.some.inj (hc.symm.trans hp))
    exact ⟨b, hR⟩

/-- The relation holds of the parts of the pair and the lexemes without their lead. Their value and
that of the lexemes are related through the lead. -/
def PartsOf (C : Relation α) (R : Trivia → α → α → Prop) (_ : Nat) (xs : List Lexeme) (pair : Pair)
    (a : α) : Prop :=
  ∃ (l : Lexeme) (ys : List Lexeme) (b : α), xs = l :: ys ∧
    C pair.start (l.bare :: ys) pair.inner b ∧ R l.lead b a

namespace Matches

variable {C : Relation α} {p q : Parser α} {R : Trivia → α → α → Prop}

theorem behind (h : Matches source p C) (hne : ∀ offset xs ps a, C offset xs ps a → ps ≠ []) :
    Behind source p p := by
  have hnil : ∀ offset, Within source offset [] →
      p.parse [] = none ∧ p.pairs [] ⟨offset, []⟩ = none := by
    intro offset hls
    rcases h offset [] hls with ⟨ha, hp⟩ | ⟨a, xs, rest, ps, stop, hxs, -, -, hends, hC⟩
    · exact ⟨ha, hp []⟩
    · have hxs := (List.append_eq_nil_iff.mp hxs.symm).1
      exact absurd (hends.nil.mpr hxs) (hne _ _ _ _ hC)
  have hend : Within source (byteLength source) [] := ⟨by simp [AllLegal], source, by simp, rfl⟩
  exact ⟨(hnil _ hend).1, fun offset hls => (hnil offset hls).2, fun _ _ => rfl, fun _ _ _ _ => rfl⟩

/-- A rule makes one pair of what its parser matches behind the trivia. -/
theorem rule {g : Parser α} (h : Matches source q C)
    (hne : ∀ offset xs ps a, C offset xs ps a → ps ≠ []) (hbehind : Behind source p q)
    (hlead : PassesLead R p) (rule : Rule) (hparse : g.parse = p.parse) (stop : Match → Nat)
    (hpairs : ∀ before place, g.pairs before place = (p.pairs [] place.skip).map fun m =>
      ⟨before ++ [⟨rule, place.start, stop m, m.pairs⟩], stop m, m.place⟩) :
    Matches source g (Single source [rule] (PartsOf C R)) := by
  intro offset ls hls
  rw [hparse]
  cases ls with
  | nil =>
    refine .inl ⟨hbehind.nil, fun before => ?_⟩
    rw [hpairs, Place.skip, start_eq]
    have hnone := hbehind.pairs_nil offset hls
    simp only [leadOf, Trivia.toList_empty, byteLength, Nat.add_zero]
    rw [hnone]
    rfl
  | cons l ls =>
    have hpass := hlead l.lead l.bare ls
    have hpairs : ∀ before, g.pairs before ⟨offset, l :: ls⟩ =
        (q.pairs [] ⟨offset + byteLength l.lead.toList, l.bare :: ls⟩).map fun m =>
          ⟨before ++ [⟨rule, offset + byteLength l.lead.toList, stop m, m.pairs⟩], stop m,
            m.place⟩ := by
      intro before
      rw [hpairs, skip_cons, hbehind.pairs _ _ _ hls.bare, start_eq]
      rfl
    rw [hbehind.parse] at hpass
    rcases h _ _ hls.bare with ⟨ha, hp⟩ | ⟨a, xs, rest, ps, stop', hxs, ha, hp, hends, hC⟩
    · refine .inl ⟨?_, fun before => by rw [hpairs, hp]; rfl⟩
      rcases hpass with ⟨-, hnone⟩ | ⟨b, _, _, hb, -⟩
      · exact hnone
      · rw [ha] at hb
        cases hb
    · cases xs with
      | nil => exact absurd (hends.nil.mpr rfl) (hne _ _ _ _ hC)
      | cons x ys =>
        obtain ⟨rfl, rfl⟩ := List.cons.inj hxs
        rcases hpass with ⟨hnone, -⟩ | ⟨b, c, m, hb, hc, hR⟩
        · rw [ha] at hnone
          cases hnone
        · obtain ⟨rfl, rfl⟩ := Prod.mk.inj (Option.some.inj (ha.symm.trans hb))
          rw [after_bare] at hp
          refine .inr ⟨c, l :: ys, rest, _, _, rfl, hc, fun before => by rw [hpairs, hp]; rfl,
            ⟨by simp, ?_⟩, _, rfl, List.mem_singleton_self _, spans_mk hls hends rule _, l, ys, a,
            rfl, hC, hR⟩
          exact (spans_mk hls hends rule _).stop

theorem named (h : Matches source q C) (hne : ∀ offset xs ps a, C offset xs ps a → ps ≠ [])
    (hbehind : Behind source p q) (hlead : PassesLead R p) (rule : Rule) :
    Matches source (named rule p) (Single source [rule] (PartsOf C R)) :=
  h.rule hne hbehind hlead rule rfl Match.stop fun _ _ => rfl

theorem summary (h : Matches source q C) (hne : ∀ offset xs ps a, C offset xs ps a → ps ≠ [])
    (hbehind : Behind source p q) (hlead : PassesLead R p) (rule : Rule) :
    Matches source (summary rule p) (Single source [rule] (PartsOf C R)) :=
  h.rule hne hbehind hlead rule rfl Match.stop fun _ _ => rfl

theorem compound (h : Matches source q C) (hne : ∀ offset xs ps a, C offset xs ps a → ps ≠ [])
    (hbehind : Behind source p q) (hlead : PassesLead R p) (rule : Rule) :
    Matches source (compound rule p) (Single source [rule] (PartsOf C R)) :=
  h.rule hne hbehind hlead rule rfl (fun m => m.place.offset) fun _ _ => rfl

end Matches

/-! ## Tokens -/

/-- The pair has no parts, and its text is that of the lexemes without the trivia in front. -/
structure IsLeaf (source : List Char) (xs : List Lexeme) (pair : Pair) : Prop where
  inner : pair.inner = []
  text : ∀ w, textOf xs = (leadOf xs).toList ++ w → pair.text source = String.ofList w

/-- The pair of the next lexemes, from behind their lead to their end. -/
theorem isLeaf_mk {offset : Nat} {xs rest : List Lexeme} (hls : Within source offset (xs ++ rest))
    (rule : Rule) : IsLeaf source xs
      ⟨rule, offset + byteLength (leadOf xs).toList, after offset xs, []⟩ := by
  refine ⟨rfl, fun w hw => ?_⟩
  have htext : textOf (xs ++ rest) = (leadOf xs).toList ++ (w ++ textOf rest) := by
    rw [Lexeme.textOf_append, hw, List.append_assoc]
  have hslice := hls.slice htext
  rw [Pair.text, after, hw, byteLength_append, ← Nat.add_assoc, hslice]

theorem matches_token {rule : Rule} {accept : List Lexeme → Option (α × Nat)}
    {C : List Lexeme → α → Prop} (h : Reads (token rule accept) C) (hne : ∀ a, ¬ C [] a) :
    Matches source (token rule accept)
      (Single source [rule] fun _ xs pair a => C xs a ∧ IsLeaf source xs pair) := by
  intro offset ls hls
  cases hp : accept ls with
  | none =>
    refine .inl ⟨by simp only [token, hp, Option.map_none], fun before => ?_⟩
    simp only [token, hp, Option.map_none]
  | some r =>
    obtain ⟨a, count⟩ := r
    have hparse : (token rule accept).parse ls = some (a, ls.drop count) := by
      simp only [token, hp, Option.map_some]
    obtain ⟨xs, hxs, hC⟩ := h ls a _ hls.legal hparse
    have hnil : xs ≠ [] := fun hnil => hne a (hnil ▸ hC)
    have htake : ls.take count = xs := by
      have happend : ls.take count ++ ls.drop count = xs ++ ls.drop count := by
        rw [List.take_append_drop, ← hxs]
      exact List.append_cancel_right happend
    have hrest : leadOf ls = leadOf xs := by rw [hxs, leadOf_append hnil]
    have hwithin := hls
    rw [hxs] at hwithin
    have hgap := hls.gap
    rw [hrest] at hgap
    refine .inr ⟨a, xs, ls.drop count, [⟨rule, offset + byteLength (leadOf xs).toList,
      after offset xs, []⟩], after offset xs, hxs, hparse, fun before => ?_, ⟨by simp [hnil], rfl⟩,
      _, rfl, List.mem_singleton_self _, ⟨hnil, rfl, rfl, hgap⟩, hC, isLeaf_mk hwithin rule⟩
    have hstart := start_eq offset ls
    rw [hrest] at hstart
    simp only [token, hp, Option.map_some, leafAt, hstart, Place.advance, htake]

end Grammar

end LosslessJava
