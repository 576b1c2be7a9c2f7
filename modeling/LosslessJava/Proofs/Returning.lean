import LosslessJava.Proofs.Grammar.PassesLead
import LosslessJava.Proofs.Splicing

/-!
# Parsed expressions in return statements

An expression that was read up to the end of a text is read in front of a semicolon as well, and
with any lead.

* `Operand xs e`: all that a statement needs of the lexemes of an expression in front of a
  semicolon.
* `exists_operand`: a parsed expression has such lexemes.
* `parseStatement_withValue`: a parsed return statement with a parsed expression in it is read as it
  prints.
-/

namespace LosslessJava

open Grammar Grammar.Parser
open Lexeme (AllLegal Relexed textOf ofText)

/-! ## Expressions in front of a semicolon -/

/-- The lexemes are the expression in front of every semicolon. -/
structure Operand (xs : List Lexeme) (e : Expression) : Prop where
  text : textOf xs = Step.text e.steps
  opens : Opens e.lead xs
  whole : ∀ l ∈ xs, isWhole l.token = true
  lexed : ∀ more, (∀ c ∈ more.head?, Lex.isNumberPart c = false) →
    ofText (textOf xs ++ more) = xs ++ ofText more
  valid : ∀ l ∈ xs, l.Valid
  parse : ∀ d t m, xs.length ≤ d → (expression (rules d)).parse (xs ++ ⟨t, .mark ';'⟩ :: m) =
    some (e, ⟨t, .mark ';'⟩ :: m)

/-- An expression in front of the end of a text is one in front of a semicolon. -/
theorem parse_expression_semicolon {d d' : Nat} {xs m : List Lexeme} {e : Expression} {t u : Trivia}
    (hd : xs.length ≤ d) (hd' : xs.length ≤ d') (hxs : Nested false (tokens xs))
    (h : (expression (rules d)).parse (xs ++ [⟨u, .finish⟩]) = some (e, [⟨u, .finish⟩])) :
    (expression (rules d')).parse (xs ++ ⟨t, .mark ';'⟩ :: m) = some (e, ⟨t, .mark ';'⟩ :: m) := by
  have hagree : Agree false (xs.length + 1) 1 (expression (rules d)) (expression (rules d')) :=
    agree_expression (rules_agree hd hd')
  have hctx : Context false [⟨u, .finish⟩] (⟨t, .mark ';'⟩ :: m) :=
    .inr ⟨⟨_, [], rfl, rfl⟩, ⟨_, m, rfl, rfl⟩⟩
  rcases hagree _ _ xs hctx (.inr hxs) (Nat.lt_succ_self _) with
    ⟨hnone, -⟩ | ⟨e', zs, hp, hq, -, -⟩
  · rw [hnone] at h
    cases h
  · rw [hp] at h
    obtain ⟨rfl, hzs⟩ := Prod.mk.inj (Option.some.inj h)
    obtain rfl : zs = [] := List.append_left_eq_self.mp hzs
    exact hq

theorem exists_operand {source : String} {e : Expression} (h : parseExpression source = .ok e) :
    ∃ xs, Operand xs e := by
  obtain ⟨⟨rest, hread⟩, hvalid⟩ := (read_eq_ok buildsText_expression).mp h
  rw [firstInvalid_eq_none] at hvalid
  obtain ⟨u, hparse⟩ := parse_only_eq_some.mp hread
  have hlegal : AllLegal (ofText source.toList) := Lexeme.legal_ofText _
  obtain ⟨xs, hls, hxs⟩ := reads_expression (rules_sound _) _ e _ hlegal hparse
  obtain rfl : rest = [] := Lexeme.eq_nil_of_finish _ _ _ _ hls
  have hsolid := hxs.phrase.solid
  have hlexed : ofText (textOf xs ++ u.toList) = xs ++ [⟨u, .finish⟩] := by
    have htext := Lexeme.textOf_ofText source.toList
    rw [hls] at htext
    rw [← hls, ← htext]
    simp [Lexeme.toList, Token.toList]
  refine ⟨xs, hxs.text, hxs.opens, Lexeme.whole_of_touch hsolid, fun more hmore => ?_, ?_, ?_⟩
  · -- Neither the end of the text nor what stands there now goes on with a number.
    have hlevel : Lex.Level u.toList more :=
      .of_first (hlegal ⟨u, .finish⟩ (by rw [hls]; simp)).lead.first hmore
    have hgaps : ∀ x ∈ xs, Lex.IsGap false x.lead.toList := Lexeme.gaps_of_touch hsolid hlexed
    exact (Lexeme.ofText_regapped hsolid
      (List.forall₂_same.mpr fun x hx => .refl (hgaps x hx)) (.inr hlevel) (fun h => by cases h)
      hlexed).1
  · exact fun l hl => hvalid l (by rw [hls]; exact List.mem_append_left _ hl)
  · intro d t m hd
    rw [hls] at hparse
    exact parse_expression_semicolon (by simp; omega) hd hxs.phrase.nested hparse

/-- With any other lead, an expression is the same one in front of every semicolon. -/
theorem Operand.withLead {xs : List Lexeme} {e : Expression} (h : Operand xs e) {t : Trivia}
    (ht : Lex.IsGap false t.toList) : ∃ ys, Operand ys (e.withLead t) := by
  obtain ⟨x, xs, rfl, hlead, hopens⟩ := h.opens
  obtain ⟨steps, hsteps, hsteps'⟩ := e.exists_steps
  refine ⟨⟨t, x.token⟩ :: xs, ?_, ?_, ?_, fun more hmore => ?_, ?_, fun d u m hd => ?_⟩
  · have htext := h.text
    rw [hsteps, Lexeme.textOf_cons, Lexeme.toList, hlead, Step.text_cons,
      List.append_assoc] at htext
    have hrest := List.append_cancel_left htext
    rw [hsteps', Lexeme.textOf_cons, Lexeme.toList, Step.text_cons, List.append_assoc, hrest]
    rfl
  · rw [Expression.lead_withLead]
    exact ⟨_, xs, rfl, rfl, hopens⟩
  · exact List.forall_mem_cons.mpr (List.forall_mem_cons.mp h.whole)
  · have hlexed := h.lexed more hmore
    rw [Lexeme.textOf_cons, List.append_assoc] at hlexed ⊢
    exact Lexeme.ofText_lead ht (h.whole x List.mem_cons_self) hlexed
  · exact List.forall_mem_cons.mpr
      ⟨h.valid x List.mem_cons_self, fun l hl => h.valid l (List.mem_cons_of_mem x hl)⟩
  · have hparse := h.parse d u m hd
    rcases passesLead_expression (rules d) t x (xs ++ ⟨u, .mark ';'⟩ :: m) with
      ⟨hnone, -⟩ | ⟨a, a', rest, ha, ha', heq⟩
    · rw [List.cons_append, hnone] at hparse
      cases hparse
    · rw [List.cons_append, ha] at hparse
      cases hparse
      rw [List.cons_append, ha', heq]

/-! ## Return statements -/

namespace Grammar

/-- A keyword, a value and a semicolon make a return statement. -/
theorem parse_returnStatement {r : Rules} {s : Return} {ls m : List Lexeme}
    (h : (optional r.expression).parse ls = some (s.value, ⟨s.terminator, .mark ';'⟩ :: m)) :
    (returnStatement r).parse (⟨s.lead, .word "return"⟩ :: ls) = some (s, m) := by
  obtain ⟨lead, value, terminator⟩ := s
  have hword : TakesToken (.word "return") Return.mk (Return.mk <$> keyword .returnWord "return") :=
    takesToken_keyword.map Return.mk
  refine parse_seq_eq_some.mpr ⟨Return.mk lead value, terminator, _, ?_,
    takesToken_semicolon.parse_eq_some.mpr ⟨terminator, rfl, rfl⟩, rfl⟩
  exact parse_seq_eq_some.mpr ⟨Return.mk lead, value, ls,
    hword.parse_eq_some.mpr ⟨lead, rfl, rfl⟩, h, rfl⟩

end Grammar

/-- The lexemes of the keyword in front of a value that is kept apart from it. -/
theorem ofText_return {t : Trivia} {a : List Char} (ht : Lex.IsGap false t.toList)
    (ha : ∀ c ∈ a.head?, Lex.isNumberPart c = false) :
    ofText (Lexeme.toList ⟨t, .word "return"⟩ ++ a) = ⟨t, .word "return"⟩ :: ofText a := by
  refine Lexeme.ofText_of_bare ht (by decide) ?_ ?_
  · have hchars : (Token.word "return").toList = 'r' :: "eturn".toList := by decide
    rw [hchars]
    exact Lex.skip_of_first (by decide) fun h => absurd h (by decide)
  · have hword : Token.word? "return".toList = some ("return".toList, []) := by decide
    have hsteady := Token.steady_word "return".toList a (.inr ha)
    rw [hword] at hsteady
    exact Token.next_of_word hsteady

/-- A return statement with a value that has a lead stands in any block. -/
theorem stands_return {s : Return} {e : Expression} {xs : List Lexeme}
    (hlead : Lex.IsGap false s.lead.toList) (hterminator : Lex.IsGap false s.terminator.toList)
    (hvalue : s.value = some e) (hxs : Operand xs e) (he : Lex.IsGap false e.lead.toList)
    (hne : e.lead.isEmpty = false) :
    Stands (⟨s.lead, .word "return"⟩ :: (xs ++ [⟨s.terminator, .mark ';'⟩])) (.ret s) := by
  obtain ⟨lead, value, terminator⟩ := s
  obtain rfl : value = some e := hvalue
  refine ⟨?_, ⟨lead, _, _, rfl, rfl, rfl⟩, fun more => ?_, fun l hl => ?_, fun d m hd _ => ?_⟩
  · rw [Lexeme.textOf_cons, Lexeme.textOf_append, hxs.text]
    simp only [Statement.steps, Return.steps, Step.text_append, Step.text_spaced, Lexeme.toList,
      Token.toList, Lexeme.textOf_cons, Lexeme.textOf_nil, Step.text_cons, Step.text_nil,
      List.append_assoc, List.append_nil]
    rfl
  · have hsemicolon : Relexed [⟨terminator, .mark ';'⟩] :=
      Lexeme.relexed_mark hterminator (.inr (.inr rfl))
    have hfirst : ∀ c ∈ (textOf xs ++ (textOf [⟨terminator, .mark ';'⟩] ++ more)).head?,
        Lex.isNumberPart c = false := by
      obtain ⟨x, xs, rfl, hx, -⟩ := hxs.opens
      rw [Lexeme.textOf_cons, Lexeme.toList, hx, List.append_assoc, List.append_assoc]
      refine he.first_append fun hnil => ?_
      rw [Trivia.isEmpty, String.isEmpty_eq_false_iff] at hne
      exact absurd (String.toList_eq_nil_iff.mp hnil) hne
    have hmore : ∀ c ∈ (textOf [⟨terminator, .mark ';'⟩] ++ more).head?,
        Lex.isNumberPart c = false := by
      have hsemi : Lex.isNumberPart ';' = false := by decide
      rw [Lexeme.textOf_cons, Lexeme.toList, List.append_assoc, List.append_assoc]
      exact hterminator.first_append fun _ => by simpa [Token.toList] using hsemi
    rw [Lexeme.textOf_cons, Lexeme.textOf_append, List.append_assoc, List.append_assoc,
      ofText_return hlead hfirst, hxs.lexed _ hmore, hsemicolon]
    simp
  · simp only [List.mem_cons, List.mem_append, List.not_mem_nil, or_false] at hl
    rcases hl with rfl | hl | rfl
    · exact fun _ _ heq => by cases heq
    · exact hxs.valid l hl
    · exact fun _ _ heq => by cases heq
  · obtain ⟨d, rfl⟩ : ∃ d', d = d' + 1 := ⟨d - 1, by simp at hd; omega⟩
    rw [List.cons_append, parse_blockStatement_cons]
    refine parse_map_eq_some.mpr ⟨_, parse_returnStatement ?_, rfl⟩
    refine parse_optional_eq_some.mpr (.inr ⟨e, rfl, ?_⟩)
    rw [List.append_assoc]
    exact hxs.parse d terminator m (by simp at hd; omega)

/-- The gaps of a parsed return statement. -/
theorem isGap_of_return {source : String} {r : Return} (h : parseStatement source = .ok (.ret r)) :
    Lex.IsGap false r.lead.toList ∧ Lex.IsGap false r.terminator.toList := by
  obtain ⟨_, _, _, ⟨hreading, _⟩, _⟩ := parseStatement_reads h
  have htidy : (Node.ret r).All Node.Tidy := hreading.tidy.child (List.mem_singleton_self _)
  have hgaps := htidy.self.gaps
  exact ⟨hgaps _ (by simp [Node.trivia]), hgaps _ (by simp [Node.trivia])⟩

/-- With a parsed expression as its value, a parsed return statement prints as a text that is read
as the very same statement. Something stands between the keyword and the expression. -/
theorem parseStatement_withValue {returnSource source : String} {r : Return} {e : Expression}
    (hr : parseStatement returnSource = .ok (.ret r)) (he : parseExpression source = .ok e) :
    parseStatement (print (Statement.ret (r.withValue (some e)))) =
      .ok (.ret (r.withValue (some e))) ∧
    ∃ value, (r.withValue (some e)).value = some value ∧ value.lead.isEmpty = false := by
  obtain ⟨hlead, hterminator⟩ := isGap_of_return hr
  obtain ⟨xs, hxs⟩ := exists_operand he
  have hgap : Lex.IsGap false e.lead.toList := by
    obtain ⟨_, _, _, hreading, _⟩ := parseExpression_reads he
    exact Expression.gap_lead hreading.tidy
  have hspace : Lex.IsGap false Trivia.space.toList := .space rfl .nil
  by_cases hempty : e.lead.isEmpty = true
  · have hvalue : (r.withValue (some e)).value = some (e.withLead .space) := by
      simp [Return.withValue, hempty]
    obtain ⟨ys, hys⟩ := hxs.withLead hspace
    have hne : (e.withLead .space).lead.isEmpty = false := by
      rw [Expression.lead_withLead]
      rfl
    have hlead' : Lex.IsGap false (e.withLead .space).lead.toList := by
      rwa [Expression.lead_withLead]
    have hstands : Stands _ (.ret (r.withValue (some e))) :=
      stands_return hlead hterminator hvalue hys hlead' hne
    exact ⟨hstands.parseStatement_print, _, hvalue, hne⟩
  · have hvalue : (r.withValue (some e)).value = some e := by
      simp [Return.withValue, hempty]
    have hne : e.lead.isEmpty = false := by simpa using hempty
    have hstands : Stands _ (.ret (r.withValue (some e))) :=
      stands_return hlead hterminator hvalue hxs hgap hne
    exact ⟨hstands.parseStatement_print, e, hvalue, hne⟩

/-- A number in place of a name, between comments. -/
theorem parseStatement_withValue_number :
    ∃ r e, parseStatement "/* a */ return x // b\n ;" = .ok (.ret r) ∧ parseExpression "1" = .ok e ∧
      parseStatement (print (Statement.ret (r.withValue (some e)))) =
        .ok (.ret (r.withValue (some e))) ∧
      ∃ value, (r.withValue (some e)).value = some value ∧ value.lead.isEmpty = false := by
  obtain ⟨s, h, hs⟩ := exists_ok (x := parseStatement "/* a */ return x // b\n ;")
    (p := fun | .ret _ => true | _ => false) (by decide +kernel)
  obtain ⟨e, he, -⟩ := exists_ok (p := fun _ => true) (x := parseExpression "1") (by decide +kernel)
  cases s with
  | ret r => exact ⟨r, e, h, he, parseStatement_withValue h he⟩
  | _ => cases hs

end LosslessJava
