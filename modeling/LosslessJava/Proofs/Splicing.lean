import LosslessJava.Proofs.Grammar.Standing
import LosslessJava.Proofs.Lossless
import LosslessJava.Tree.Access

/-!
# Parsed statements in other places

A block stays what it is made of when a statement of it is replaced by another one that was parsed
on its own. A statement stays what it is when it is shifted, although a shift to the left takes
characters away, even in comments.

* `exists_block`: the statements of a parsed block stand anywhere.
* `parseStatement_block`: a block of statements that stand anywhere is read as it prints.
* `parseStatement_withStatement`: the two together.
* `parseStatement_applyTo`: what a shifted statement prints as is read as the shifted statement.
-/

namespace LosslessJava

open Grammar Grammar.Parser
open Lexeme (AllLegal Relexed textOf ofText)

/-! ## Blocks as statements -/

namespace Grammar

variable {α β : Type}

/-- Only the rule for blocks makes blocks. -/
theorem parse_block_of_statement {r : Rules} {ls m : List Lexeme} {b : Block}
    (h : (blockStatement r).parse ls = some (.block b, m)) : (block r).parse ls = some (b, m) := by
  have hdeclaration : Yields (Statement.declaration <$> variableDeclarations r) (· ≠ .block b) :=
    .map fun _ => by simp
  have hother : Yields (Statement.ret <$> returnStatement r <|> throwStatement r <|>
      ifStatement r <|> whileStatement r <|> emptyStatement <|> expressionStatement r)
      (· ≠ .block b) := by
    refine .orElse (.map fun _ => by simp) <| .orElse ?_ <| .orElse ?_ <| .orElse ?_ <|
      .orElse (.map fun _ => by simp) ?_
    · exact .seq (.seq (.map fun _ _ _ => by simp))
    · refine .seq (.seq (.seq (.map fun _ _ _ o => ?_)))
      cases o <;> simp
    · exact .seq (.seq (.map fun _ _ _ => by simp))
    · exact .seq (.map fun _ _ => by simp)
  rcases parse_orElse_eq_some.mp h with h | ⟨-, h⟩
  · exact absurd rfl (hdeclaration ls _ m h)
  rcases parse_orElse_eq_some.mp h with h | ⟨-, h⟩
  · obtain ⟨b', hb, heq⟩ := parse_map_eq_some.mp h
    cases heq
    exact hb
  · exact absurd rfl (hother ls _ m h)

end Grammar

/-! ## There and back -/

/-- What is known of the lexemes of a parsed statement. -/
theorem parseStatement_eq_ok {source : String} {s : Statement} :
    parseStatement source = .ok s ↔ ∃ t rest, (∀ l ∈ ofText source.toList, l.Valid) ∧
      (blockStatement (rules ((ofText source.toList).length + 1))).parse (ofText source.toList) =
        some (s, ⟨t, .finish⟩ :: rest) := by
  rw [parseStatement, read_eq_ok buildsText_statement, firstInvalid_eq_none]
  constructor
  · rintro ⟨⟨rest, hparse⟩, hvalid⟩
    obtain ⟨t, ht⟩ := parse_only_eq_some.mp hparse
    exact ⟨t, rest, hvalid, ht⟩
  · rintro ⟨t, rest, hvalid, ht⟩
    exact ⟨⟨rest, parse_only_eq_some.mpr ⟨t, ht⟩⟩, hvalid⟩

/-- A statement that stands anywhere is read as it prints. -/
theorem Grammar.Stands.parseStatement_print {s : Statement} {xs : List Lexeme} (h : Stands xs s) :
    parseStatement (print s) = .ok s := by
  have htext : (print s).toList = textOf xs ++ [] := by
    rw [toList_print, h.text, List.append_nil]
    rfl
  have hls : ofText (print s).toList = xs ++ [⟨.ofList [], .finish⟩] := by
    rw [htext, h.relexed, Lexeme.ofText_nil]
  rw [parseStatement_eq_ok, hls]
  refine ⟨.ofList [], [], (lexed_of_relexed h.relexed h.valid).valid, ?_⟩
  exact h.parse _ _ (by simp; omega) (not_startsElse (by simp) [])

/-- A parsed statement stands in any block. -/
theorem exists_stands_of_parseStatement {source : String} {s : Statement}
    (h : parseStatement source = .ok s) : ∃ xs, Stands xs s := by
  obtain ⟨t, rest, hvalid, hparse⟩ := parseStatement_eq_ok.mp h
  obtain ⟨xs, -, hxs⟩ := exists_stands (lexed_ofText hvalid) (Nat.le_succ _) hparse
  exact ⟨xs, hxs⟩

/-- The statements of a parsed block stand in any block. -/
theorem exists_block {source : String} {b : Block} (h : parseStatement source = .ok (.block b)) :
    Lex.IsGap false b.lead.toList ∧ Lex.IsGap false b.close.toList ∧
      ∃ xs, Several Stands xs b.statements := by
  obtain ⟨t, last, hvalid, hparse⟩ := parseStatement_eq_ok.mp h
  have hlexed := lexed_ofText hvalid
  obtain ⟨rest, hls, hmany⟩ := parse_block_iff.mp (parse_block_of_statement hparse)
  rw [hls] at hlexed
  have hopening := hlexed.legal.head.gap (by simp)
  obtain ⟨xs, rfl, hxs⟩ := several_stands (d := (ofText source.toList).length)
    (hlexed.tail (Lexeme.relexed_mark hopening (Or.inl rfl))) (by simp [hls]) hmany
  have hclosing := hlexed.legal.tail.right.head.gap (by simp)
  exact ⟨hopening, hclosing, xs, hxs⟩

/-- The closing brace is no statement. -/
theorem parse_closing (d : Nat) (t : Trivia) (m : List Lexeme) :
    (blockStatement (rules d)).parse (⟨t, .mark '}'⟩ :: m) = none :=
  ((agree_blockStatement (rules_agree (Nat.le_refl d) (Nat.le_refl d))).parse_barred
    (Nat.succ_pos d) ⟨_, m, rfl, rfl⟩).1

/-- The lexemes of a printed block. -/
theorem ofText_block {b : Block} {xs : List Lexeme} (hlead : Lex.IsGap false b.lead.toList)
    (hclose : Lex.IsGap false b.close.toList) (h : Several Stands xs b.statements) :
    ofText (print (Statement.block b)).toList =
      ⟨b.lead, .mark '{'⟩ :: (xs ++ [⟨b.close, .mark '}'⟩, ⟨.ofList [], .finish⟩]) := by
  obtain ⟨lead, ss, close⟩ := b
  have hopening : Relexed [⟨lead, .mark '{'⟩] := Lexeme.relexed_mark hlead (Or.inl rfl)
  have hclosing : Relexed [⟨close, .mark '}'⟩] := Lexeme.relexed_mark hclose (Or.inr (Or.inl rfl))
  have htext : (print (Statement.block ⟨lead, ss, close⟩)).toList =
      textOf ([⟨lead, .mark '{'⟩] ++ (xs ++ [⟨close, .mark '}'⟩])) ++ [] := by
    rw [toList_print]
    show Step.text (Statement.steps _) = _
    simp [Statement.steps, Block.steps, text_of_several h, Step.text_spaced, Lexeme.toList,
      Token.toList]
  rw [htext, hopening.append ((relexed_of_several h).append hclosing), Lexeme.ofText_nil]
  simp

/-- A block of statements that stand anywhere is read as it prints. -/
theorem parseStatement_block {b : Block} {xs : List Lexeme} (hlead : Lex.IsGap false b.lead.toList)
    (hclose : Lex.IsGap false b.close.toList) (h : Several Stands xs b.statements) :
    parseStatement (print (Statement.block b)) = .ok (.block b) := by
  rw [parseStatement_eq_ok, ofText_block hlead hclose h]
  refine ⟨.ofList [], [], ?_, ?_⟩
  · intro l hl
    simp only [List.mem_cons, List.mem_append, List.not_mem_nil, or_false] at hl
    rcases hl with rfl | hl | rfl | rfl
    · exact fun _ _ heq => by cases heq
    · exact valid_of_several h l hl
    · exact fun _ _ heq => by cases heq
    · exact fun _ _ heq => by cases heq
  · rw [parse_blockStatement_cons]
    refine parse_map_eq_some.mpr ⟨b, parse_block_iff.mpr ⟨_, rfl, ?_⟩, rfl⟩
    simp only [rules, later_eq]
    refine parseMany_stands (not_startsElse (by simp) _) (parse_closing _ _ _) h ?_ ?_
    · simp
      omega
    · simp
      omega

/-- With a parsed statement in place of one of its own, a parsed block prints as a text that is read
as the very same block. An index past the end changes nothing. -/
theorem parseStatement_withStatement {blockSource source : String} {b : Block} {s : Statement}
    (hb : parseStatement blockSource = .ok (.block b)) (hs : parseStatement source = .ok s)
    (i : Nat) : parseStatement (print (Statement.block (b.withStatement i s))) =
      .ok (.block (b.withStatement i s)) := by
  obtain ⟨hlead, hclose, xs, hxs⟩ := exists_block hb
  obtain ⟨ys, hys⟩ := exists_stands_of_parseStatement hs
  obtain ⟨zs, hzs⟩ := hxs.set hys i
  exact parseStatement_block hlead hclose hzs

/-- A conditional with a line comment in place of a call. -/
theorem parseStatement_withStatement_conditional :
    ∃ b s, parseStatement "\x7b a(); b(); \x7d" = .ok (.block b) ∧ b.statements.length = 2 ∧
      parseStatement "// c\n if (x) y();" = .ok s ∧
      parseStatement (print (Statement.block (b.withStatement 0 s))) =
        .ok (.block (b.withStatement 0 s)) := by
  obtain ⟨t, h, ht⟩ := exists_ok (x := parseStatement "\x7b a(); b(); \x7d")
    (p := fun | .block b => b.statements.length == 2 | _ => false) (by decide +kernel)
  obtain ⟨s, hs, -⟩ := exists_ok (p := fun _ => true)
    (x := parseStatement "// c\n if (x) y();") (by decide +kernel)
  cases t with
  | block b => exact ⟨b, s, h, beq_iff_eq.mp ht, hs, parseStatement_withStatement h hs 0⟩
  | _ => cases ht

/-! ## Shifted statements -/

/-- A parsed statement prints after any shift as a text that is read as the very same shifted
statement. -/
theorem parseStatement_applyTo {source : String} {a : Statement}
    (h : parseStatement source = .ok a) (s : Shift) :
    parseStatement (print (s.applyTo a)) = .ok (s.applyTo a) := by
  obtain ⟨t, rest, hvalid, hparse⟩ := parseStatement_eq_ok.mp h
  obtain ⟨ys, hys⟩ := exists_stands_shifted s (lexed_ofText hvalid) (Nat.le_succ _) hparse
  exact hys.parseStatement_print

/-- A loop with a comment over two lines, moved to the left. -/
theorem parseStatement_applyTo_loop :
    ∃ a, parseStatement "\n  while (x) /* a\n    * / */ \x7b\n y(); \x7d" = .ok a ∧
      print ((Shift.mk (-3) true).applyTo a) = "\nwhile (x) /* a\n * / */ \x7b\ny(); \x7d" ∧
      parseStatement (print ((Shift.mk (-3) true).applyTo a)) =
        .ok ((Shift.mk (-3) true).applyTo a) := by
  obtain ⟨a, h, ha⟩ := exists_ok
    (x := parseStatement "\n  while (x) /* a\n    * / */ \x7b\n y(); \x7d")
    (p := fun a => print ((Shift.mk (-3) true).applyTo a) ==
      "\nwhile (x) /* a\n * / */ \x7b\ny(); \x7d") (by decide +kernel)
  exact ⟨a, h, beq_iff_eq.mp ha, parseStatement_applyTo h _⟩

end LosslessJava
