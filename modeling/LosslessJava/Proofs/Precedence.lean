import LosslessJava.Proofs.Grammar.Arranging.Declaration
import LosslessJava.Proofs.Lossless

/-!
# The precedence of operators in parsed expressions

* `precedence_of_parsed`: in the tree of an expression, at any depth, operators group by their
  precedence, and the operands and operators of a chain stand in the text as they stand in the tree.
-/

namespace LosslessJava

open Step

/-- The symbols of binary operators, by levels from the loosest to the tightest. -/
def BinaryOperator.levels : List (List String) :=
  [["||"], ["&&"], ["|"], ["^"], ["&"], ["==", "!="], ["<", ">", "<=", ">="], ["<<", ">>", ">>>"],
   ["+", "-"], ["*", "/", "%"]]

theorem BinaryOperator.precedence_eq (o : BinaryOperator) :
    o.precedence = levels.findIdx (·.contains o.symbol) + 1 := by
  cases o <;> decide

namespace Expression

/-- The text of the operands and operators of a chain, one behind the other. -/
def chainText (e : Expression) : List Char :=
  (print e.chain.1).toList ++ e.chain.2.flatMap fun ((t, o), operand) =>
    t.toList ++ o.symbol.toList ++ (print operand).toList

/-- The operands and operators of the chain are those of a part of the text, and there are no others
in it: no operand is a chain itself, only white space and comments stand in front of an operator,
and each operator is the longest one that the text has in its place. -/
structure IsWrittenIn (e : Expression) (source : String) : Prop where
  text : e.chainText <:+: source.toList
  operand : ∀ o ∈ e.operands, o.isBinary = false
  gap : ∀ a ∈ e.chain.2, Lex.IsGap false a.1.1.toList
  longest : ∀ a ∈ e.chain.2, ∀ s, IsOperatorText s → ∀ tail,
    s.toList <+: a.1.2.symbol.toList ++ (print a.2).toList ++ tail →
      s.length ≤ a.1.2.symbol.length

theorem chainText_eq {e : Expression} (h : (Node.expression e).All Node.Tidy) :
    e.chainText = (print e).toList := by
  have hprint : ∀ f : Expression, (print f).toList = text f.steps := fun f => toList_print f
  simp only [chainText, hprint]
  exact (text_chain h).2.symm

theorem IsWrittenIn.of_isInfix {e : Expression} {source : String}
    (ht : (Node.expression e).All Node.Tidy) (ha : (Node.expression e).AllArranged)
    (h : Step.text e.steps <:+: source.toList) : e.IsWrittenIn source := by
  have hchain := ends_of_mem_chain ht ha
  refine ⟨?_, isBinary_of_mem_operands, fun a hmem => (hchain a hmem).1, ?_⟩
  · rw [chainText_eq ht, toList_print]
    exact h
  · intro a hmem s hs tail hp
    rw [toList_print] at hp
    exact (hchain a hmem).2.length_le hs hp

end Expression

/-- In an expression that is read from a text, every operand at any depth holds together tightly
enough for its place. The ten levels of binary operators are those of the table. Nothing of the text
is lost: the operands and operators of the whole expression make up the text, and those of every
chain in it are written in it in the same order. -/
theorem precedence_of_parsed {source : String} {e : Expression}
    (h : parseExpression source = .ok e) :
    (∀ o : BinaryOperator, o.precedence = BinaryOperator.levels.findIdx (·.contains o.symbol) + 1) ∧
    (∃ gap, Lex.IsGap true gap ∧ source.toList = e.chainText ++ gap) ∧
    ∀ f : Expression, Node.Within (.expression f) (.expression e) →
      f.Ranked ∧ f.IsWrittenIn source := by
  have htidy := Parsed.all_tidy (.expression h)
  have harranged := parseExpression_arranged h
  obtain ⟨gap, hgap, hsource⟩ := (parseExpression_reads h).source fun xs he => he.text
  refine ⟨BinaryOperator.precedence_eq, ⟨gap, hgap, ?_⟩, fun f hf => ⟨(harranged _ hf).1, ?_⟩⟩
  · rw [Expression.chainText_eq htidy]
    exact hsource
  · refine .of_isInfix (htidy.within hf) (harranged.within hf) ?_
    rw [hsource]
    refine isInfix_left ?_
    rw [toList_print]
    exact isInfix_text (Node.isInfix_steps hf)

/-- A chain of operators of many levels, with comments and other operators between them. -/
theorem precedence_of_parsed_chain :
    ∃ e gap, parseExpression "a-b*c/* d */- -e.f()>>>(g=h)|| i+++j & k // l" = .ok e ∧
      e.chain.2.map (fun a => a.1.2) =
        [.subtract, .multiply, .subtract, .unsignedShiftRight, .or, .add, .bitAnd] ∧
      e.Ranked ∧ Lex.IsGap true gap ∧
      "a-b*c/* d */- -e.f()>>>(g=h)|| i+++j & k // l".toList = e.chainText ++ gap := by
  obtain ⟨e, h, hchain⟩ := exists_ok
    (p := fun e : Expression => e.chain.2.map (fun a => a.1.2) ==
      [.subtract, .multiply, .subtract, .unsignedShiftRight, .or, .add, .bitAnd])
    (x := parseExpression "a-b*c/* d */- -e.f()>>>(g=h)|| i+++j & k // l") (by decide +kernel)
  obtain ⟨-, ⟨gap, hgap, htext⟩, hwithin⟩ := precedence_of_parsed h
  exact ⟨e, gap, h, eq_of_beq hchain, (hwithin e (.refl _)).1, hgap, htext⟩

end LosslessJava
