import LosslessJava.Proofs.Grammar.Build.Text
import LosslessJava.Proofs.Literal.Integer
import LosslessJava.Proofs.Locations

/-!
# Integer literals as expressions

A text that is an integer literal is read as an expression with the value that the literal denotes.
When it denotes none, the literal is reported as a whole.

* `parseExpression_of_literal`: the expression or the error for a literal of any kind.
* `parseExpression_integer`: the same by what an integer literal denotes.
-/

namespace LosslessJava

open Grammar

theorem Location.ofOffset_zero (source : List Char) : ofOffset source 0 = ⟨0, 1, 1⟩ :=
  ofOffset_append [] source

/-- The rule takes the token whether or not it denotes a value. -/
theorem parse_literalToken (kind : LiteralKind) (text : String) :
    (only (expression (rules 3))).parse
        [⟨.empty, .literal kind text⟩, ⟨.empty, .finish⟩] =
      some (.literal ⟨.empty, (kind.decode text.toList).getD .null, text⟩, []) := by
  cases kind <;> rfl

/-- A text that is one literal is read as that literal when it denotes a value. -/
theorem parseExpression_of_literal {kind : LiteralKind} {text : String}
    (h : Lexeme.ofText text.toList = [⟨.empty, .literal kind text⟩, ⟨.empty, .finish⟩]) :
    parseExpression text =
      match kind.decode text.toList with
      | some v => .ok (.literal ⟨.empty, v, text⟩)
      | none => .error ⟨none, .ofOffset text.toList 0, .invalidLiteral kind text⟩ := by
  have hinvalid : firstInvalid 0 [⟨.empty, .literal kind text⟩, ⟨.empty, .finish⟩] =
      if (kind.decode text.toList).isNone then some (0, kind, text) else none := rfl
  have hparse : (only (expression (rules ((Lexeme.ofText text.toList).length + 1)))).parse
      (Lexeme.ofText text.toList) =
        some (.literal ⟨.empty, (kind.decode text.toList).getD .null, text⟩, []) := by
    rw [h]
    exact parse_literalToken kind text
  rw [parseExpression, read_of_some buildsText_expression none .expressionText hparse, h, hinvalid]
  cases kind.decode text.toList <;> rfl

/-- An integer literal that denotes a value is read as that value. Any other is reported as an
invalid literal, from the start of the text to its end. -/
theorem parseExpression_integer {text : String}
    (h : Lex.integer? text.toList = some (text.toList, [])) :
    (∀ v, Integer.denoted text.toList = some v →
      parseExpression text = .ok (.literal ⟨.empty, v, text⟩)) ∧
    (Integer.denoted text.toList = none → ∃ e, parseExpression text = .error e ∧
      e.fault = .invalidLiteral .integer text ∧ e.location = ⟨0, 1, 1⟩ ∧
      e.length = text.utf8ByteSize) := by
  have hdecode := Integer.decode_eq_denoted (Lex.isInteger_of_integer h)
  rw [parseExpression_of_literal (Lexeme.ofText_integer h), hdecode]
  constructor
  · intro v hv
    rw [hv]
  · intro hnone
    rw [hnone]
    exact ⟨_, rfl, rfl, Location.ofOffset_zero text.toList, rfl⟩

/-- A word with its first bit set, and a nine in octal. -/
theorem parseExpression_integer_words :
    parseExpression "0x8000_0000" =
      .ok (.literal ⟨.empty, .int (-2147483648), "0x8000_0000"⟩) ∧
    ∃ e, parseExpression "0_9L" = .error e ∧ e.fault = .invalidLiteral .integer "0_9L" ∧
      e.location = ⟨0, 1, 1⟩ ∧ e.length = 4 := by
  have hword : Lex.integer? "0x8000_0000".toList = some ("0x8000_0000".toList, []) := by
    decide +kernel
  have hoctal : Lex.integer? "0_9L".toList = some ("0_9L".toList, []) := by decide +kernel
  exact ⟨(parseExpression_integer hword).1 _ (by decide +kernel),
    (parseExpression_integer hoctal).2 (by decide +kernel)⟩

end LosslessJava
