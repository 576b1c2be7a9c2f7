import LosslessJava.Proofs.IntegerLiterals
import LosslessJava.Proofs.Literal.Escape
import LosslessJava.Proofs.Lossless

/-!
# String literals as expressions

The literal that is built for a string has escapes where the grammar or the decoding needs them, so
its text is read back as that literal.

* `Escape.decode_encode`: the escapes denote the characters that they were written for.
* `Lex.string_quoted`: the escapes keep the literal from ending early.
* `parseExpression_string`: the literal is read back.
-/

namespace LosslessJava

open Grammar

namespace Escape

/-- A character is written as itself or as an escape of one letter. -/
inductive Encodes (c : Char) : List Char → Prop
  | plain (hslash : c ≠ '\\') (hquote : c ≠ '"') (hline : c ≠ '\n') (hreturn : c ≠ '\r') :
    Encodes c [c]
  | letter {d : Char} (h : letter? d = some c) (hu : d ≠ 'u') (hoctal : isOctal d = false) :
    Encodes c ['\\', d]

theorem encodes_encodeChar (c : Char) : Encodes c (encodeChar c) := by
  unfold encodeChar
  split
  · exact .letter rfl (by decide) rfl
  · exact .letter rfl (by decide) rfl
  · exact .letter rfl (by decide) rfl
  · exact .letter rfl (by decide) rfl
  · exact .letter rfl (by decide) rfl
  · exact .plain ‹_› ‹_› ‹_› ‹_›

theorem decode_append {c : Char} {text : List Char} (h : Encodes c text) (rest : List Char) :
    decode (text ++ rest) = (decode rest).map (c :: ·) := by
  cases h with
  | plain hslash => exact decode_cons_of_ne hslash rest
  | letter h hu hoctal =>
    have hnext : next? (_ :: rest) = some (c, rest) :=
      (next?_letter hu hoctal).mpr ⟨letter?_eq_some_iff.mp h, rfl⟩
    rw [List.cons_append, List.singleton_append, decode_backslash, hnext, Option.bind_some]

theorem decode_encode (cs : List Char) : decode (encode cs) = some cs := by
  induction cs with
  | nil => rw [encode, List.flatMap_nil, decode]
  | cons c cs ih =>
    rw [encode, List.flatMap_cons, decode_append (encodes_encodeChar c), ← encode, ih,
      Option.map_some]

end Escape

namespace Lex

open LosslessJava.Escape

theorem stringEnd_append {c : Char} {text : List Char} (h : Encodes c text) (rest : List Char) :
    stringEnd? (text ++ rest) = (stringEnd? rest).map fun cut => (text ++ cut.1, cut.2) := by
  cases h with
  | plain hslash hquote hline hreturn =>
    rw [List.singleton_append, stringEnd?.eq_def]
    split <;> simp_all
  | letter => rfl

/-- What is written for characters does not end a string literal. -/
theorem stringEnd_encode (cs rest : List Char) :
    stringEnd? (encode cs ++ '"' :: rest) = some (encode cs ++ ['"'], rest) := by
  induction cs with
  | nil => rfl
  | cons c cs ih =>
    rw [encode, List.flatMap_cons, List.append_assoc, stringEnd_append (encodes_encodeChar c),
      ← encode, ih, Option.map_some, List.append_assoc]

theorem string_quoted (cs rest : List Char) :
    string? ('"' :: encode cs ++ '"' :: rest) = some ('"' :: encode cs ++ ['"'], rest) := by
  rw [List.cons_append, string?, stringEnd_encode]
  rfl

end Lex

/-- A string literal is one token. -/
theorem Lexeme.ofText_string {cs : List Char} (h : Lex.string? cs = some (cs, [])) :
    ofText cs = [⟨.empty, .literal .string (String.ofList cs)⟩, ⟨.empty, .finish⟩] := by
  obtain ⟨body, rfl⟩ : ∃ body, cs = '"' :: body := by
    unfold Lex.string? at h
    split at h
    · exact ⟨_, rfl⟩
    · cases h
  have hstart : Lex.isWordStart '"' = false := by decide
  have hword : Token.word? ('"' :: body) = none := by simp [Token.word?, hstart]
  have hfloating : Lex.floating? ('"' :: body) = none := Lex.floating_eq_none (by simp)
  have hliteral : Token.literal? ('"' :: body) = some (.string, '"' :: body, []) := by
    simp [Token.literal?, hfloating, Lex.integer?, Lex.integerCut?, Lex.radixCut?, Lex.digitsCut?,
      Lex.character?, h]
  have hskip : Lex.skip ('"' :: body) = ([], '"' :: body) :=
    Lex.skip_of_first (by decide) fun hslash => absurd hslash (by decide)
  rw [ofText_of_next hskip (List.cons_ne_nil _ _) (Token.next_of_literal hword hliteral),
    ofText_nil]
  rfl

theorem toList_print_literal (l : Literal) :
    (print l).toList = l.lead.toList ++ l.source.toList := by
  rw [toList_print]
  exact Step.text_spaced l.lead l.source

theorem Literal.lead_string (v : String) : (string v).lead = .empty := rfl

/-- The text that the literal which is built for a string keeps. -/
theorem Literal.toList_source_string (v : String) :
    (string v).source.toList = '"' :: Escape.encode v.toList ++ ['"'] := by
  rw [string, String.toList_ofList]

/-- A string literal denotes the string that it is built for. -/
theorem LiteralKind.decode_string (v : String) :
    string.decode (Literal.string v).source.toList = some (.string v) := by
  have hbody : body ('"' :: Escape.encode v.toList ++ ['"']) = Escape.encode v.toList := by
    rw [body, List.cons_append, List.tail_cons, List.dropLast_concat]
  rw [decode, Literal.toList_source_string, hbody, Escape.decode_encode, Option.map_some,
    String.ofList_toList]

/-- The literal that is built for a string is read back from its print. -/
theorem parseExpression_string (v : String) :
    parseExpression (print (Literal.string v)) = .ok (.literal (Literal.string v)) := by
  have hprint : print (Literal.string v) = (Literal.string v).source := by
    apply String.toList_injective
    rw [toList_print_literal, Literal.lead_string, Trivia.toList_empty, List.nil_append]
  have hlexeme : Lexeme.ofText (Literal.string v).source.toList =
      [⟨.empty, .literal .string (Literal.string v).source⟩, ⟨.empty, .finish⟩] := by
    have hstring := Lex.string_quoted v.toList []
    rw [← Literal.toList_source_string] at hstring
    rw [Lexeme.ofText_string hstring, String.ofList_toList]
  rw [hprint, parseExpression_of_literal hlexeme, LiteralKind.decode_string]
  rfl

end LosslessJava
