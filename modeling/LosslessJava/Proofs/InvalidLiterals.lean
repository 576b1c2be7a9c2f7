import LosslessJava.Proofs.Grammar.Lexed
import LosslessJava.Proofs.Grammar.Spelling.Text
import LosslessJava.Proofs.Lex.Placed
import LosslessJava.Proofs.Literal.Escape
import LosslessJava.Proofs.Parsed

/-!
# The first bad literal of a text

A text that the grammar rejects is refused where it stops being legal. Any other text is refused
when one of its literals is bad, with an error for the first of them.

* `Token.Malformed`: a token is a bad literal. The flag says whether an escape may have a plus sign
  in the place of its first hexadecimal digit.
* `Reports`: how texts of a kind are answered, for a notion of bad literals.
* `reports_first`: it holds when signs are allowed, and without them for texts that have none.
-/

namespace LosslessJava

open Grammar

/-! ## Bad literals -/

/-- The text is a bad literal of its kind: an integer that is out of range or has a digit eight or
nine in octal, text in quotes with a malformed escape, or a character literal that denotes not
exactly one character. -/
def LiteralKind.Malformed (sign : Bool) (kind : LiteralKind) (text : List Char) : Prop :=
  match kind with
  | integer => Integer.denoted text = none
  | floating => False
  | character => ¬ ∃ c, Escape.Denotes sign (body text) [c]
  | string => ¬ ∃ cs, Escape.Denotes sign (body text) cs

namespace Token

/-- The token is a bad literal. -/
def Malformed (sign : Bool) : Token → Prop
  | literal kind text => kind.Malformed sign text.toList
  | _ => False

/-- An escape in the literal has a plus sign behind its last `u`. -/
def HasSign : Token → Prop
  | literal .character text => Escape.HasSign (LiteralKind.body text.toList)
  | literal .string text => Escape.HasSign (LiteralKind.body text.toList)
  | _ => False

/-- The token is a literal that is not decoded. -/
def isUndecodable : Token → Bool
  | literal kind text => (kind.decode text.toList).isNone
  | _ => false

end Token

theorem LiteralKind.isNone_decode_iff {kind : LiteralKind} {text : List Char}
    (h : kind = .integer → Lex.IsInteger text) :
    (kind.decode text).isNone = true ↔ kind.Malformed true text := by
  cases kind with
  | integer =>
    rw [Option.isNone_iff_eq_none, Integer.decode_eq_denoted (h rfl)]
    rfl
  | floating => simp [decode, Malformed]
  | character =>
    simp only [decode, Malformed, ← Escape.decode_eq_some_iff_denotes]
    split
    · rename_i c hc
      simp [hc]
    · rename_i hother
      simpa using hother
  | string =>
    simp only [decode, Malformed, ← Escape.decode_eq_some_iff_denotes, Option.isNone_map,
      Option.isNone_iff_eq_none, Option.eq_none_iff_forall_ne_some, not_exists]

/-- In a text, the bad literals are those that are not decoded. -/
theorem isUndecodable_iff {source : String} {p : Placed} (h : p ∈ placedTokens source) :
    p.token.isUndecodable = true ↔ p.token.Malformed true := by
  cases htoken : p.token with
  | literal kind text =>
    refine LiteralKind.isNone_decode_iff ?_
    rintro rfl
    obtain ⟨⟨t, token⟩, hl, rfl⟩ := Lexeme.exists_lexeme_of_mem_placed h
    rw [htoken] at hl
    exact Lexeme.isInteger_of_mem hl
  | _ => simp [Token.isUndecodable, Token.Malformed]

/-- Without signs, a literal with a sign is bad as well. -/
theorem Token.malformed_unsigned_iff (t : Token) :
    t.Malformed false ↔ t.Malformed true ∨ t.HasSign := by
  cases t with
  | literal kind text =>
    cases kind with
    | character | string =>
      simp only [Malformed, LiteralKind.Malformed, HasSign, Escape.denotes_unsigned_iff,
        exists_and_right, not_and_or, not_not]
    | _ => simp [Malformed, LiteralKind.Malformed, HasSign]
  | _ => simp [Malformed, HasSign]

/-! ## Answers -/

/-- The error marks the token, which is a literal, in the text. -/
structure ParseError.Marks (e : ParseError) (source : String) (p : Placed) : Prop where
  fault : ∃ kind found, p.token = .literal kind found ∧ e.fault = .invalidLiteral kind found
  location : e.location = .ofOffset source.toList p.offset
  offset : e.location.offset = p.offset
  /-- What is marked is the text of the token. -/
  slice : ∃ before after, source.toList = before ++ p.token.toList ++ after ∧
    byteLength before = p.offset ∧ byteLength p.token.toList = e.length

/-- How a text is answered when the bad literals are those with the property. -/
structure Reports (bad : Token → Prop) (kind : TextKind) (source : String) : Prop where
  /-- A text without a tree has unexpected input, and no other text has. -/
  rejected : kind.tree? source = none ↔
    ∃ e expected, kind.parse source = .error e ∧ e.fault = .unexpectedInput expected
  /-- The literals among the tokens of the text are those of its tree. -/
  literals : ∀ n, kind.tree? source = some n →
    (placedTokens source).filterMap (fun p => p.token.literalText?) = n.literals
  accepted : ∀ n, kind.tree? source = some n →
    (kind.parse source = .ok n ↔ ∀ p ∈ placedTokens source, ¬ bad p.token)
  /-- Otherwise the first bad literal is reported. -/
  first : ∀ n, kind.tree? source = some n → (∃ p ∈ placedTokens source, bad p.token) →
    ∃ p ∈ placedTokens source, bad p.token ∧
      (∀ q ∈ placedTokens source, bad q.token → p.offset ≤ q.offset) ∧
      ∃ e, kind.parse source = .error e ∧ e.path = kind.path ∧ e.Marks source p

theorem Reports.congr {bad bad' : Token → Prop} {kind : TextKind} {source : String}
    (h : Reports bad kind source)
    (hbad : ∀ p ∈ placedTokens source, bad p.token ↔ bad' p.token) : Reports bad' kind source := by
  refine ⟨h.rejected, h.literals, fun n hn => ?_, fun n hn ⟨p, hp, hpbad⟩ => ?_⟩
  · rw [h.accepted n hn]
    exact forall₂_congr fun p hp => not_congr (hbad p hp)
  · obtain ⟨q, hq, hqbad, hleast, he⟩ := h.first n hn ⟨p, hp, (hbad p hp).mpr hpbad⟩
    exact ⟨q, hq, (hbad q hq).mp hqbad, fun r hr hrbad => hleast r hr ((hbad r hr).mpr hrbad), he⟩

/-! ## Texts with a tree -/

theorem Token.isUndecodable_of_not_literal {t : Token} (h : ∀ kind text, t ≠ literal kind text) :
    t.isUndecodable = false := by
  cases t with
  | literal kind text => exact absurd rfl (h kind text)
  | _ => rfl

/-- Without a bad literal, all literals are decoded. -/
theorem isUndecodable_of_firstInvalid_eq_none {offset : Nat} {ls : List Lexeme}
    (h : firstInvalid offset ls = none) :
    ∀ p ∈ Lexeme.placed offset ls, p.token.isUndecodable = false := by
  intro p hp
  obtain ⟨l, hl, htoken⟩ := Lexeme.exists_lexeme_of_mem_placed hp
  cases hliteral : p.token with
  | literal kind text =>
    have hvalid := firstInvalid_eq_none.mp h l hl kind text (htoken.trans hliteral)
    rw [Token.isUndecodable, ← Option.not_isSome, hvalid]
    rfl
  | _ => rfl

/-- The literal that is found first is not decoded, and those in front of it are. -/
theorem exists_of_firstInvalid_eq_some {offset place : Nat} {ls : List Lexeme} {kind : LiteralKind}
    {found : String} (h : firstInvalid offset ls = some (place, kind, found)) :
    ∃ before after, Lexeme.placed offset ls = before ++ ⟨place, .literal kind found⟩ :: after ∧
      (Token.literal kind found).isUndecodable = true ∧
      ∀ q ∈ before, q.token.isUndecodable = false := by
  fun_induction firstInvalid offset ls with
  | case1 => cases h
  | case2 offset l ls kind text hl hdecode =>
    cases h
    exact ⟨[], _, by rw [Lexeme.placed, hl]; rfl, hdecode, by simp⟩
  | case3 offset l ls kind text hl hdecode ih =>
    obtain ⟨before, after, heq, hfound, hbefore⟩ := ih h
    refine ⟨_ :: before, after, by rw [Lexeme.placed, heq]; rfl, hfound, ?_⟩
    refine List.forall_mem_cons.mpr ⟨?_, hbefore⟩
    show l.token.isUndecodable = false
    rw [hl]
    exact Bool.eq_false_iff.mpr hdecode
  | case4 offset l ls hl ih =>
    obtain ⟨before, after, heq, hfound, hbefore⟩ := ih h
    exact ⟨_ :: before, after, by rw [Lexeme.placed, heq]; rfl, hfound,
      List.forall_mem_cons.mpr ⟨Token.isUndecodable_of_not_literal hl, hbefore⟩⟩

/-- An error for a literal of the text marks it. -/
theorem ParseError.marks {source : String} {p : Placed} (hp : p ∈ placedTokens source)
    {kind : LiteralKind} {found : String} (htoken : p.token = .literal kind found)
    (path : Option String) :
    Marks ⟨path, .ofOffset source.toList p.offset, .invalidLiteral kind found⟩ source p := by
  obtain ⟨before, after, htext, hoffset⟩ := Lexeme.exists_of_mem_placed hp
  rw [Lexeme.textOf_ofText] at htext
  rw [Nat.zero_add] at hoffset
  refine ⟨⟨kind, found, htoken, rfl⟩, rfl, ?_, before, after, htext, hoffset.symm, ?_⟩
  · rw [List.append_assoc] at htext
    rw [hoffset]
    exact Location.offset_ofOffset htext
  · rw [htoken]
    exact byteLength_toList found

/-- The literal that is found first has the least offset. -/
theorem first_of_firstInvalid {source : String} {place : Nat} {kind : LiteralKind} {found : String}
    (h : firstInvalid 0 (Lexeme.ofText source.toList) = some (place, kind, found)) :
    ⟨place, .literal kind found⟩ ∈ placedTokens source ∧
      (Token.literal kind found).isUndecodable = true ∧
      ∀ q ∈ placedTokens source, q.token.isUndecodable = true → place ≤ q.offset := by
  obtain ⟨before, after, heq, hfound, hbefore⟩ := exists_of_firstInvalid_eq_some h
  have hsorted : (placedTokens source).Pairwise fun p q => p.offset ≤ q.offset :=
    Lexeme.pairwise_placed 0 _
  rw [placedTokens, heq] at hsorted ⊢
  refine ⟨by simp, hfound, fun q hq hqbad => ?_⟩
  obtain ⟨-, hafter, -⟩ := List.pairwise_append.mp hsorted
  rcases List.mem_append.mp hq with hq | hq
  · rw [hbefore q hq] at hqbad
    cases hqbad
  · rcases List.mem_cons.mp hq with rfl | hq
    · exact Nat.le_refl _
    · exact (List.pairwise_cons.mp hafter).1 q hq

/-- The literals among the placed tokens are those of the tree. -/
theorem filterMap_literalText_placedTokens {kind : TextKind} {source : String} {n : Node}
    (h : kind.tree? source = some n) :
    (placedTokens source).filterMap (fun p => p.token.literalText?) = n.literals := by
  have hliterals := (TextKind.spells h).literals
  rw [tokens, ← Lexeme.map_token_placed 0, List.filterMap_map, List.flatMap_singleton] at hliterals
  exact hliterals

theorem reports_undecodable (kind : TextKind) (source : String) :
    Reports (fun t => t.isUndecodable = true) kind source := by
  refine ⟨⟨fun hnone => ?_, ?_⟩, fun n => filterMap_literalText_placedTokens, fun n hn => ?_,
    fun n hn ⟨p, hp, hbad⟩ => ?_⟩
  · obtain ⟨offset, expected, heq⟩ := TextKind.parse_of_none hnone
    exact ⟨_, expected, heq, rfl⟩
  · rintro ⟨e, expected, he, hfault⟩
    refine Option.eq_none_iff_forall_ne_some.mpr fun n hn => ?_
    rw [TextKind.parse_of_some hn] at he
    split at he <;> cases he
    cases hfault
  · rw [TextKind.parse_of_some hn]
    cases hfirst : firstInvalid 0 (Lexeme.ofText source.toList) with
    | none =>
      have hall := isUndecodable_of_firstInvalid_eq_none hfirst
      exact ⟨fun _ p hp => by simp [hall p hp], fun _ => rfl⟩
    | some a =>
      obtain ⟨place, literal, found⟩ := a
      obtain ⟨hmem, hfound, -⟩ := first_of_firstInvalid hfirst
      exact ⟨fun h => (by cases h), fun h => absurd hfound (h _ hmem)⟩
  · rw [TextKind.parse_of_some hn]
    cases hfirst : firstInvalid 0 (Lexeme.ofText source.toList) with
    | none =>
      rw [isUndecodable_of_firstInvalid_eq_none hfirst p hp] at hbad
      cases hbad
    | some a =>
      obtain ⟨place, literal, found⟩ := a
      obtain ⟨hmem, hfound, hleast⟩ := first_of_firstInvalid hfirst
      exact ⟨_, hmem, hfound, hleast, _, rfl, rfl, ParseError.marks hmem rfl kind.path⟩

/-- A text without a tree is refused as a syntax error. In any other text the first bad literal is
reported, if there is one. A plus sign may stand in the place of the first hexadecimal digit of an
escape. Where no literal has such a sign, four digits have to be there. -/
theorem reports_first (kind : TextKind) (source : String) :
    Reports (Token.Malformed true) kind source ∧
    ((∀ p ∈ placedTokens source, ¬ p.token.HasSign) →
      Reports (Token.Malformed false) kind source) := by
  have hreports := (reports_undecodable kind source).congr fun p hp => isUndecodable_iff hp
  refine ⟨hreports, fun hsigns => hreports.congr fun p hp => ?_⟩
  rw [Token.malformed_unsigned_iff, or_iff_left (hsigns p hp)]

/-- The second of three literals is the first bad one. -/
theorem reports_first_call :
    (∀ p ∈ placedTokens "f(\"\\u0041\", 08, '\\q')", ¬ p.token.HasSign) ∧
    Reports (Token.Malformed false) .expression "f(\"\\u0041\", 08, '\\q')" := by
  have htokens : placedTokens "f(\"\\u0041\", 08, '\\q')" =
      [⟨0, .word "f"⟩, ⟨1, .mark '('⟩, ⟨2, .literal .string "\"\\u0041\""⟩, ⟨10, .mark ','⟩,
       ⟨12, .literal .integer "08"⟩, ⟨14, .mark ','⟩, ⟨16, .literal .character "'\\q'"⟩,
       ⟨20, .mark ')'⟩, ⟨21, .finish⟩] := by decide +kernel
  have hsigns : ∀ p ∈ placedTokens "f(\"\\u0041\", 08, '\\q')", ¬ p.token.HasSign := by
    rw [htokens]
    simp [Token.HasSign, LiteralKind.body, Escape.HasSign]
  exact ⟨hsigns, (reports_first .expression _).2 hsigns⟩

/-- A literal with a sign is passed over, though its escape is malformed. The next bad literal is
reported. -/
theorem not_reports_signed :
    ¬ ∀ kind source, Reports (Token.Malformed false) kind source := by
  intro h
  obtain ⟨n, htree⟩ : ∃ n, TextKind.expression.tree? "f(\"\\u+041\", 08)" = some n :=
    Option.isSome_iff_exists.mp (by decide +kernel)
  have hmem : ⟨2, .literal .string "\"\\u+041\""⟩ ∈ placedTokens "f(\"\\u+041\", 08)" := by
    decide +kernel
  have hbad : (Token.literal .string "\"\\u+041\"").Malformed false := by
    refine (Token.malformed_unsigned_iff _).mpr (.inr ?_)
    simp [Token.HasSign, LiteralKind.body, Escape.HasSign]
  obtain ⟨p, -, -, hleast, e, he, -, hmarks⟩ := (h .expression _).first n htree ⟨_, hmem, hbad⟩
  have hfirst : firstInvalid 0 (Lexeme.ofText "f(\"\\u+041\", 08)".toList) =
      some (12, .integer, "08") := by decide +kernel
  have hplace : (Location.ofOffset "f(\"\\u+041\", 08)".toList 12).offset = 12 := by
    decide +kernel
  rw [TextKind.parse_of_some htree, hfirst] at he
  cases he
  have hle : p.offset ≤ 2 := hleast _ hmem hbad
  rw [← hmarks.offset, hplace] at hle
  omega

end LosslessJava
