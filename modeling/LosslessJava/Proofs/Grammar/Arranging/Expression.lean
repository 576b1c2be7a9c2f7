import LosslessJava.Proofs.Grammar.Lead
import LosslessJava.Proofs.Tree.Precedence

/-!
# Arranged expressions

The rules for expressions make arranged expressions only, if the recursive rules do.

* `Rules.Arranging`: the recursive rules make arranged nodes.
* `arranging_chain`: an operator is read as far as it goes, and its right operand is arranged.
* `arranging_expression`: the rule for expressions makes arranged expressions.
-/

namespace LosslessJava

/-! ## Nodes without operators -/

namespace Node

/-- The node is arranged, and so is everything in it. -/
abbrev AllArranged (n : Node) : Prop := n.All Arranged

/-- The node holds no expression. -/
def Plain : Node → Prop
  | dimension _ | typeTree _ | wildcardBound _ | typeList _ | literal _ | identifier _ => True
  | _ => False

theorem Plain.child {n k : Node} (h : n.Plain) (hk : k ∈ n.children) : k.Plain := by
  cases n with
  | typeTree t =>
    simp only [children, List.mem_append, List.mem_map, Option.mem_toList,
      Option.map_eq_some_iff] at hk
    rcases hk with (⟨b, -, rfl⟩ | ⟨t, -, rfl⟩) | ⟨d, -, rfl⟩ <;> trivial
  | typeList l =>
    obtain ⟨p, -, rfl⟩ := List.mem_map.mp hk
    trivial
  | wildcardBound b =>
    rw [List.mem_singleton.mp hk]
    trivial
  | dimension d => cases hk
  | literal l => cases hk
  | identifier i => cases hk
  | _ => cases h

theorem Plain.allArranged {n : Node} (h : n.Plain) : n.AllArranged := by
  intro m hm
  induction hm with
  | refl =>
    cases m with
    | expression e => exact h.elim
    | _ => trivial
  | child hk _ ih => exact ih (h.child hk)

@[simp] theorem allArranged_typeTree (t : TypeTree) : (typeTree t).AllArranged :=
  Plain.allArranged trivial

@[simp] theorem allArranged_identifier (i : Identifier) : (identifier i).AllArranged :=
  Plain.allArranged trivial

@[simp] theorem allArranged_literal (l : Literal) : (literal l).AllArranged :=
  Plain.allArranged trivial

@[simp] theorem allArranged_dimension (d : Dimension) : (dimension d).AllArranged :=
  Plain.allArranged trivial

@[simp] theorem allArranged_typeList (l : TypeList) : (typeList l).AllArranged :=
  Plain.allArranged trivial

end Node

namespace Grammar

open Step LosslessJava.Grammar.Parser Node

variable {α : Type} {r : Rules}

/-! ## What is made of several readings -/

theorem forall_optional {P : α → Prop} {p : Parser α} (hp : Reads p fun _ a => P a) :
    Reads (optional p) fun _ o => ∀ a ∈ o, P a := by
  apply hp.optional.mono
  intro xs o h
  cases h with
  | none => simp
  | some h => simpa using h

theorem forall_many {P : α → Prop} {p : Parser α} {bound : Nat} (hp : Reads p fun _ a => P a) :
    Reads (many bound p) fun _ as => ∀ a ∈ as, P a :=
  (hp.many bound).mono fun _ _ h => several_forall (C := fun _ a => P a) (fun _ _ h => h) h

theorem forall_separated {P : α → Prop} {p : Parser α} {bound : Nat}
    (hp : Reads p fun _ a => P a) :
    Reads (separated bound p) fun _ ps => ∀ q ∈ ps, P q.element := by
  have hcomma : Reads comma (IsMark ',') := reads_delimiter rfl
  have hnext : Reads (Prod.mk <$> comma <*> p) fun _ b => P b.2 := by
    apply ((hcomma.map (Prod.mk (β := α))).seq hp).mono
    rintro xs b ⟨_, _, _, c, rfl, ⟨t, -, rfl⟩, hc, rfl⟩
    exact hc
  apply ((hp.map _).seq (forall_many hnext)).mono
  rintro xs ps ⟨_, _, _, rest, rfl, ⟨a, ha, rfl⟩, hrest, rfl⟩
  exact forall_padded ha hrest

theorem forall_delimited {P : α → Prop} {p : Parser α} {bound : Nat}
    (hp : Reads p fun _ a => P a) :
    Reads (delimited bound leftParenthesis p rightParenthesis)
      fun _ d => ∀ a ∈ d.toList, P a := by
  apply (((reads_leftParenthesis.map _).seq (forall_optional (forall_separated hp))).seq
    reads_rightParenthesis).mono
  rintro xs d ⟨_, _, _, u, rfl, ⟨_, _, _, o, rfl, ⟨t, -, rfl⟩, ho, rfl⟩, -, rfl⟩
  intro a ha
  obtain ⟨q, hq, rfl⟩ := List.mem_map.mp ha
  cases o with
  | none => cases hq
  | some ps => exact ho ps rfl q hq

/-! ## The recursive rules -/

/-- The recursive rules make arranged nodes. -/
structure Rules.Arranging (r : Rules) : Prop where
  sound : r.Sound
  unary : Reads r.unary fun _ e => e.Fits 11
  expression : Reads r.expression fun _ e => e.Fits 0
  classBody : Reads r.classBody fun _ b => (Node.classBody b).AllArranged
  statement : Reads r.statement fun _ s => (Node.statement s).AllArranged
  blockStatement : Reads r.blockStatement fun _ s => (Node.statement s).AllArranged

/-! ## Primary expressions -/

theorem arranging_arguments (hr : r.Arranging) :
    Reads (arguments r) fun _ d => ∀ e ∈ d.toList, (Node.expression e).AllArranged :=
  (forall_delimited (hr.expression.mono fun _ _ h => h.all)).named .arguments

theorem fits_of_children {e : Expression} (hlevel : e.level = 12) (hranked : e.Ranked)
    (hspelled : e.Spelled) (hc : ∀ k ∈ e.children, k.AllArranged) : e.Fits 12 :=
  ⟨Node.all_iff.mpr ⟨⟨hranked, hspelled⟩, hc⟩, Nat.le_of_eq hlevel.symm⟩

theorem arranging_newClass (hr : r.Arranging) : Reads (newClass r) fun _ e => e.Fits 12 := by
  apply ((((reads_keyword.map _).seq hr.sound.type).seq (arranging_arguments hr)).seq
    (forall_optional hr.classBody) |>.named .newClass).mono
  rintro xs e ⟨_, _, _, body, rfl, ⟨_, _, _, d, rfl, ⟨_, _, _, type, rfl, ⟨lead, -, rfl⟩, -, rfl⟩,
    hd, rfl⟩, hbody, rfl⟩
  refine fits_of_children rfl trivial trivial fun k hk => ?_
  simp only [Expression.children, List.mem_append, List.mem_cons, List.mem_map, Option.mem_toList,
    Option.map_eq_some_iff] at hk
  rcases hk with (rfl | ⟨a, ha, rfl⟩) | ⟨b, hb, rfl⟩
  · exact allArranged_typeTree type
  · exact hd a ha
  · exact hbody b hb

theorem arranging_methodCall (hr : r.Arranging) : Reads (methodCall r) fun _ e => e.Fits 12 := by
  apply (((reads_identifier.map _).seq (arranging_arguments hr)).named .methodCall).mono
  rintro xs e ⟨_, _, _, d, rfl, ⟨i, -, rfl⟩, hd, rfl⟩
  refine fits_of_children rfl trivial trivial ?_
  simpa [Expression.children, Expression.ofCall] using hd

theorem arranging_parenthesized (hr : r.Arranging) :
    Reads (parenthesized r) fun _ e => e.Fits 12 := by
  apply ((((reads_leftParenthesis.map _).seq hr.expression).seq reads_rightParenthesis).named
    .parenthesized).mono
  rintro xs e ⟨_, _, _, u, rfl, ⟨_, _, _, inner, rfl, ⟨t, -, rfl⟩, hinner, rfl⟩, -, rfl⟩
  refine fits_of_children rfl trivial trivial ?_
  simpa [Expression.children] using hinner.all

theorem arranging_primary (hr : r.Arranging) : Reads (primary r) fun _ e => e.Fits 12 := by
  have hliteral : Reads (Expression.literal <$> literal) fun _ e => e.Fits 12 := by
    apply (reads_literal.map _).mono
    rintro xs e ⟨l, -, rfl⟩
    exact fits_of_children rfl trivial trivial (by simp [Expression.children])
  have hself : Reads thisExpression fun _ e => e.Fits 12 := by
    apply (reads_keyword.map _).mono
    rintro xs e ⟨t, -, rfl⟩
    exact fits_of_children rfl trivial trivial (by simp [Expression.children])
  have hidentifier : Reads (Expression.identifier <$> identifier) fun _ e => e.Fits 12 := by
    apply (reads_identifier.map _).mono
    rintro xs e ⟨i, -, rfl⟩
    exact fits_of_children rfl trivial trivial (by simp [Expression.children])
  exact hliteral.orElse <| hself.orElse <| (arranging_newClass hr).orElse <|
    (arranging_methodCall hr).orElse <| hidentifier.orElse (arranging_parenthesized hr)

/-! ## Operators -/

theorem arranging_selector (hr : r.Arranging) :
    Reads (selector r) fun _ s => ∀ e : Expression, e.Fits 12 → (e.select s).Fits 12 := by
  have hdot : Reads dot (IsMark '.') := reads_delimiter rfl
  have hcall := (((hdot.map Expression.Selector.mk).seq reads_identifier).seq
    ((arranging_arguments hr).map some)).named .methodSelector
  have hfield := ((hdot.map (Expression.Selector.mk · · none)).seq reads_identifier).named
    .fieldSelector
  refine Reads.orElse (hcall.mono ?_) (hfield.mono ?_)
  · rintro xs s ⟨_, _, _, _, rfl, ⟨_, _, _, i, rfl, ⟨t, -, rfl⟩, -, rfl⟩, ⟨d, hd, rfl⟩, rfl⟩ e he
    refine fits_of_children rfl he.bare.level_le trivial ?_
    simpa [Expression.children, Expression.select] using ⟨he.bare.all, hd⟩
  · rintro xs s ⟨_, _, _, i, rfl, ⟨t, -, rfl⟩, -, rfl⟩ e he
    refine fits_of_children rfl he.bare.level_le trivial ?_
    simpa [Expression.children, Expression.select] using he.bare.all

theorem arranging_postfixExpression (hr : r.Arranging) :
    Reads (postfixExpression r) fun _ e => e.Fits 12 := by
  apply ((((arranging_primary hr).map _).seq (forall_many (arranging_selector hr))).named
    .postfixExpression).mono
  rintro xs e ⟨_, _, _, ss, rfl, ⟨first, hfirst, rfl⟩, hss, rfl⟩
  induction ss generalizing first with
  | nil => exact hfirst
  | cons s ss ih =>
    exact ih (first.select s) (hss s List.mem_cons_self first hfirst) fun t ht =>
      hss t (List.mem_cons_of_mem s ht)

theorem arranging_unaryExpression (hr : r.Arranging) :
    Reads (unaryExpression r) fun _ e => e.Fits 11 := by
  refine (Reads.orElse ?_ ?_).named .unaryExpression
  · apply ((reads_prefixOperator.map _).seq hr.unary).mono
    rintro xs e ⟨_, _, _, operand, rfl, ⟨⟨t, o⟩, -, rfl⟩, hoperand, rfl⟩
    refine ⟨Node.all_iff.mpr ⟨⟨hoperand.level_le, trivial⟩, ?_⟩, Nat.le_refl _⟩
    simpa [Node.children, Expression.children] using hoperand.all
  · apply (((arranging_postfixExpression hr).map _).seq reads_postfixOperator.optional).mono
    rintro xs e ⟨_, _, _, o, rfl, ⟨operand, hoperand, rfl⟩, -, rfl⟩
    cases o with
    | none => exact hoperand.weaken (by decide)
    | some o =>
      refine ⟨Node.all_iff.mpr ⟨⟨hoperand.bare.level_le, trivial⟩, ?_⟩, Nat.le_refl _⟩
      simpa [Node.children, Expression.children, Expression.ofPostfixed] using hoperand.bare.all

/-! ## Chains -/

/-- Characters that neither a gap nor a word nor a literal can start with. -/
def isOperatorMark (c : Char) : Bool :=
  !Lex.isSpace c && c != '/' && !Lex.isWordPart c && c != '"' && c != '\''

theorem isOperatorMark_of_mem_stop {o : BinaryOperator} {c : Char} (h : c ∈ o.stop) :
    isOperatorMark c = true := by
  have hall : o.stop.all isOperatorMark = true := by cases o <;> decide
  exact List.all_eq_true.mp hall c h

theorem first_of_isGap {c : Char} {cs : List Char} (h : Lex.IsGap false (c :: cs)) :
    isOperatorMark c = false := by
  cases h with
  | space hc _ => simp [isOperatorMark, hc]
  | _ => rfl

theorem first_of_isWordPart {c : Char} (h : Lex.isWordPart c = true) :
    isOperatorMark c = false := by
  simp [isOperatorMark, h]

/-- The first character of a token that is no mark. -/
theorem first_of_legal {k : Token} (hk : k.Legal) (hmark : ∀ c, k ≠ .mark c) (hf : k ≠ .finish) :
    ∃ c cs, k.toList = c :: cs ∧ isOperatorMark c = false := by
  cases k with
  | word w =>
    obtain ⟨c, cs, heq, hc, -⟩ := hk
    exact ⟨c, cs, heq, first_of_isWordPart (isWordPart_of_isWordStart hc)⟩
  | literal kind w =>
    obtain ⟨c, cs, heq, hc⟩ := Token.IsLiteralText.first hk
    refine ⟨c, cs, heq, ?_⟩
    rcases hc with hc | rfl | rfl
    · exact first_of_isWordPart (Lex.isWordPart_of_isDigit hc)
    · rfl
    · rfl
  | mark c => exact absurd rfl (hmark c)
  | finish => exact absurd rfl hf

/-- A token behind an operator starts with no mark that would stop the operator, if the operator
does not go on with it. -/
theorem ends_of_not_continues {o : BinaryOperator} {l : Lexeme} {ls : List Lexeme} (hl : l.Legal)
    (hfinish : l.token ≠ .finish) (h : continues o.stop (l :: ls) = false) : o.Ends l.toList := by
  have hends : ∀ {c : Char} {cs : List Char}, l.toList = c :: cs → isOperatorMark c = false →
      o.Ends l.toList := by
    intro c cs heq hc
    refine ⟨c, cs, heq, fun hmem => ?_⟩
    rw [isOperatorMark_of_mem_stop hmem] at hc
    cases hc
  obtain ⟨t, k⟩ := l
  cases ht : t.toList with
  | cons c cs =>
    have hgap := hl.gap hfinish
    rw [ht] at hgap
    exact hends (by rw [Lexeme.toList, ht]; rfl) (first_of_isGap hgap)
  | nil =>
    have hlist : Lexeme.toList ⟨t, k⟩ = k.toList := by rw [Lexeme.toList, ht]; rfl
    have hempty : t.isEmpty = true := String.isEmpty_iff.mpr (String.toList_eq_nil_iff.mp ht)
    by_cases hmark : ∃ c, k = .mark c
    · obtain ⟨c, rfl⟩ := hmark
      refine ⟨c, [], hlist, fun hmem => ?_⟩
      have := List.any_eq_false.mp h c hmem
      simp [startsTight, hempty] at this
    · obtain ⟨c, cs, heq, hc⟩ := first_of_legal hl.token (fun c hc => hmark ⟨c, hc⟩) hfinish
      exact hends (hlist.trans heq) hc

/-- An operator is not read where a mark makes another operator of it. -/
theorem not_continues_of_acceptSymbol {w : String} {stop : List Char} {ls : List Lexeme}
    {t : Trivia} {count : Nat} (h : acceptSymbol w stop ls = some (t, count)) :
    continues stop (ls.drop count) = false := by
  unfold acceptSymbol at h
  split at h
  · rename_i lead d rest
    split at h
    · cases h
    · rename_i c cs hw
      split at h
      · rename_i hc
        cases h
        simp only [Bool.and_eq_true, Bool.not_eq_true'] at hc
        simpa using hc.2
      · cases h
  · cases h

theorem not_continues_of_binaryOperator {ls middle : List Lexeme} {a : Trivia × BinaryOperator}
    (h : binaryOperator.parse ls = some (a, middle)) : continues a.2.stop middle = false := by
  have hall : ∀ e ∈ binaryOperators, e.2 = e.1.stop := fun _ he => BinaryOperator.stop_of_mem he
  unfold binaryOperator at h
  generalize binaryOperators = table at h hall
  induction table with
  | nil => cases h
  | cons e es ih =>
    rcases parse_orElse_eq_some.mp h with h | ⟨-, h⟩
    · obtain ⟨t, ht, rfl⟩ := parse_map_eq_some.mp h
      obtain ⟨⟨u, count⟩, hu, heq⟩ := Option.map_eq_some_iff.mp ht
      cases heq
      rw [← hall e List.mem_cons_self]
      exact not_continues_of_acceptSymbol hu
    · exact ih h fun f hf => hall f (List.mem_cons_of_mem e hf)

/-- Each further operand of a chain is arranged, and its operator is whole. -/
theorem arranging_chain (hr : r.Arranging) :
    Reads (chain r) fun _ rest => ∀ a ∈ rest, a.2.Fits 11 ∧ a.1.2.Ends (text a.2.steps) := by
  refine forall_many fun ls a rest hls h => ?_
  obtain ⟨f, e, middle, hf, he, rfl⟩ := parse_seq_eq_some.mp h
  obtain ⟨o, ho, rfl⟩ := parse_map_eq_some.mp hf
  obtain ⟨xs, rfl, -⟩ := reads_binaryOperator ls o middle hls ho
  obtain ⟨ys, rfl, hread, hfits⟩ := ((reads_unaryExpression hr.sound).and
    (arranging_unaryExpression hr)) middle e rest hls.right he
  refine ⟨xs ++ ys, by simp, hfits, ?_⟩
  obtain ⟨l, ys, rfl, -⟩ := hread.opens
  have hends := ends_of_not_continues hls.right.head hread.phrase.ne_finish
    (not_continues_of_binaryOperator ho)
  have htext : Lexeme.textOf (l :: ys) = text e.steps := hread.text
  rw [← htext, Lexeme.textOf_cons]
  exact hends.append _

/-! ## All expressions -/

theorem arranging_branches (hr : r.Arranging) :
    Reads (branches r) fun _ f => ∀ e : Expression, e.Fits 1 → (f e).Fits 0 := by
  have hcolon : Reads colon (IsMark ':') := reads_delimiter rfl
  apply ((((reads_question.map _).seq hr.expression).seq hcolon).seq hr.expression).mono
  rintro xs f ⟨_, _, _, elsePart, rfl, ⟨_, _, _, u, rfl, ⟨_, _, _, thenPart, rfl, ⟨t, -, rfl⟩,
    hthen, rfl⟩, -, rfl⟩, helse, rfl⟩ e he
  refine ⟨Node.all_iff.mpr ⟨⟨he.bare.level_le, trivial⟩, ?_⟩, Nat.zero_le _⟩
  simpa [Node.children, Expression.children, Expression.ofConditional] using
    ⟨he.bare.all, hthen.all, helse.all⟩

theorem arranging_assigned (hr : r.Arranging) :
    Reads (assigned r) fun _ f => ∀ e : Expression, e.Fits 11 → (f e).Fits 0 := by
  apply (((reads_assignmentOperator.map _).seq hr.expression).around .assignment).mono
  rintro xs f ⟨_, _, _, value, rfl, ⟨⟨t, o⟩, -, rfl⟩, hvalue, rfl⟩ e he
  refine ⟨Node.all_iff.mpr ⟨⟨he.bare.level_le, trivial⟩, ?_⟩, Nat.zero_le _⟩
  simpa [Node.children, Expression.children, Expression.ofAssignment] using
    ⟨he.bare.all, hvalue.all⟩

theorem arranging_computed (hr : r.Arranging) :
    Reads (computed r) fun _ f => ∀ e : Expression, e.Fits 11 → (f e).Fits 0 := by
  apply ((((arranging_chain hr).map _).seq (forall_optional (arranging_branches hr))).around
    .conditionalExpression).mono
  rintro xs f ⟨_, _, _, o, rfl, ⟨rest, hrest, rfl⟩, ho, rfl⟩ e he
  have hchain := Expression.fits_ofChain (he.weaken (by decide)) hrest
  cases o with
  | none => exact hchain.weaken (Nat.zero_le _)
  | some f => exact ho f rfl _ hchain

theorem arranging_expression (hr : r.Arranging) : Reads (expression r) fun _ e => e.Fits 0 := by
  apply ((((arranging_unaryExpression hr).map _).seq
    ((arranging_assigned hr).orElse (arranging_computed hr))).summary .expression).mono
  rintro xs e ⟨_, _, _, finish, rfl, ⟨first, hfirst, rfl⟩, hfinish, rfl⟩
  exact hfinish first hfirst

end Grammar

end LosslessJava
