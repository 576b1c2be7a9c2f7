import LosslessJava.Proofs.Grammar.Build.Operand
import LosslessJava.Proofs.Tree.Precedence

/-!
# Building of chains

A climb over the operators of a chain takes those that bind tighter than a given power, and arranges
them as `Expression.ofChain` does, which goes through them one by one. In either order the operands
are built from left to right, and the trivia around an operator are what the offsets of the operands
leave out.

* `Locates`: what is known of an expression that is built with its offsets.
* `climbs_climb`: what a climb takes and makes, and where it stops.
* `flatChain`: a chain with its first operand, and `matches_flatChain`.
-/

namespace LosslessJava

namespace Expression

/-- An operator that binds less tightly than what is attached later stays at the root. -/
theorem ofChain_ofBinary {rest : List ((Trivia × BinaryOperator) × Expression)} {left : Expression}
    {operatorLead : Trivia} {operator : BinaryOperator} {right : Expression}
    (h : ∀ o ∈ rest, operator.precedence < o.1.2.precedence) :
    (left.ofBinary operatorLead operator right).ofChain rest =
      left.ofBinary operatorLead operator (right.ofChain rest) := by
  induction rest generalizing right with
  | nil => rfl
  | cons o rest ih =>
    obtain ⟨ho, hrest⟩ := List.forall_mem_cons.mp h
    have hattach : (left.ofBinary operatorLead operator right).attach o.1.1 o.1.2 o.2 =
        left.ofBinary operatorLead operator (right.attach o.1.1 o.1.2 o.2) := if_pos ho
    have hstep : ∀ e : Expression, e.ofChain (o :: rest) =
        (e.attach o.1.1 o.1.2 o.2).ofChain rest := fun _ => rfl
    rw [hstep, hstep, hattach, ih hrest]

/-- Where the next operator of a chain binds no tighter than the root, it goes above it. -/
def Precedes (left : Expression) (rest : List ((Trivia × BinaryOperator) × Expression)) : Prop :=
  ∀ o ∈ rest.head?, left.isBinary = true → o.1.2.precedence ≤ left.level

theorem Precedes.attach {left : Expression} {operatorLead : Trivia} {operator : BinaryOperator}
    {right : Expression} {rest : List ((Trivia × BinaryOperator) × Expression)}
    (h : left.Precedes (((operatorLead, operator), right) :: rest)) :
    left.attach operatorLead operator right = left.ofBinary operatorLead operator right := by
  cases left with
  | binary lead first lastLead last second =>
    have hle : operator.precedence ≤ last.precedence := h _ rfl rfl
    exact if_neg (by omega)
  | _ => rfl

end Expression

namespace Grammar

open LosslessJava.Grammar.Parser
open Build Building

variable {source : List Char} {r : Rules} {b : Builders}

/-! ## What is located -/

/-- The expression is built without its lead, with the end of its lexemes and an offset in front of
which its lead stands. -/
def Locates (source : List Char) (offset : Nat) (xs : List Lexeme) (e : Expression)
    (x : Built Located) : Prop :=
  ∃ start, x = verdict offset xs ⟨e.bare, start, after offset xs⟩ ∧
    gap source offset start = e.lead

theorem Locates.join {offset : Nat} {xs us vs : List Lexeme} {left right : Expression}
    {x y : Built Located} {pair : Pair} {a : Trivia × BinaryOperator}
    (hx : Locates source offset xs left x) (ho : IsOperator source (after offset xs) us [pair] a)
    (hy : Locates source (after (after offset xs) us) vs right y) :
    Locates source offset (xs ++ (us ++ vs)) (left.ofBinary a.1 a.2 right)
      (join source x a.2 pair y) := by
  obtain ⟨start, rfl, hstart⟩ := hx
  obtain ⟨start', rfl, hstart'⟩ := hy
  obtain ⟨_, hpair, -, hstop, hlead, hvalid⟩ := ho
  obtain rfl := List.head_eq_of_cons_eq hpair
  have hright : right.bare.withLead right.lead = right := by
    rw [Expression.bare, Expression.withLead_withLead, Expression.withLead_lead]
  refine ⟨start, verdict_bind ?_, hstart⟩
  refine (verdict_then ?_).trans (verdict_append hvalid vs _).symm
  simp only [hstop, hstart', hlead, hright, after_append]
  rfl

theorem Locates.operand {offset : Nat} {xs : List Lexeme} {pair : Pair} {e : Expression}
    (hspans : Spans source offset xs pair)
    (h : Build.unaryExpression source b pair = verdict offset xs e.bare ∧ e.lead = leadOf xs) :
    Locates source offset xs e (operand source b pair) := by
  refine ⟨pair.start, ?_, hspans.gap.trans h.2.symm⟩
  rw [Build.operand, h.1, verdict_map, hspans.stop]

/-! ## Climbs -/

/-- An operator and its operand, with their pairs. -/
abbrev ChainItem (source : List Char) (b : Builders) :
    Relation ((Trivia × BinaryOperator) × Expression) :=
  Both (Image Prod.mk (IsOperator source)) fun offset xs ps e =>
    Bare source [.unaryExpression] (Build.unaryExpression source b) offset xs ps e ∧
      e.isBinary = false

theorem climb_cons {bound power : Nat} {x : Built Located} {pair first : Pair} {ps : List Pair}
    {operator : BinaryOperator} (h : operatorOf pair = some operator) :
    climb source b (bound + 1) power x (pair :: first :: ps) =
      if power < operator.precedence then
        climb source b bound power (join source x operator pair
          (climb source b bound operator.precedence (operand source b first) ps).1)
          (climb source b bound operator.precedence (operand source b first) ps).2
      else (x, pair :: first :: ps) := by
  simp only [climb, h]

/-- What a climb has made of the operands up to some place, and what it has left behind it: an
operator that binds no tighter than the power, or nothing. -/
def Climbs (source : List Char) (b : Builders) (power offset : Nat) (xs ys : List Lexeme)
    (left : Expression) (rest : List ((Trivia × BinaryOperator) × Expression))
    (r : Built Located × List Pair) : Prop :=
  ∃ zs ys' taken rest', ys = zs ++ ys' ∧ rest = taken ++ rest' ∧
    Locates source offset (xs ++ zs) (left.ofChain taken) r.1 ∧
    Several (ChainItem source b) (after offset (xs ++ zs)) ys' r.2 rest' ∧
    (∀ o ∈ taken, power < o.1.2.precedence) ∧ ∀ o ∈ rest'.head?, o.1.2.precedence ≤ power

theorem Climbs.stop {power offset : Nat} {xs ys : List Lexeme} {left : Expression}
    {rest : List ((Trivia × BinaryOperator) × Expression)} {x : Built Located} {ps : List Pair}
    (hx : Locates source offset xs left x)
    (hrest : Several (ChainItem source b) (after offset xs) ys ps rest)
    (hpower : ∀ o ∈ rest.head?, o.1.2.precedence ≤ power) :
    Climbs source b power offset xs ys left rest (x, ps) := by
  refine ⟨[], ys, [], rest, rfl, rfl, ?_, ?_, by simp, hpower⟩ <;> rw [List.append_nil]
  · exact hx
  · exact hrest

/-- A climb takes the operators that bind tighter than the power. -/
theorem climbs_climb (bound : Nat) : ∀ (power : Nat) {offset : Nat} {xs ys : List Lexeme}
    {left : Expression} {x : Built Located} {ps : List Pair}
    {rest : List ((Trivia × BinaryOperator) × Expression)},
    rest.length ≤ bound → Locates source offset xs left x →
    Several (ChainItem source b) (after offset xs) ys ps rest → left.Precedes rest →
    Climbs source b power offset xs ys left rest (climb source b bound power x ps) := by
  induction bound with
  | zero =>
    intro power offset xs ys left x ps rest hbound hx hrest _
    obtain rfl := List.eq_nil_of_length_eq_zero (Nat.le_zero.mp hbound)
    exact .stop hx hrest (by simp)
  | succ bound ih =>
    intro power offset xs ys left x ps rest hbound hx hrest hleft
    have hall := hrest
    cases hrest with
    | nil => exact .stop hx .nil (by simp)
    | @cons _ us ys ps' ps item rest hitem hrest =>
      obtain ⟨os, vs, _, _, _, e, rfl, rfl, ⟨a, ⟨op, rfl, hop, hplace⟩, rfl⟩,
        ⟨⟨first, rfl, hrule, hspans, hbuild⟩, hbinary⟩, rfl⟩ := hitem
      simp only [List.cons_append, List.nil_append, List.length_cons] at hall hbound ⊢
      rw [climb_cons hop]
      by_cases hpower : power < a.2.precedence
      · rw [if_pos hpower]
        -- the operators that bind tighter than this one go into its right operand
        have hfirst := Locates.operand hspans hbuild
        rw [after_append] at hrest
        obtain ⟨zs, ys, taken, rest, rfl, rfl, hright, hrest, htaken, hhead⟩ :=
          ih a.2.precedence (by omega) hfirst hrest fun _ _ hroot => by simp [hbinary] at hroot
        have hjoin := hx.join ⟨op, rfl, hop, hplace⟩ hright
        rw [← after_append, ← after_append] at hrest
        -- and the root is now this one, which what is left does not bind tighter than
        obtain ⟨zs', ys, taken', rest, rfl, rfl, hleft', hrest, htaken', hhead'⟩ :=
          ih power (by simp at hbound; omega) hjoin hrest fun o ho _ => hhead o ho
        have hchain : left.ofChain ((a, e) :: (taken ++ taken')) =
            (left.ofBinary a.1 a.2 (e.ofChain taken)).ofChain taken' := by
          have happend : left.ofChain ((a, e) :: (taken ++ taken')) =
              ((left.attach a.1 a.2 e).ofChain taken).ofChain taken' := List.foldl_append
          rw [happend, hleft.attach, Expression.ofChain_ofBinary htaken]
        refine ⟨os ++ vs ++ zs ++ zs', ys, (a, e) :: (taken ++ taken'), rest, by simp, by simp,
          ?_, ?_, ?_, hhead'⟩
        · rw [hchain]
          simpa only [List.append_assoc] using hleft'
        · simpa only [List.append_assoc] using hrest
        · rw [List.forall_mem_cons, List.forall_mem_append]
          exact ⟨hpower, fun o ho => Nat.lt_trans hpower (htaken o ho), htaken'⟩
      · rw [if_neg hpower]
        exact .stop hx hall (by simpa using hpower)

/-! ## The rule -/

/-- An operand is never a chain. -/
theorem yields_unaryExpression : Yields (unaryExpression r) fun e => e.isBinary = false := by
  have hprimary : Yields (primary r) fun e => e.isBinary = false := by
    refine .orElse (.map fun _ => rfl) <| .orElse (.map fun _ => rfl) <| .orElse ?_ <| .orElse ?_ <|
      .orElse (.map fun _ => rfl) ?_
    · exact .seq <| .seq <| .seq <| .map fun _ _ _ _ => rfl
    · exact .seq <| .map fun _ _ => rfl
    · exact .seq <| .seq <| .map fun _ _ _ => rfl
  have hselect : ∀ (ss : List Expression.Selector) (e : Expression), e.isBinary = false →
      (ss.foldl Expression.select e).isBinary = false := by
    intro ss
    induction ss with
    | nil => exact fun _ h => h
    | cons s ss ih =>
      intro e _
      refine ih _ ?_
      rw [Expression.select]
      split <;> rfl
  have hpostfix : Yields (postfixExpression r) fun e => e.isBinary = false := by
    intro ls e m hp
    obtain ⟨f, ss, middle, hf, -, rfl⟩ := parse_seq_eq_some.mp hp
    obtain ⟨e, he, rfl⟩ := parse_map_eq_some.mp hf
    exact hselect ss e (hprimary ls e middle he)
  refine .orElse (.seq <| .map fun _ _ => rfl) fun ls e m hp => ?_
  obtain ⟨f, o, middle, hf, -, rfl⟩ := parse_seq_eq_some.mp hp
  obtain ⟨e, he, rfl⟩ := parse_map_eq_some.mp hf
  cases o with
  | none => exact hpostfix ls e middle he
  | some o => rfl

theorem Several.length_le {ps : List Pair} {offset : Nat} {ys : List Lexeme}
    {rest : List ((Trivia × BinaryOperator) × Expression)}
    (h : Several (ChainItem source b) offset ys ps rest) : rest.length ≤ ps.length := by
  induction h with
  | nil => exact Nat.le_refl 0
  | cons hitem _ ih =>
    obtain ⟨_, _, _, _, _, _, rfl, rfl, ⟨_, ⟨_, rfl, -⟩, -⟩, -⟩ := hitem
    simp only [List.cons_append, List.nil_append, List.length_cons, List.length_append]
    omega

/-- A chain of operands, from its first operand on. -/
def flatChain (r : Rules) : Parser Expression :=
  named .binaryExpression <|
    Expression.ofChain <$> unaryExpression r <*>
      many r.bound (Prod.mk <$> Grammar.binaryOperator <*> unaryExpression r)

theorem passesLead_flatChain (r : Rules) : PassesLead SameExpression (flatChain r) := by
  refine .seq <| .map <| (passesLead_unaryExpression r).mono fun t e e' heq rest => ?_
  rw [heq, Expression.ofChain_withLead]

theorem matches_flatChain (h : BuiltBy source r b) :
    Matches source (flatChain r) (Bare source [.binaryExpression] (Build.binary source b)) := by
  have hoperand := (matches_unaryExpression h).yields yields_unaryExpression
  have hparts := (hoperand.map Expression.ofChain).seq
    (((matches_binaryOperator.map Prod.mk).seq hoperand).many r.bound)
  have hne : ∀ offset xs ps e, Both (Image Expression.ofChain fun offset xs ps e =>
      Bare source [.unaryExpression] (Build.unaryExpression source b) offset xs ps e ∧
        e.isBinary = false) (Several (ChainItem source b)) offset xs ps e → ps ≠ [] := by
    rintro offset _ _ e ⟨_, _, _, _, _, _, rfl, rfl, ⟨_, ⟨⟨_, rfl, -⟩, -⟩, -⟩, -⟩ hnil
    cases hnil
  have hpair := hparts.named hne (hparts.behind hne) (passesLead_flatChain r) .binaryExpression
  refine hpair.mono_single ?_
  rintro offset _ ⟨rule, start, stop, inner⟩ _ - hspans ⟨l, ys, _, rfl,
    ⟨xs, zs, _, ps, _, rest, hxs, rfl,
      ⟨e, ⟨⟨first, rfl, hrule, hfirst, hbuild⟩, hbinary⟩, rfl⟩, hrest, rfl⟩, rfl⟩
  simp only at hxs hrest hfirst hbuild
  have hclimb := climbs_climb ps.length 0 (Several.length_le hrest) (.operand hfirst hbuild) hrest
    fun _ _ hroot => by simp [hbinary] at hroot
  obtain ⟨zs, _, taken, rest, rfl, rfl, ⟨start', hlocated, -⟩, hrest, -, hhead⟩ := hclimb
  -- all operators bind tighter than nothing at all, so none is left
  cases rest with
  | cons o rest => exact absurd (hhead o rfl) (Nat.not_le.mpr o.1.2.precedence_pos)
  | nil =>
    generalize (climb source b ps.length 0 (operand source b first) ps).2 = rest at hrest
    cases hrest
    rw [List.append_nil] at hxs ⊢
    have hbinary : Build.binary source b ⟨rule, start, stop, [first] ++ ps⟩ =
        Located.expression <$> (climb source b ps.length 0 (operand source b first) ps).1 := rfl
    have hstart : start = offset + byteLength l.lead.toList := hspans.start
    refine ⟨?_, Expression.lead_withLead _ _⟩
    rw [hbinary, hlocated, ← hxs, verdict_map, hstart, verdict_bare, Expression.bare_withLead]

end Grammar

end LosslessJava
