import LosslessJava.Proofs.Grammar.Reading.Expression
import LosslessJava.Proofs.Tree.Part

/-!
# Precedence in trees

The shape of an expression says which operator binds tighter than which. A chain of operators that
is arranged by `Expression.attach` has the precedence of its operators, because an operator only
goes below operators that bind less tightly and above those that do not.

* `Expression.level`: how tightly the root of an expression holds its operands together.
* `Expression.Ranked`: each operand holds together tightly enough for its place.
* `Expression.Spelled`: what follows an operator does not make a longer operator of it.
* `Expression.all_arranged_attach`: one more operator and operand keep both.
* `Expression.chain`: the operands and operators of a tree of binary operators in their order.
  `text_chain` says that they make up its text.
-/

namespace LosslessJava

open Step

/-! ## Operators -/

namespace BinaryOperator

/-- The marks that would make another operator of this one. -/
def stop (o : BinaryOperator) : List Char := (Grammar.binaryOperators.lookup o).getD []

theorem stop_of_mem {o : BinaryOperator} {stop : List Char}
    (h : (o, stop) ∈ Grammar.binaryOperators) : stop = o.stop := by
  have hall : ∀ e ∈ Grammar.binaryOperators, e.2 = e.1.stop := by decide
  exact hall _ h

theorem precedence_le (o : BinaryOperator) : o.precedence ≤ 10 := by
  cases o <;> decide

theorem precedence_pos (o : BinaryOperator) : 0 < o.precedence := by
  cases o <;> decide

/-- The operator ends in front of the text. -/
def Ends (o : BinaryOperator) (cs : List Char) : Prop := ∃ c ds, cs = c :: ds ∧ c ∉ o.stop

theorem Ends.append {o : BinaryOperator} {cs : List Char} (h : o.Ends cs) (ds : List Char) :
    o.Ends (cs ++ ds) := by
  obtain ⟨c, es, rfl, hc⟩ := h
  exact ⟨c, es ++ ds, rfl, hc⟩

theorem Ends.left {o : BinaryOperator} {cs ds : List Char} (h : o.Ends (cs ++ ds))
    (hne : cs ≠ []) : o.Ends cs := by
  obtain ⟨c, es, heq, hc⟩ := h
  cases cs with
  | nil => exact absurd rfl hne
  | cons d cs =>
    obtain ⟨rfl, -⟩ := List.cons.inj heq
    exact ⟨d, cs, rfl, hc⟩

end BinaryOperator

/-- The text is an operator of any kind. -/
inductive IsOperatorText : String → Prop
  | binary (o : BinaryOperator) : IsOperatorText o.symbol
  | prefixed (o : PrefixOperator) : IsOperatorText o.symbol
  | postfixed (o : PostfixOperator) : IsOperatorText o.symbol
  | assignment (o : AssignmentOperator) : IsOperatorText o.symbol

/-- The texts of all operators. -/
def operatorTexts : List String :=
  Grammar.binaryOperators.map (fun e => e.1.symbol) ++
    Grammar.prefixOperators.map PrefixOperator.symbol ++
    AssignmentOperator.all.map AssignmentOperator.symbol

theorem IsOperatorText.mem {s : String} (h : IsOperatorText s) : s ∈ operatorTexts := by
  cases h with
  | binary o => cases o <;> decide
  | prefixed o => cases o <;> decide
  | postfixed o => cases o <;> decide
  | assignment o => cases o <;> decide

/-- An operator that goes on behind a binary one goes on with a mark that stops the binary one. -/
theorem mem_stop_of_longer {o : BinaryOperator} {s : String} (hs : IsOperatorText s) {c : Char}
    (h : o.symbol.toList ++ [c] <+: s.toList) : c ∈ o.stop := by
  have hall : ∀ s ∈ operatorTexts, o.symbol.toList <+: s.toList →
      (s.toList.drop o.symbol.toList.length).head?.all (· ∈ o.stop) := by
    cases o <;> decide
  obtain ⟨ds, hds⟩ := h
  have hnext := hall s hs.mem ⟨c :: ds, by simpa using hds⟩
  rw [← hds, List.append_assoc, List.drop_left] at hnext
  exact of_decide_eq_true hnext

/-- No operator that the text starts with is longer, whatever comes behind. -/
theorem BinaryOperator.Ends.length_le {o : BinaryOperator} {cs : List Char} (h : o.Ends cs)
    {s : String} (hs : IsOperatorText s) {tail : List Char}
    (hp : s.toList <+: o.symbol.toList ++ cs ++ tail) : s.length ≤ o.symbol.length := by
  obtain ⟨c, ds, rfl, hc⟩ := h
  refine Nat.le_of_not_lt fun hlt => hc (mem_stop_of_longer hs ?_)
  have hlength : (o.symbol.toList ++ [c]).length ≤ s.toList.length := by
    rw [List.length_append, String.length_toList, String.length_toList]
    exact hlt
  exact List.prefix_of_prefix_length_le ⟨ds ++ tail, by simp⟩ hp hlength

/-! ## Levels -/

namespace Expression

/-- How tightly the root of an expression holds its operands together: not at all where it is an
assignment or a conditional, next by the precedence of a binary operator, then by an operator with
one operand. All other expressions are closed. -/
def level : Expression → Nat
  | assignment .. | conditional .. => 0
  | binary _ _ _ operator _ => operator.precedence
  | prefixed .. | postfixed .. => 11
  | _ => 12

def isBinary : Expression → Bool
  | binary .. => true
  | _ => false

theorem level_withLead (t : Trivia) (e : Expression) : (e.withLead t).level = e.level := by
  cases e <;> rfl

theorem isBinary_withLead (t : Trivia) (e : Expression) :
    (e.withLead t).isBinary = e.isBinary := by
  cases e <;> rfl

/-- Between the levels of binary operators there is nothing else. -/
theorem level_of_not_isBinary {e : Expression} (h : e.isBinary = false) (hlevel : 0 < e.level) :
    11 ≤ e.level := by
  cases e with
  | binary lead left operatorLead operator right => cases h
  | assignment lead target operatorLead operator value => cases hlevel
  | conditional lead condition questionLead thenPart colonLead elsePart => cases hlevel
  | _ => simp [level]

/-- Each operand holds together tightly enough for its place. On the left of a binary operator
that is a matter of equal levels too, since operators of one level group to the left. -/
def Ranked : Expression → Prop
  | binary _ left _ operator right =>
    operator.precedence ≤ left.level ∧ operator.precedence < right.level
  | prefixed _ _ operand => 11 ≤ operand.level
  | postfixed _ operand _ _ => 12 ≤ operand.level
  | assignment _ target _ _ _ => 11 ≤ target.level
  | conditional _ condition _ _ _ _ => 0 < condition.level
  | fieldAccess _ target _ _ _ => 12 ≤ target.level
  | invocation _ target _ _ _ _ => 12 ≤ target.level
  | _ => True

/-- What follows a binary operator does not make a longer operator of it. -/
def Spelled : Expression → Prop
  | binary _ _ _ operator right => operator.Ends (text right.steps)
  | _ => True

end Expression

/-- The node is no expression, or it has the precedence of its operators and these are whole. -/
def Node.Arranged : Node → Prop
  | expression e => e.Ranked ∧ e.Spelled
  | _ => True

namespace Expression

theorem arranged_withLead {e : Expression} (h : (Node.expression e).Arranged) (t : Trivia) :
    (Node.expression (e.withLead t)).Arranged := by
  cases e <;> exact h

/-- Another lead changes nothing but the leaves of an expression. -/
theorem all_arranged_withLead {e : Expression} (h : (Node.expression e).All Node.Arranged)
    (t : Trivia) : (Node.expression (e.withLead t)).All Node.Arranged := by
  refine Node.all_iff.mpr ⟨arranged_withLead h.self t, ?_⟩
  have hc := (Node.all_iff.mp h).2
  cases e with
  | literal l =>
    intro k hk
    rw [List.mem_singleton.mp hk]
    exact Node.all_iff.mpr ⟨trivial, by simp [Node.children]⟩
  | identifier i =>
    intro k hk
    rw [List.mem_singleton.mp hk]
    exact Node.all_iff.mpr ⟨trivial, by simp [Node.children]⟩
  | _ => exact hc

/-! ## Arranged expressions -/

/-- The expression and everything in it are arranged, and it holds together at least as tightly as
the level says. -/
structure Fits (level : Nat) (e : Expression) : Prop where
  all : (Node.expression e).All Node.Arranged
  level_le : level ≤ e.level

namespace Fits

variable {e : Expression} {m n : Nat}

theorem weaken (h : Fits m e) (hn : n ≤ m) : Fits n e := ⟨h.all, Nat.le_trans hn h.level_le⟩

theorem withLead (h : Fits m e) (t : Trivia) : Fits m (e.withLead t) :=
  ⟨all_arranged_withLead h.all t, by rw [level_withLead]; exact h.level_le⟩

theorem bare (h : Fits m e) : Fits m e.bare := h.withLead .empty

end Fits

theorem fits_binary {lead operatorLead : Trivia} {left right : Expression}
    {operator : BinaryOperator} (hl : Fits operator.precedence left)
    (hr : Fits (operator.precedence + 1) right) (hends : operator.Ends (text right.steps)) :
    Fits operator.precedence (binary lead left operatorLead operator right) := by
  refine ⟨Node.all_iff.mpr ⟨⟨⟨hl.level_le, hr.level_le⟩, hends⟩, ?_⟩, Nat.le_refl _⟩
  intro k hk
  simp only [Node.children, children, List.mem_cons, List.not_mem_nil, or_false] at hk
  rcases hk with rfl | rfl
  · exact hl.all
  · exact hr.all

/-- A chain stays arranged when an operator and an operand go to its right. It holds together as
tightly as its loosest operator. -/
theorem fits_attach {left right : Expression} {operatorLead : Trivia} {operator : BinaryOperator}
    (hl : Fits 1 left) (hr : Fits 11 right) (hends : operator.Ends (text right.steps)) :
    Fits (min left.level operator.precedence) (left.attach operatorLead operator right) := by
  have hright : Fits (operator.precedence + 1) right :=
    hr.weaken (Nat.succ_le_succ operator.precedence_le)
  fun_induction attach left operatorLead operator right with
  | case1 lead first lastLead last second hlt ih =>
    obtain ⟨⟨hfirst, hsecond⟩, hlast⟩ := hl.all.self
    have hchild := (Node.all_iff.mp hl.all).2
    simp only [Node.children, children, List.mem_cons, List.not_mem_nil, or_false, forall_eq_or_imp,
      forall_eq] at hchild
    have hih := ih ⟨hchild.2, Nat.succ_le_of_lt (Nat.zero_lt_of_lt hsecond)⟩
    have hends' : last.Ends (text (second.attach operatorLead operator right).steps) := by
      rw [text_attach, List.append_assoc]
      exact hlast.append _
    have hle : last.precedence + 1 ≤ min second.level operator.precedence :=
      Nat.le_min.mpr ⟨hsecond, hlt⟩
    exact (fits_binary ⟨hchild.1, hfirst⟩ (hih.weaken hle) hends').weaken (Nat.min_le_left _ _)
  | case2 lead first lastLead last second hlt =>
    have hleft : Fits operator.precedence (binary lead first lastLead last second) :=
      ⟨hl.all, Nat.le_of_not_lt hlt⟩
    exact (fits_binary hleft.bare hright hends).weaken (Nat.min_le_right _ _)
  | case3 left hne =>
    have hbinary : left.isBinary = false := by
      cases left with
      | binary lead left operatorLead operator right => exact absurd rfl (hne _ _ _ _ _)
      | _ => rfl
    have hlevel := level_of_not_isBinary hbinary hl.level_le
    have hleft : Fits operator.precedence left :=
      ⟨hl.all, Nat.le_trans operator.precedence_le (Nat.le_trans (by decide) hlevel)⟩
    exact (fits_binary hleft.bare hright hends).weaken (Nat.min_le_right _ _)

theorem fits_ofChain {first : Expression} {rest : List ((Trivia × BinaryOperator) × Expression)}
    (hfirst : Fits 1 first)
    (hrest : ∀ a ∈ rest, Fits 11 a.2 ∧ a.1.2.Ends (text a.2.steps)) :
    Fits 1 (ofChain first rest) := by
  induction rest generalizing first with
  | nil => exact hfirst
  | cons a rest ih =>
    obtain ⟨ha, hends⟩ := hrest a List.mem_cons_self
    have hattach := @fits_attach first a.2 a.1.1 a.1.2 hfirst ha hends
    have hlevel : 1 ≤ min first.level a.1.2.precedence :=
      Nat.le_min.mpr ⟨hfirst.level_le, a.1.2.precedence_pos⟩
    exact ih (hattach.weaken hlevel) fun b hb => hrest b (List.mem_cons_of_mem a hb)

/-! ## Chains -/

/-- The operands and operators of a tree of binary operators from left to right. The first operand
has the lead of the tree. Other expressions are their only operand. -/
def chain : Expression → Expression × List ((Trivia × BinaryOperator) × Expression)
  | binary lead left operatorLead operator right =>
    (left.chain.1.withLead lead,
      left.chain.2 ++ ((operatorLead, operator), right.chain.1) :: right.chain.2)
  | e => (e, [])

/-- The operands of a chain. -/
def operands (e : Expression) : List Expression := e.chain.1 :: e.chain.2.map Prod.snd

theorem lead_chain (e : Expression) : e.chain.1.lead = e.lead := by
  cases e with
  | binary lead left operatorLead operator right => exact lead_withLead lead _
  | _ => rfl

/-- No operand of a chain is a chain. -/
theorem isBinary_of_mem_operands {e : Expression} : ∀ o ∈ e.operands, o.isBinary = false := by
  unfold operands
  fun_induction chain e with
  | case1 lead left operatorLead operator right ihl ihr =>
    intro o ho
    simp only [List.map_append, List.map_cons, List.mem_cons, List.mem_append] at ho
    rcases ho with rfl | ho | rfl | ho
    · rw [isBinary_withLead]
      exact ihl _ List.mem_cons_self
    · exact ihl o (List.mem_cons_of_mem _ ho)
    · exact ihr _ List.mem_cons_self
    · exact ihr o (List.mem_cons_of_mem _ ho)
  | case2 e hne =>
    intro o ho
    obtain rfl : o = e := List.mem_singleton.mp ho
    cases o with
    | binary lead left operatorLead operator right => exact absurd rfl (hne _ _ _ _ _)
    | _ => rfl

/-- A first operand without a lead takes the lead of its tree. -/
theorem text_withLead {e : Expression} (he : e.lead = .empty) (t : Trivia) :
    text (e.withLead t).steps = t.toList ++ text e.steps := by
  obtain ⟨rest, hsteps, hlead⟩ := e.exists_steps
  rw [hsteps, hlead, he]
  simp [chars]

theorem lead_left {lead operatorLead : Trivia} {left right : Expression} {operator : BinaryOperator}
    (h : (Node.expression (binary lead left operatorLead operator right)).All Node.Tidy) :
    left.lead = .empty := by
  have hshape : Whole lead (.trivia lead :: left.steps ++
      (spaced operatorLead operator.symbol ++ right.steps)) := by
    rw [← List.append_assoc]
    exact h.self.shaped
  obtain ⟨rest, hrest, -⟩ := whole_first hshape (h.child (by simp [Node.children, children]))
  obtain ⟨rest', hrest', -⟩ := left.exists_steps
  rw [hrest'] at hrest
  exact Step.trivia.inj (List.cons.inj hrest).1

/-- The operands and operators of a chain make up its text, and the first operand is a part of it
that has some text. -/
theorem text_chain {e : Expression} (h : (Node.expression e).All Node.Tidy) :
    text e.chain.1.steps ≠ [] ∧ text e.steps = text e.chain.1.steps ++
      e.chain.2.flatMap fun ((t, o), operand) =>
        t.toList ++ o.symbol.toList ++ text operand.steps := by
  fun_induction chain e with
  | case1 lead left operatorLead operator right ihl ihr =>
    obtain ⟨hne, hleft⟩ := ihl (h.child (by simp [Node.children, children]))
    obtain ⟨-, hright⟩ := ihr (h.child (by simp [Node.children, children]))
    have hlead := text_withLead ((lead_chain left).trans (lead_left h)) lead
    constructor
    · rw [hlead]
      exact fun hnil => hne (List.append_eq_nil_iff.mp hnil).2
    · rw [hlead, steps, text_append, text_append, text_cons, text_spaced, hleft, hright]
      simp [chars]
  | case2 e hne =>
    refine ⟨?_, by simp⟩
    obtain ⟨init, s, hs, hcrisp⟩ := closes_steps h
    obtain ⟨c, ds, hc, -⟩ := hcrisp.first
    rw [hs, text_append]
    simp [chars, hc]

/-- The operators of an arranged chain are whole, and only trivia stands in front of them. -/
theorem ends_of_mem_chain {e : Expression} (ht : (Node.expression e).All Node.Tidy)
    (ha : (Node.expression e).All Node.Arranged) :
    ∀ a ∈ e.chain.2, Lex.IsGap false a.1.1.toList ∧ a.1.2.Ends (text a.2.steps) := by
  fun_induction chain e with
  | case1 lead left operatorLead operator right ihl ihr =>
    have hleft : Node.expression left ∈
        (Node.expression (binary lead left operatorLead operator right)).children := by
      simp [Node.children, children]
    have hright : Node.expression right ∈
        (Node.expression (binary lead left operatorLead operator right)).children := by
      simp [Node.children, children]
    intro a hmem
    rcases List.mem_append.mp hmem with hmem | hmem
    · exact ihl (ht.child hleft) (ha.child hleft) a hmem
    · rcases List.mem_cons.mp hmem with rfl | hmem
      · obtain ⟨hne, htext⟩ := text_chain (ht.child hright)
        have hends : operator.Ends (text right.steps) := ha.self.2
        rw [htext] at hends
        exact ⟨ht.self.gaps _ (by simp [Node.trivia, trivia]), hends.left hne⟩
      · exact ihr (ht.child hright) (ha.child hright) a hmem
  | case2 e hne =>
    intro a hmem
    cases hmem

end Expression

end LosslessJava
