import LosslessJava.Indentation.Discovery

/-!
# Depths of lines

How deep a line is indented is a matter of the lines around it. Here every node of a tree is taken
with all the nodes around it, and its depth is counted from the nearest one that starts a line.

* `Statement.depths`, `CompilationUnit.depths`: the depths in a list of statements and in a unit,
  each as often as it occurs.
* `IsDominant`: the most frequent number of a list, the smallest of several.
* `IndentedLine.isDominant_of_mostCommon`: the search for it finds nothing else.
* `Statement.listLines_eq`, `CompilationUnit.lines_eq`: the lines that discovery collects are those
  of the nodes, in order.
* `Statement.filterMap_listLines_eq`, `CompilationUnit.filterMap_lines`: they have these depths.
-/

namespace LosslessJava

/-! ## Depths -/

/-- The width of the nearest line, among the leads of the nodes around a place with the innermost
node first. -/
def nearestWidth (enclosing : Nat) (around : List Trivia) : Nat :=
  ((around.filterMap Trivia.indentation).map List.length).headD enclosing

/-- How much further than the nearest line around it a node is indented, if it starts a line and is
indented further. The leads are that of the node and those of the nodes around it. -/
def depth? (enclosing : Nat) : List Trivia → Option Nat
  | [] => none
  | t :: around =>
    t.indentation.bind fun indentation =>
      let depth := indentation.length - nearestWidth enclosing around
      if 0 < depth then some depth else none

mutual

/-- The lead of the statement and of each statement in it, with the leads of the nodes around. -/
def Statement.chains (around : List Trivia) (a : Statement) : List (List Trivia) :=
  (a.lead :: around) ::
    match a with
    | .block ⟨lead, as, _⟩ => Statement.listChains (lead :: around) as
    | .branch lead _ thenPart => thenPart.chains (lead :: around)
    | .fork lead _ thenPart _ elsePart =>
      thenPart.chains (lead :: around) ++ elsePart.chains (lead :: around)
    | .loop lead _ body => body.chains (lead :: around)
    | _ => []

def Statement.listChains (around : List Trivia) : List Statement → List (List Trivia)
  | [] => []
  | a :: as => a.chains around ++ Statement.listChains around as

end

mutual

/-- The lead of the class, of its members and of the statements of its methods, with the leads of
the nodes around. -/
def ClassDeclaration.chains (around : List Trivia) : ClassDeclaration → List (List Trivia)
  | ⟨lead, _, _, _, _, _, _, ⟨_, members, _⟩, _⟩ =>
    (lead :: around) :: Member.listChains (lead :: around) members

def Member.listChains (around : List Trivia) : List Member → List (List Trivia)
  | [] => []
  | .nested c :: ms => c.chains around ++ Member.listChains around ms
  | .method m :: ms =>
    (m.lead :: around) :: Statement.listChains (m.lead :: around) m.statements ++
      Member.listChains around ms
  | .field d :: ms => (d.lead :: around) :: Member.listChains around ms
  | .empty lead :: ms => (lead :: around) :: Member.listChains around ms

end

/-- The depths of the statements and of the statements in them, each as often as it occurs. -/
def Statement.depths (enclosing : Nat) (as : List Statement) : List Nat :=
  (Statement.listChains [] as).filterMap (depth? enclosing)

/-- The depths of the classes, their members and the statements of their methods. -/
def CompilationUnit.depths (u : CompilationUnit) : List Nat :=
  (u.classes.flatMap (·.chains [])).filterMap (depth? 0)

theorem pos_of_depth? {enclosing n : Nat} {leads : List Trivia}
    (h : depth? enclosing leads = some n) : 0 < n := by
  cases leads with
  | nil => cases h
  | cons t around =>
    obtain ⟨indentation, -, h⟩ := Option.bind_eq_some_iff.mp h
    obtain ⟨hpos, heq⟩ := Option.ite_none_right_eq_some.mp h
    exact Option.some.inj heq ▸ hpos

/-! ## The most frequent number -/

/-- The number occurs as often as any other one, and it is the smallest that does. -/
structure IsDominant (ns : List Nat) (n : Nat) : Prop where
  mem : n ∈ ns
  most : ∀ m, ns.count m ≤ ns.count n
  least : ∀ m, ns.count m = ns.count n → n ≤ m

namespace IndentedLine

theorem outranks_eq_false_iff {ns : List Nat} {m n : Nat} : outranks ns m n = false ↔
    ns.count m ≤ ns.count n ∧ (ns.count m = ns.count n → n ≤ m) := by
  simp only [outranks, Bool.or_eq_false_iff, decide_eq_false_iff_not, Bool.and_eq_false_iff,
    beq_eq_false_iff_ne]
  omega

theorem outranks_trans {ns : List Nat} {k m n : Nat} (hk : outranks ns k m = false)
    (hm : outranks ns m n = false) : outranks ns k n = false := by
  rw [outranks_eq_false_iff] at *
  omega

theorem outranks_asymm {ns : List Nat} {m n : Nat} (h : outranks ns m n = true) :
    outranks ns n m = false := by
  rw [← Bool.not_eq_false, outranks_eq_false_iff] at h
  rw [outranks_eq_false_iff]
  omega

/-- The better one of the best number so far and another one. -/
def better (ns : List Nat) : Option Nat → Nat → Option Nat
  | none, n => some n
  | some m, n => if outranks ns n m then some n else some m

theorem mostCommon_eq (ns : List Nat) : mostCommon ns = ns.foldl (better ns) none := by
  unfold mostCommon
  congr 1
  funext best n
  cases best <;> rfl

/-- The search ends with a number that it has seen and that none of the others outranks. -/
theorem exists_foldl_better (ns ms : List Nat) (m : Nat) :
    ∃ n, ms.foldl (better ns) (some m) = some n ∧ n ∈ m :: ms ∧
      ∀ k ∈ m :: ms, outranks ns k n = false := by
  induction ms generalizing m with
  | nil =>
    refine ⟨m, rfl, List.mem_singleton_self m, fun k hk => ?_⟩
    rw [List.mem_singleton.mp hk]
    exact outranks_eq_false_iff.mpr ⟨Nat.le_refl _, fun _ => Nat.le_refl _⟩
  | cons k ms ih =>
    -- The number that is given up is outranked by the other one, which is by none after it.
    rw [List.foldl_cons, better]
    by_cases hk : outranks ns k m = true
    · rw [if_pos hk]
      obtain ⟨n, hn, hmem, hbest⟩ := ih k
      have hm := outranks_trans (outranks_asymm hk) (hbest k List.mem_cons_self)
      exact ⟨n, hn, List.mem_cons_of_mem m hmem, List.forall_mem_cons.mpr ⟨hm, hbest⟩⟩
    · rw [if_neg hk]
      obtain ⟨n, hn, hmem, hbest⟩ := ih m
      obtain ⟨hm, hbest⟩ := List.forall_mem_cons.mp hbest
      have hk := outranks_trans (Bool.eq_false_iff.mpr hk) hm
      refine ⟨n, hn, ?_, List.forall_mem_cons.mpr ⟨hm, List.forall_mem_cons.mpr ⟨hk, hbest⟩⟩⟩
      exact List.mem_cons.mpr ((List.mem_cons.mp hmem).imp_right (List.mem_cons_of_mem k))

theorem mostCommon_eq_none_iff {ns : List Nat} : mostCommon ns = none ↔ ns = [] := by
  cases ns with
  | nil => exact ⟨fun _ => rfl, fun _ => rfl⟩
  | cons m ms =>
    obtain ⟨n, hn, -⟩ := exists_foldl_better (m :: ms) ms m
    rw [mostCommon_eq, List.foldl_cons, better, hn]
    simp

theorem isDominant_of_mostCommon {ns : List Nat} {n : Nat} (h : mostCommon ns = some n) :
    IsDominant ns n := by
  cases ns with
  | nil => cases h
  | cons m ms =>
    obtain ⟨l, hl, hmem, hbest⟩ := exists_foldl_better (m :: ms) ms m
    rw [mostCommon_eq, List.foldl_cons, better, hl] at h
    obtain rfl := Option.some.inj h
    have hall := fun k hk => outranks_eq_false_iff.mp (hbest k hk)
    refine ⟨hmem, fun k => ?_, fun k hk => ?_⟩
    · by_cases hin : k ∈ m :: ms
      · exact (hall k hin).1
      · rw [List.count_eq_zero_of_not_mem hin]
        exact Nat.zero_le _
    · have hpos := List.count_pos_iff.mpr hmem
      exact (hall k (List.count_pos_iff.mp (hk ▸ hpos))).2 hk

example : mostCommon [4, 2, 8, 2, 4] = some 2 := by decide

end IndentedLine

/-! ## Collected lines -/

theorem nearestWidth_cons (enclosing : Nat) (t : Trivia) (around : List Trivia) :
    nearestWidth enclosing (t :: around) = t.widthWithin (nearestWidth enclosing around) := by
  unfold nearestWidth Trivia.widthWithin
  cases h : t.indentation <;> simp [h]

/-- The line that a node starts. The leads are that of the node and those of the nodes around. -/
def line? (enclosing : Nat) : List Trivia → Option IndentedLine
  | [] => none
  | t :: around => t.indentation.map (⟨nearestWidth enclosing around, ·⟩)

/-- A node in front of others. -/
theorem line_append {enclosing : Nat} {around : List Trivia} (t : Trivia)
    {lines : List IndentedLine} {chains : List (List Trivia)}
    (h : lines = chains.filterMap (line? enclosing)) :
    t.line (nearestWidth enclosing around) ++ lines =
      ((t :: around) :: chains).filterMap (line? enclosing) := by
  rw [h, List.filterMap_cons, Trivia.line, line?]
  cases t.indentation <;> rfl

/-- A node and what is in it. -/
theorem line_append_within {enclosing : Nat} {around : List Trivia} (t : Trivia)
    (lines : Nat → List IndentedLine) {chains : List (List Trivia)}
    (h : lines (nearestWidth enclosing (t :: around)) = chains.filterMap (line? enclosing)) :
    t.line (nearestWidth enclosing around) ++
        lines (t.widthWithin (nearestWidth enclosing around)) =
      ((t :: around) :: chains).filterMap (line? enclosing) := by
  rw [← nearestWidth_cons]
  exact line_append t h

mutual

theorem Statement.lines_eq (e : Nat) (around : List Trivia) : (a : Statement) →
    a.lines (nearestWidth e around) = (a.chains around).filterMap (line? e)
  | .block ⟨lead, as, _⟩ =>
    line_append_within lead (Statement.listLines · as)
      (Statement.listLines_eq e (lead :: around) as)
  | .branch lead _ a =>
    line_append_within lead (a.lines ·) (Statement.lines_eq e (lead :: around) a)
  | .fork lead _ a _ b =>
    line_append_within lead (fun width => a.lines width ++ b.lines width) (by
      rw [List.filterMap_append, Statement.lines_eq e (lead :: around) a,
        Statement.lines_eq e (lead :: around) b])
  | .loop lead _ a =>
    line_append_within lead (a.lines ·) (Statement.lines_eq e (lead :: around) a)
  | .ret _ | .throwing .. | .empty _ | .declaration _ | .expression .. =>
    line_append_within _ (fun _ => []) rfl

theorem Statement.listLines_eq (e : Nat) (around : List Trivia) : (as : List Statement) →
    Statement.listLines (nearestWidth e around) as =
      (Statement.listChains around as).filterMap (line? e)
  | [] => rfl
  | a :: as => by
    rw [listLines, listChains, List.filterMap_append, Statement.lines_eq e around a,
      Statement.listLines_eq e around as]

end

mutual

theorem ClassDeclaration.lines_eq (e : Nat) (around : List Trivia) : (c : ClassDeclaration) →
    c.lines (nearestWidth e around) = (c.chains around).filterMap (line? e)
  | ⟨lead, _, _, _, _, _, _, ⟨_, members, _⟩, _⟩ =>
    line_append_within lead (Member.listLines · members)
      (Member.listLines_eq e (lead :: around) members)

theorem Member.listLines_eq (e : Nat) (around : List Trivia) : (ms : List Member) →
    Member.listLines (nearestWidth e around) ms =
      (Member.listChains around ms).filterMap (line? e)
  | [] => rfl
  | .nested c :: ms => by
    rw [Member.listLines, Member.listChains, List.filterMap_append,
      ClassDeclaration.lines_eq e around c, Member.listLines_eq e around ms]
  | .method m :: ms => by
    have hmethod := line_append_within m.lead (Statement.listLines · m.statements)
      (Statement.listLines_eq e (m.lead :: around) m.statements)
    rw [Member.listLines, Member.listChains, hmethod, Member.listLines_eq e around ms,
      ← List.filterMap_append]
  | .field d :: ms => line_append d.lead (Member.listLines_eq e around ms)
  | .empty lead :: ms => line_append lead (Member.listLines_eq e around ms)

end

/-- The lines of a unit are those of its classes, their members and the statements of their
methods. -/
theorem CompilationUnit.lines_eq (u : CompilationUnit) :
    u.lines = (u.classes.flatMap (·.chains [])).filterMap (line? 0) := by
  rw [lines, List.filterMap_flatMap]
  exact congrArg (u.classes.flatMap ·) (funext (ClassDeclaration.lines_eq 0 []))

/-- A collected line has the depth of its node. -/
theorem bind_line? (enclosing : Nat) (leads : List Trivia) :
    (line? enclosing leads).bind IndentedLine.depth? = depth? enclosing leads := by
  cases leads with
  | nil => rfl
  | cons t around =>
    rw [line?, depth?]
    cases t.indentation with
    | none => rfl
    | some indentation =>
      simp only [Option.map_some, Option.bind_some, Nat.sub_pos_iff_lt]
      rfl

theorem filterMap_line? (enclosing : Nat) (chains : List (List Trivia)) :
    (chains.filterMap (line? enclosing)).filterMap IndentedLine.depth? =
      chains.filterMap (depth? enclosing) := by
  rw [List.filterMap_filterMap]
  exact congrArg (chains.filterMap ·) (funext (bind_line? enclosing))

/-! ## What discovery finds -/

namespace IndentedLine

/-- What is used for a level: the dominant depth of the collected lines, or else another width. -/
theorem getD_dominant {ls : List IndentedLine} {ns : List Nat} (h : ls.filterMap depth? = ns)
    (other : Nat) : ns = [] ∧ (dominant ls).getD other = other ∨
      IsDominant ns ((dominant ls).getD other) := by
  rw [dominant, h]
  cases hmost : mostCommon ns with
  | none => exact .inl ⟨mostCommon_eq_none_iff.mp hmost, rfl⟩
  | some n => exact .inr (isDominant_of_mostCommon hmost)

end IndentedLine

theorem Statement.filterMap_listLines_eq (enclosing : Nat) (as : List Statement) :
    (Statement.listLines enclosing as).filterMap IndentedLine.depth? = depths enclosing as := by
  have hlines : Statement.listLines enclosing as = _ := Statement.listLines_eq enclosing [] as
  rw [hlines, filterMap_line?, depths]

theorem CompilationUnit.filterMap_lines (u : CompilationUnit) :
    u.lines.filterMap IndentedLine.depth? = u.depths := by
  rw [lines_eq, filterMap_line?, depths]

end LosslessJava
