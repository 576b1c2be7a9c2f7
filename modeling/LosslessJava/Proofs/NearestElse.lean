import LosslessJava.Proofs.Grammar.Spelling.Text
import LosslessJava.Proofs.Parsed

/-!
# The nearest `if` of an `else`

A text like `if (a) if (b) f(); else g();` could be taken apart in two ways. It is read with the
`else` at the inner `if`, so no `else` of a tree stands behind an open statement.

* `Parsed.ofText`: parsed trees are the trees of texts, up to types.
* `isOpen_thenPart`: the part in front of an `else` is not open.
-/

namespace LosslessJava

/-! ## Trees of texts -/

/-- The node is the tree of some text, up to types. -/
def Node.OfText (n : Node) : Prop :=
  ∃ (kind : TextKind) (source : String) (m : Node),
    kind.tree? source = some m ∧ n.untyped = m.untyped

theorem Node.OfText.of_parse {kind : TextKind} {source : String} {n : Node}
    (h : kind.parse source = .ok n) : n.OfText :=
  ⟨kind, source, n, TextKind.tree_of_parse h, rfl⟩

theorem Node.OfText.attributed {u : CompilationUnit} (h : (Node.unit u).OfText) (index : TypeIndex)
    (implicitLanguage : Bool) : (Node.unit (u.attributed index implicitLanguage)).OfText := by
  obtain ⟨kind, source, m, htree, heq⟩ := h
  refine ⟨kind, source, m, htree, ?_⟩
  rw [← heq, Node.untyped, Node.untyped, CompilationUnit.untyped_attributed]

theorem ofText_of_parseUnit {path : Option String} {source : String} {u : CompilationUnit}
    (h : parseUnit path source = .ok u) : (Node.unit u).OfText := by
  have hparse : (TextKind.unit path).parse source = .ok (.unit u) := by
    rw [TextKind.parse, h]
    rfl
  exact .of_parse hparse

theorem Batch.ofText_of_parseEach {config : Config} {sources dependencies : List SourceText}
    {results : List (Except ParseError CompilationUnit)} {u : CompilationUnit}
    (h : parseEach config sources dependencies = .ok results) (hu : .ok u ∈ results) :
    (Node.unit u).OfText := by
  obtain ⟨i, hi⟩ := List.mem_iff_getElem?.mp hu
  obtain ⟨s, v, index, -, hv, rfl⟩ := parseEach_getElem h hi
  exact (ofText_of_parseUnit hv).attributed index _

/-- A parsed tree is the tree of some text, up to types. -/
theorem Parsed.ofText {n : Node} (h : Parsed n) : n.OfText := by
  cases h with
  | unit h => exact ofText_of_parseUnit h
  | single h =>
    obtain ⟨v, index, hv, rfl⟩ := SourceText.parseAttributed_eq_ok h
    exact (ofText_of_parseUnit hv).attributed index _
  | each h hu => exact Batch.ofText_of_parseEach h hu
  | all h hu =>
    exact Batch.ofText_of_parseEach (Batch.parseAll_eq_ok h) (List.mem_map.mpr ⟨_, hu, rfl⟩)
  | @statement source s h =>
    have hparse : TextKind.statement.parse source = .ok (.statement s) := by
      rw [TextKind.parse, h]
      rfl
    exact .of_parse hparse
  | @expression source e h =>
    have hparse : TextKind.expression.parse source = .ok (.expression e) := by
      rw [TextKind.parse, h]
      rfl
    exact .of_parse hparse

/-! ## Parts in front of an `else` -/

/-- In all parsed trees no `else` stands behind an open statement. -/
theorem Parsed.all_closed {n : Node} (h : Parsed n) : n.All Node.Closed := by
  obtain ⟨kind, source, m, htree, heq⟩ := h.ofText
  refine Node.All.of_untyped (fun k k' hkk hk' => ?_)
    ((TextKind.spells htree).closed m (List.mem_singleton_self m)) heq
  rwa [← Node.closed_untyped, hkk, Node.closed_untyped]

/-- An `else` belongs to the nearest `if`: in a parsed tree, at any depth, the part in front of an
`else` does not end with an `if` that has none. -/
theorem isOpen_thenPart {n : Node} (h : Parsed n) {lead elseLead : Trivia} {condition : Condition}
    {thenPart elsePart : Statement}
    (hfork : Node.Within (.statement (.fork lead condition thenPart elseLead elsePart)) n) :
    thenPart.isOpen = false :=
  h.all_closed _ hfork

/-- The second of two clauses goes to the outer statement. -/
theorem isOpen_thenPart_loop :
    ∃ lead condition body elseLead elsePart,
      parseStatement "if (a) while (b) if (c) f(); else g(); else h();" =
        .ok (.fork lead condition body elseLead elsePart) ∧ body.isOpen = false := by
  -- No other statement has a condition and two parts.
  obtain ⟨s, hs, hfork⟩ := exists_ok (p := fun s => s.children.length == 3)
    (x := parseStatement "if (a) while (b) if (c) f(); else g(); else h();") (by decide +kernel)
  cases s with
  | fork lead condition body elseLead elsePart =>
    exact ⟨lead, condition, body, elseLead, elsePart, hs,
      isOpen_thenPart (.statement hs) (.refl _)⟩
  | _ => cases hfork

end LosslessJava
