import LosslessJava.Proofs.Grammar.Spelling.Statement

/-!
# Tokens of declarations

The rules for declarations make nodes of their tokens. In a package declaration or an import there
are no literals.
-/

namespace LosslessJava.Grammar

open LosslessJava.Grammar.Parser Node

variable {k : Nat} {r : Rules}

/-! ## Declarations -/

theorem spelling_typeClause (hr : r.Spelling k) {rule keywordRule : Rule} {w : String}
    (hw : w ∉ literalWords) :
    Takes (k + 1) 1 (typeClause r rule keywordRule w) fun ks l => Spells ks [.typeList l] := by
  refine (((spelling_keyword hw).map ?_).seq_behind
    ((spelling_separated (spelling_typeReference hr)).of_le (Nat.le_succ k))).named
  intro ks _ h ks₁ _ h₁
  exact (h.append h₁).node rfl rfl trivial

theorem spelling_methodDeclaration (hr : r.Spelling k) :
    Takes (k + 1) 1 (methodDeclaration r) fun ks m => Spells ks [.method m] := by
  have hname : Takes (k + 1) 1 (methodName r) fun ks a =>
      Spells ks ((a.1.map .typeTree).toList ++ [.identifier a.2]) := by
    refine Takes.orElse (((spelling_typeReference hr).map ?_).weaken.seq spelling_identifier)
      (spelling_identifier.map fun _ _ h => h.identifier _)
    intro ks t h ks₁ i h₁
    exact h.append (h₁.identifier i)
  have hparameters : Takes (k + 1) 1 (formalParameters r) fun ks d =>
      Spells ks (d.toList.map .declarations) :=
    (spelling_delimited (spelling_delimiter (by decide))
      ((spelling_formalParameter hr).of_le (Nat.le_succ k))
      (spelling_delimiter (by decide))).named
  have hthrows : Takes (k + 1) 0 (optional (throwsClause r)) fun ks o =>
      Spells ks (o.map .typeList).toList :=
    spelling_optional (spelling_typeClause hr (by decide))
  have hsemicolon : Takes (k + 1) 1 semicolon fun ks _ => Spells ks [] :=
    spelling_delimiter (by decide)
  have hending : Takes (k + 1) 1
      (MethodEnding.body <$> block r <|> MethodEnding.terminator <$> semicolon)
      fun ks e => Spells ks (e.block?.map .block).toList :=
    Takes.orElse ((spelling_block hr).map fun _ _ h => h) (hsemicolon.map fun _ _ h => h)
  refine ((((((takes_lead.map ?_).seq (spelling_modifiers hr)).seq hname).weaken.seq
    hparameters).weaken.seq hthrows).seq hending).named
  rintro _ _ rfl ks ms h ks₁ _ h₁ ks₂ d h₂ ks₃ o h₃ ks₄ e h₄
  refine ((((h.append h₁).append h₂).append h₃).append h₄).node ?_ rfl trivial
  simp [Node.children]

theorem spelling_classDeclaration (hr : r.Spelling k) :
    Takes (k + 1) 1 (classDeclaration r) fun ks c => Spells ks [.classDeclaration c] := by
  have hkind : Takes (k + 1) 1 (wordOf .classKind ClassKind.ofKeyword?) fun ks _ => Spells ks [] :=
    spelling_wordOf (by decide)
  have hextends : Takes k 0 (optional (extendsClause r)) fun ks o =>
      Spells ks (o.map .typeList).toList :=
    spelling_optional ((spelling_typeClause hr (by decide)).of_le (Nat.le_succ k))
  have himplements : Takes k 0 (optional (implementsClause r)) fun ks o =>
      Spells ks (o.map .typeList).toList :=
    spelling_optional ((spelling_typeClause hr (by decide)).of_le (Nat.le_succ k))
  refine (((((((takes_lead.map ?_).seq (spelling_modifiers hr)).seq hkind).seq_behind
    spelling_identifier).seq_behind hextends).seq_behind himplements).seq_behind
    hr.classBody).named
  rintro _ _ rfl ks ms h ks₁ _ h₁ ks₂ i h₂ ks₃ o h₃ ks₄ p h₄ ks₅ b h₅
  refine (((((h.append h₁).append (h₂.identifier i)).append h₃).append h₄).append h₅).node
    ?_ rfl trivial
  simp [Node.children]

/-- A member, from its children. -/
theorem Spells.member {ks : List Token} {ns : List Node} {m : Member} (h : Spells ks ns)
    (hchildren : m.children = ns) : Spells ks [.member m] :=
  h.node hchildren rfl trivial

theorem spelling_member (hr : r.Spelling k) :
    Takes (k + 1) 1 (member r) fun ks m => Spells ks [.member m] := by
  refine Takes.orElse ((spelling_classDeclaration hr).map fun _ _ h => h.member rfl) <|
    Takes.orElse ((spelling_methodDeclaration hr).map fun _ _ h => h.member rfl) <|
    Takes.orElse ((spelling_variableDeclarations hr).map fun _ _ h => h.member rfl) ?_
  have hsemicolon : Takes (k + 1) 1 semicolon fun ks _ => Spells ks [] :=
    spelling_delimiter (by decide)
  exact hsemicolon.map fun _ t h => h.member (m := .empty t) rfl

theorem spelling_classBody (hr : r.Spelling k) :
    Takes (k + 1) 1 (classBody r) fun ks b => Spells ks [.classBody b] := by
  refine ((((spelling_delimiter (by decide)).map ?_).seq_behind
    (spelling_many ((spelling_member hr).of_le (Nat.le_succ k)))).seq_behind (e := 1)
    (spelling_delimiter (by decide))).named
  intro ks _ h ks₁ _ h₁ ks₂ _ h₂
  refine ((h.append h₁).append h₂).node ?_ rfl trivial
  simp [Node.children]

/-! ## Headers -/

theorem spelling_packageDeclaration {bound : Nat} :
    Takes (k + 1) 1 (packageDeclaration bound) fun ks d => Spells ks [.package d] := by
  refine ((((spelling_keyword (by decide)).map ?_).seq_behind spelling_qualifiedName).seq_behind
    (e := 1) (spelling_delimiter (by decide))).named
  intro ks _ h ks₁ _ h₁ ks₂ _ h₂
  exact ((h.append h₁).append h₂).node rfl rfl trivial

theorem spelling_importDeclaration {bound : Nat} :
    Takes (k + 1) 1 (importDeclaration bound) fun ks i => Spells ks [.importDeclaration i] := by
  have hword : Takes k 1 (keyword .staticWord "static") fun ks _ => Spells ks [] :=
    spelling_keyword (by decide)
  have hstatic : Takes k 0 (optional (keyword .staticWord "static")) fun ks _ => Spells ks [] :=
    hword.optional .nil fun _ _ h => h
  have hwildcard : Takes (k + 1) 2 wildcard fun ks _ => Spells ks [] := by
    refine .of_reads reads_wildcard ?_
    rintro xs _ rfl
    exact ⟨Nat.le_refl 2, spells_marks ['.', '*']⟩
  have hpath : Takes (k + 1) 1 (importPath bound) fun ks _ => Spells ks [] := by
    have hoptional : Takes (k + 1) 0 (optional wildcard) fun ks _ => Spells ks [] :=
      hwildcard.optional .nil fun _ _ h => h
    refine ((spelling_dottedName.map ?_).seq_behind (hoptional.of_le (Nat.le_succ k))).compound
    intro ks _ h ks₁ _ h₁
    exact h.append h₁
  refine (((((spelling_keyword (by decide)).map ?_).seq_behind hstatic).seq_behind
    (hpath.of_le (Nat.le_succ k))).seq_behind (e := 1) (spelling_delimiter (by decide))).named
  intro ks _ h ks₁ _ h₁ ks₂ _ h₂ ks₃ _ h₃
  exact (((h.append h₁).append h₂).append h₃).node rfl rfl trivial

end LosslessJava.Grammar
