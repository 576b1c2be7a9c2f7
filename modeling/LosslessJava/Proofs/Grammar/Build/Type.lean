import LosslessJava.Proofs.Grammar.Build.Terminal

/-!
# Building of types

* `BuiltBy`: the builders for the recursive rules build what these rules read.
* `matches_delimited`: a list between delimiters.
* `matches_typeReference`: the rule for types.
-/

namespace LosslessJava.Grammar

open LosslessJava.Grammar.Parser
open Build Building

variable {α : Type} {source : List Char} {r : Rules} {b : Builders}

/-! ## The recursive rules -/

/-- The rules of statements that declare no variables. -/
def statementRules : List Rule :=
  [.block, .returnStatement, .throwStatement, .ifStatement, .whileStatement, .emptyStatement,
    .expressionStatement]

/-- The recursive rules are built as they are read. -/
structure BuiltBy (source : List Char) (r : Rules) (b : Builders) : Prop where
  type : Matches source r.type (Made source [.typeReference] b.type)
  unary : Matches source r.unary (Bare source [.unaryExpression] b.unary)
  expression : Matches source r.expression (Made source [.expression] b.expression)
  classBody : Matches source r.classBody (Made source [.classBody] b.classBody)
  statement : Matches source r.statement (Made source statementRules b.statement)
  blockStatement : Matches source r.blockStatement
    (Made source ([.variableDeclarations] ++ statementRules) b.statement)

/-! ## Lists between delimiters -/

theorem matches_delimited {rule openRule closeRule : Rule} {o c : String} {p : Parser α}
    {rules : List Rule} {found : Building (Option (Trivia × Pair))} {follow : Option Rule → Bool}
    {f : Trivia → Pair → Built α} (bound : Nat) (h : Matches source p (Made source rules f))
    (hfound : Finds found rules follow) (ho : o.toList ≠ []) (hc : c.toList ≠ [])
    (hfollow : follow (some closeRule) = true) (hcomma : closeRule ≠ .comma) :
    Matches source
      (named rule (delimited bound (delimiter openRule o) p (delimiter closeRule c)))
      (Made source [rule] fun lead pair => pair.walk source do
        let _ ← Building.token openRule
        let elements ← elements found f
        let close ← Building.token closeRule
        return ⟨lead, elements, close⟩) := by
  refine Matches.walked_eq
    (x := Delimited.mk <$> Building.token openRule <*> elements found f <*>
      Building.token closeRule)
    (fun t l => { l with before := t }) (Walked.named (.seq (.seq (.map (walked_delimiter ho) ?_)
      (h.elements hfound (matches_symbol (by decide)) bound) (Lookahead.one_admits _ _))
      (walked_delimiter hc) ?_) rfl ?_ rule) rfl fun t pair => ?_
  · rintro _ t rfl _ as rfl _ u rfl
    rfl
  · simp [Lookahead.admits, Lookahead.seq, Lookahead.one, Lookahead.upTo, hfollow, hcomma]
  · exact .seq <| .seq <| .map <| passesLead_symbol fun _ _ _ _ => rfl
  · simp only [seq_eq_bind_map, map_eq_pure_bind, bind_assoc, pure_bind]

/-! ## Types -/

theorem matches_dimension :
    Matches source Grammar.dimension (Made source [.dimension] (Build.dimension source)) := by
  have hopen : Walked source leftBracket (Building.token .leftBracket) (.one [.leftBracket])
      (· = ·) := walked_delimiter (by decide)
  have hclose : Walked source rightBracket (Building.token .rightBracket) (.one [.rightBracket])
      (· = ·) := walked_delimiter (by decide)
  have hwalk := (hopen.map_same Dimension.mk).apply hclose rfl
  refine Matches.walked_eq (fun t d => { d with lead := t }) (hwalk.named rfl ?_ .dimension) rfl
    fun t pair => ?_
  · exact .seq <| .map <| passesLead_symbol fun _ _ _ => rfl
  · simp only [Build.dimension, seq_eq_bind_map, map_eq_pure_bind, bind_assoc, pure_bind]

theorem walked_dimensions (bound : Nat) :
    Walked source (Grammar.dimensions bound) (Build.dimensions source)
      (.upTo [.dimension] fun o => !o.any (· == .dimension)) (· = ·) :=
  matches_dimension.all (finds_nextIf .dimension) bound

theorem walked_wildcardBound (h : BuiltBy source r b) :
    Walked source (Grammar.wildcardBound r)
      (do let (lead, keyword) ← expect .wildcardBound; Build.wildcardBound source b lead keyword)
      ((Lookahead.one [.wildcardBound]).seq (.one [.typeReference])) (· = ·) := by
  have hkind : ∀ {w : String} {kind : BoundKind}, BoundKind.ofKeyword? w = some kind →
      (if w = "super" then BoundKind.lower else .upper) = kind := by
    intro w kind h
    obtain rfl : kind.keyword = w := by simpa using List.find?_some h
    cases kind <;> rfl
  have hkeyword : Walked source (wordOf .wildcardBound BoundKind.ofKeyword?)
      (expect .wildcardBound) (.one [.wildcardBound]) fun found a => found.1 = a.1 ∧
        (if found.2.text source = "super" then BoundKind.lower else .upper) = a.2 := by
    refine matches_wordOf.passed (passes_expect .wildcardBound) ?_
    rintro offset xs pair ⟨t, kind⟩ - ⟨rfl, hword, hvalid⟩
    exact ⟨_, ⟨rfl, hkind hword⟩, (verdict_of_none hvalid _).symm⟩
  have hbound : Walked source (Grammar.wildcardBound r)
      ((fun (found : Trivia × Pair) bound => WildcardBound.mk found.1
        (if found.2.text source = "super" then BoundKind.lower else .upper) bound) <$>
        expect .wildcardBound <*> Building.child .typeReference b.type)
      ((Lookahead.one [.wildcardBound]).seq (.one [.typeReference])) (· = ·) := by
    refine .apply (.map hkeyword ?_) h.type.child rfl
    rintro ⟨t, pair⟩ ⟨_, kind⟩ ⟨rfl, rfl⟩
    rfl
  have hsteps : ((fun (found : Trivia × Pair) bound => WildcardBound.mk found.1
        (if found.2.text source = "super" then BoundKind.lower else .upper) bound) <$>
        expect .wildcardBound <*> Building.child .typeReference b.type : Building WildcardBound) =
      (do
        let (lead, keyword) ← expect .wildcardBound
        Build.wildcardBound source b lead keyword) := by
    simp only [Build.wildcardBound, seq_eq_bind_map, map_eq_pure_bind, bind_assoc, pure_bind]
  rwa [hsteps] at hbound

theorem matches_wildcardType (h : BuiltBy source r b) :
    Matches source (Grammar.wildcardType r)
      (Made source [.wildcardType] (Build.wildcardType source b)) := by
  have hquestion : Walked source question (Building.token .question) (.one [.question]) (· = ·) :=
    walked_delimiter (by decide)
  have hhead := hquestion.map_same fun lead bound =>
    TypeTree.mk lead (.wildcard bound) none [] none
  have hbound :=
    Walked.whenFound (k := Build.wildcardBound source b) (walked_wildcardBound h) rfl rfl
  have hwalk := hhead.apply (hbound.mono fun _ _ => optionRel_eq) rfl
  refine Matches.walked_eq (fun t type => { type with lead := t })
    (hwalk.named rfl ?_ .wildcardType) rfl fun t pair => ?_
  · exact .seq <| .map <| passesLead_symbol fun _ _ _ => rfl
  · simp only [Build.wildcardType, seq_eq_bind_map, map_eq_pure_bind, bind_assoc, pure_bind]

theorem matches_typeArguments (h : BuiltBy source r b) :
    Matches source (Grammar.typeArguments r)
      (Made source [.typeArguments] (Build.typeArguments source b)) := by
  have hargument : Matches source (Grammar.wildcardType r <|> r.type)
      (Made source ([.wildcardType] ++ [.typeReference]) (typeArgument source b)) := by
    exact .choice (.made_as (matches_wildcardType h) fun _ _ _ _ => rfl)
      (.made_as h.type fun _ _ _ _ => rfl)
  exact matches_delimited r.bound hargument (finds_nextUnless (by decide)) (by decide)
    (by decide) rfl (by decide)

/-- Both make the same type, with the lead that the first one is given. -/
def SameType (f : Trivia → List Dimension → TypeTree) (g : List Dimension → TypeTree) : Prop :=
  ∀ t ds, f t ds = { g ds with lead := t }

theorem walked_primitiveType (source : List Char) (b : Builders) :
    Walked source ((fun (lead, p) => primitiveArray lead p) <$> primitiveType)
      (Build.typeHead source b) (.one [.primitiveType]) SameType := by
  have hword : Walked source primitiveType
      (do let (_, head) ← expect .primitiveType; Build.primitive source head)
      (.one [.primitiveType]) fun p a => p = a.2 := by
    refine matches_wordOf.passed (Passes.bind (f := fun _ head => Build.primitive source head)
      (passes_expect .primitiveType)) ?_
    rintro offset xs pair ⟨t, p⟩ - ⟨-, hp, hvalid⟩
    exact ⟨p, rfl, by rw [Build.primitive, hp, verdict_of_none hvalid]⟩
  refine Walked.congr
    (x := (fun p lead dimensions => primitiveArray lead p dimensions) <$>
      (do let (_, head) ← expect .primitiveType; Build.primitive source head))
    (.map hword ?_) rfl ?_
  · rintro _ ⟨t, p⟩ rfl u ds
    rfl
  · rintro c ⟨r, hr, hc⟩
    obtain rfl := List.mem_singleton.mp hr
    simp only [Build.typeHead, map_eq_pure_bind, bind_assoc]
    refine expectAny_bind hc fun lead pair hrule => ?_
    obtain ⟨_, start, stop, inner⟩ := pair
    obtain rfl := hrule
    rfl

theorem walked_named (h : BuiltBy source r b) :
    Walked source ((fun (lead, name) arguments ds => ⟨lead, .named name, arguments, ds, none⟩) <$>
      Grammar.qualifiedName r.bound <*> optional (Grammar.typeArguments r))
      (Build.typeHead source b)
      ((Lookahead.one [.qualifiedName]).seq
        (.upTo [.typeArguments] fun o => o != some .typeArguments))
      SameType := by
  have hname : Walked source (Grammar.qualifiedName r.bound)
      (do let (_, head) ← expect .qualifiedName; Build.qualifiedName source head)
      (.one [.qualifiedName]) fun name a => name = a.2 := by
    refine (matches_qualifiedName r.bound).passed
      (Passes.bind (f := fun _ head => Build.qualifiedName source head)
        (passes_expect .qualifiedName)) ?_
    rintro offset xs pair ⟨t, name⟩ - ⟨-, hname, hvalid⟩
    exact ⟨name, rfl, by rw [hname, verdict_of_none hvalid]⟩
  refine Walked.congr
    (x := (fun name arguments lead dimensions =>
        ⟨lead, .named name, arguments, dimensions, none⟩) <$>
      (do let (_, head) ← expect .qualifiedName; Build.qualifiedName source head) <*>
      perhaps .typeArguments (Build.typeArguments source b))
    (.seq (.map hname ?_) (matches_typeArguments h).perhaps rfl) rfl ?_
  · rintro _ ⟨t, name⟩ rfl _ arguments rfl u ds
    rfl
  · rintro c ⟨r, hr, hc⟩
    obtain rfl := List.mem_singleton.mp hr
    simp only [Build.typeHead, seq_eq_bind_map, map_eq_pure_bind, bind_assoc, pure_bind]
    refine expectAny_bind hc fun lead pair hrule => ?_
    obtain ⟨_, start, stop, inner⟩ := pair
    obtain rfl := hrule
    rfl

theorem matches_typeReference (h : BuiltBy source r b) :
    Matches source (Grammar.typeReference r)
      (Made source [.typeReference] (Build.typeReference source b)) := by
  refine Matches.walked
    (x := (fun head ds t => head t ds) <$> Build.typeHead source b <*> Build.dimensions source)
    (V := fun (f : Trivia → TypeTree) type => ∀ t, f t = { type with lead := t })
    (fun t type => { type with lead := t }) (Walked.named
      (.seq (.image (.orElse (walked_primitiveType source b) (walked_named h)) ?_)
        (walked_dimensions r.bound) rfl) rfl ?_ .typeReference) rfl
    (fun t f => .ok (f t)) ?_ fun t pair => ?_
  · rintro f g hfg ds _ rfl t
    exact hfg t ds
  · refine .seq <| .orElse (.map <| passesLead_wordOf fun _ _ _ _ => rfl) <| .seq <| .map ?_
    refine (passesLead_dottedName r.bound).mono ?_
    rintro t ⟨u, name⟩ _ rfl arguments ds
    rfl
  · intro t f type hf
    rw [hf]
  · simp only [Build.typeReference, seq_eq_bind_map, map_eq_pure_bind, bind_assoc, pure_bind]
    rfl

end LosslessJava.Grammar
