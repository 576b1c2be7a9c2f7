import LosslessJava.Grammar.Pair
import LosslessJava.Literal.Value
import LosslessJava.Tree.Separated

/-!
# Walks over pairs

A tree is built of a pair by a walk over the pairs inside it. A cursor yields them in order, each
with the trivia in front of it, which is the text between the last token that was passed and the
pair. The first error ends the walk.

* `Cursor`, `Building`: the state of a walk, and steps of it.
* `Building.next`, `nextWhere`, `nextIf`, `nextUnless`: the next pair, if it is as asked for.
* `Building.child`, `perhaps`, `all`, `elements`: values of the next pairs.
-/

namespace LosslessJava.Grammar

/-! ## Errors -/

/-- What a walk expects next: a pair of a rule, or one of several rules. -/
inductive Expected where
  | rule (rule : Rule)
  | part (description : String)

inductive BuildFault where
  /-- The literal `found` denotes no value of its kind. -/
  | invalidLiteral (kind : LiteralKind) (found : String)
  /-- The next pair is not what is expected, or there is none. -/
  | unexpectedRule (expected : Expected) (found : Option Rule)

/-- Why there is no tree of a pair, and where. -/
structure BuildError where
  offset : Nat
  fault : BuildFault

/-- A value that is built, or the first error. -/
abbrev Built := Except BuildError

/-- There is a pair where another one is expected. -/
def Pair.unexpected {α : Type} (expected : String) (pair : Pair) : Built α :=
  .error ⟨pair.start, .unexpectedRule (.part expected) (some pair.rule)⟩

/-! ## Cursors -/

/-- The pairs inside a pair that are still to come. -/
structure Cursor where
  source : List Char
  /-- The end of the last token that was passed, or the start of the whole pair. -/
  position : Nat
  pairs : List Pair

abbrev Building := StateT Cursor Built

namespace Building

variable {α : Type}

/-- Ends the walk in front of the next pair. -/
def mismatch (expected : Expected) : Building α := fun c =>
  .error ⟨(c.pairs.head?.map Pair.start).getD c.position,
    .unexpectedRule expected (c.pairs.head?.map Pair.rule)⟩

/-- The next pair and the trivia in front of it. -/
def next : Building (Option (Trivia × Pair)) := fun c =>
  match c.pairs with
  | [] => .ok (none, c)
  | p :: ps => .ok (some (gap c.source c.position p.start, p), ⟨c.source, p.tokenEnd, ps⟩)

/-- The next pair, if its rule is as asked for. -/
def nextWhere (accepts : Rule → Bool) : Building (Option (Trivia × Pair)) := fun c =>
  if (c.pairs.head?.map Pair.rule).any accepts then next c else .ok (none, c)

/-- The next pair, if it is of the rule. -/
def nextIf (rule : Rule) : Building (Option (Trivia × Pair)) := nextWhere (· == rule)

/-- The next pair, unless it is of the rule. There has to be one. -/
def nextUnless (rule : Rule) (expected : String) : Building (Option (Trivia × Pair)) := fun c =>
  match c.pairs with
  | [] => mismatch (.part expected) c
  | p :: _ => if p.rule == rule then .ok (none, c) else next c

/-- The next pair, which has to be of the rule. -/
def expect (rule : Rule) : Building (Trivia × Pair) := do
  match ← nextIf rule with
  | some found => return found
  | none => mismatch (.rule rule)

/-- The next pair, of which there has to be one. -/
def expectAny (expected : String) : Building (Trivia × Pair) := do
  match ← next with
  | some found => return found
  | none => mismatch (.part expected)

/-- The trivia in front of a keyword or delimiter. -/
def token (rule : Rule) : Building Trivia := Prod.fst <$> expect rule

/-- The value of the next pair. -/
def child (rule : Rule) (f : Trivia → Pair → Built α) : Building α := do
  let (lead, pair) ← expect rule
  f lead pair

/-- What comes of the pair that `found` yields, if it yields one. -/
def whenFound (found : Building (Option (Trivia × Pair))) (f : Trivia → Pair → Building α) :
    Building (Option α) := do
  match ← found with
  | some (lead, pair) => some <$> f lead pair
  | none => return none

/-- The value of the next pair, if it is of the rule. -/
def perhaps (rule : Rule) (f : Trivia → Pair → Built α) : Building (Option α) :=
  whenFound (nextIf rule) fun lead pair => f lead pair

/-! ## Repetitions -/

/-- The values of a step, up to the first that has none, and at most `bound` of them. -/
def repeated (step : Building (Option α)) : Nat → Building (List α)
  | 0 => return []
  | bound + 1 => do
    match ← step with
    | some a => (a :: ·) <$> repeated step bound
    | none => return []

/-- The values of the pairs that `found` yields. -/
def all (found : Building (Option (Trivia × Pair))) (f : Trivia → Pair → Built α) :
    Building (List α) := fun c =>
  repeated (whenFound found fun lead pair => f lead pair) (c.pairs.length + 1) c

/-- The value of a pair, with the trivia in front of the comma behind it. -/
def element (f : Trivia → Pair → Built α) (lead : Trivia) (pair : Pair) : Building (Padded α) := do
  let element ← f lead pair
  let after ← nextIf .comma
  return ⟨element, (after.map Prod.fst).getD .empty⟩

/-- The values of the pairs that `found` yields. A comma behind one of them is passed. -/
def elements (found : Building (Option (Trivia × Pair))) (f : Trivia → Pair → Built α) :
    Building (List (Padded α)) := fun c =>
  repeated (whenFound found (element f)) (c.pairs.length + 1) c

end Building

/-- The value of a walk over the pairs inside a pair. -/
def Pair.walk {α : Type} (source : List Char) (pair : Pair) (x : Building α) : Built α :=
  Prod.fst <$> x ⟨source, pair.start, pair.inner⟩

end LosslessJava.Grammar
