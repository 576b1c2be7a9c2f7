import LosslessJava.Grammar.Rule
import LosslessJava.Location
import LosslessJava.Trivia

/-!
# Pairs

A text that the grammar accepts is taken apart into pairs. A pair is a stretch of the text that a
rule matched, with the pairs of the rules in it. Trivia belongs to no rule, so it is found in what
the pairs leave out.

* `Pair.tokenEnd`: the end of the last token in a pair.
* `gap`: the trivia between two offsets.
-/

namespace LosslessJava.Grammar

/-- A stretch of a text that a rule matched. -/
structure Pair where
  rule : Rule
  start : Nat
  stop : Nat
  inner : List Pair

namespace Pair

mutual

/-- The pairs inside a pair, each in front of those inside it. -/
def descendants : Pair → List Pair
  | ⟨_, _, _, inner⟩ => flatten inner

/-- The pairs of a list and those inside them. -/
def flatten : List Pair → List Pair
  | [] => []
  | p :: ps => p :: (descendants p ++ flatten ps)

end

/-- The end of the last token in the pair. A rule that ends with a part that may be missing also
covers the trivia that was skipped in front of it. That trivia belongs to what follows the pair. -/
def tokenEnd (p : Pair) : Nat :=
  match p.descendants.getLast? with
  | some leaf => leaf.stop
  | none => p.stop

/-- The text that the rule matched. -/
def text (source : List Char) (p : Pair) : String :=
  String.ofList (sliceBytes p.start p.stop source)

end Pair

/-- The trivia between two offsets of the text. -/
def gap (source : List Char) (start stop : Nat) : Trivia :=
  .ofList (sliceBytes start stop source)

end LosslessJava.Grammar
