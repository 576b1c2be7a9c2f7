import LosslessJava.Grammar.Text
import LosslessJava.Resolve.Attribution

/-!
# Batches

Several sources that are parsed and attributed together, against the classes of all of them and of
their dependencies.

* `Batch.parseEach`: one result for each source, in order.
* `Batch.parseAll`: all units, or the first error.
-/

namespace LosslessJava

/-- A text with the path that it was read from, if it has one. -/
structure SourceText where
  path : Option String
  text : String
deriving DecidableEq

/-- What happens to dependencies that do not parse. -/
inductive ErrorPolicy where
  /-- The first one ends the batch. -/
  | failFast
  /-- They are left out. -/
  | keepGoing
deriving DecidableEq

structure Config where
  errorPolicy : ErrorPolicy
  /-- Whether the classes of `java.lang` are visible without an import. -/
  implicitLanguage : Bool
deriving DecidableEq

namespace Config

def standard : Config := ⟨.failFast, true⟩

end Config

namespace SourceText

def parse (s : SourceText) : Except ParseError CompilationUnit := parseUnit s.path s.text

end SourceText

namespace Batch

/-- The values without the errors. -/
def successes {ε α : Type} (results : List (Except ε α)) : List α :=
  results.filterMap fun
    | .ok a => some a
    | .error _ => none

/-- All values, or the first error. -/
def collect {ε α : Type} : List (Except ε α) → Except ε (List α)
  | [] => .ok []
  | .error e :: _ => .error e
  | .ok a :: rest => (collect rest).map (a :: ·)

/-- The units of the dependencies. -/
def parseDependencies (config : Config) (dependencies : List SourceText) :
    Except ParseError (List CompilationUnit) :=
  let results := dependencies.map SourceText.parse
  match config.errorPolicy with
  | .failFast => collect results
  | .keepGoing => .ok (successes results)

/-- One result for each source, attributed against the classes of all sources and dependencies that
parse. -/
def parseEach (config : Config) (sources dependencies : List SourceText) :
    Except ParseError (List (Except ParseError CompilationUnit)) := do
  let dependencyUnits ← parseDependencies config dependencies
  let results := sources.map SourceText.parse
  let index := TypeIndex.ofUnits (successes results ++ dependencyUnits)
  return results.map fun r => r.map (·.attributed index config.implicitLanguage)

/-- All sources as attributed units, or the first error. -/
def parseAll (config : Config) (sources dependencies : List SourceText) :
    Except ParseError (List CompilationUnit) := do
  collect (← parseEach config sources dependencies)

end Batch

namespace SourceText

/-- The unit of a single source, attributed against its own classes. -/
def parseAttributed (config : Config) (s : SourceText) : Except ParseError CompilationUnit := do
  let u ← s.parse
  return u.attributed (.ofUnits [u]) config.implicitLanguage

end SourceText

end LosslessJava
