import Inlay.SourceMap.Chain
import Inlay.Stage.Output

/-!
Folding the results of consecutive stages into one.

The code is that of the last stage, maps are chained, dependencies and diagnostics are
concatenated, and the attributes are those of the last stage that gave any.  The indentation that
was taken off the block before the first stage is added to the original columns once: in the first
chaining step, if the first stage gave a map.
-/

namespace Inlay

/-- The result of the stages so far. -/
structure Accumulator where
  code : String
  map : Option SourceMap
  dependencies : List String
  diagnostics : List Diagnostic
  attributes : Option Attributes
  /-- The indentation that the map does not account for yet. -/
  pendingIndentation : Nat
deriving DecidableEq, Inhabited

namespace Accumulator

/-- Starts with the result of the first stage, before which `indentation` was taken off. -/
def start (first : Output) (indentation : Nat) : Accumulator :=
  { code := first.code, map := first.map, dependencies := first.dependencies,
    diagnostics := first.diagnostics, attributes := first.attributes,
    pendingIndentation := if first.map.isSome then indentation else 0 }

def announcedLanguage (acc : Accumulator) : Option String :=
  acc.attributes.bind (·.announcedLanguage)

/-- Folds in the result of one more stage. -/
def absorb (acc : Accumulator) (stage : Output) : Except MapError Accumulator := do
  let map ← SourceMap.chain acc.map (stage.map.map .map) acc.pendingIndentation
  return {
    code := stage.code
    map := map
    dependencies := acc.dependencies ++ stage.dependencies
    diagnostics := acc.diagnostics ++ stage.diagnostics
    attributes := if stage.attributes.isSome then stage.attributes else acc.attributes
    pendingIndentation := if stage.map.isSome then 0 else acc.pendingIndentation }

/-- Folds in the results of stages one after the other. -/
def absorbAll (acc : Accumulator) (stages : List Output) : Except MapError Accumulator :=
  stages.foldlM absorb acc

/-- The result of a block: what was accumulated, without attributes. -/
def finish (acc : Accumulator) : Output :=
  { code := acc.code, map := acc.map, dependencies := acc.dependencies,
    diagnostics := acc.diagnostics, attributes := none }

end Accumulator
end Inlay
