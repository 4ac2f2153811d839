import Inlay.Pipeline.Accumulator
import Inlay.Pipeline.Primary

/-!
The pipelines of the three kinds of blocks.

Markup runs an optional replacement pass and its first stage.  Script runs its first stage, then
typescript if that stage announced TypeScript, then babel.  Style runs its first stage, then
postcss and globalStyle if the host has postcss.  A stage that fails ends the run.
-/

namespace Inlay

/-- The announced language that asks for the typescript stage. -/
def promotedLanguage : String := "ts"

/-- The warning for a style block that asks for global rules while postcss is not there. -/
def globalWarning? (attributes : Attributes) : Option Warning :=
  if attributes.contains "global" then some .globalWithoutPostcss else none

namespace Preprocessor

/-! ## Markup -/

/-- The block whose content has gone through the replacement pass, if one is configured. -/
def replaced (p : Preprocessor) (block : Block) : Traced Block :=
  match p.resolver.settings.get? "replace" with
  | none => .done block
  | some setting =>
    if setting.isEnabled then do
      -- What the pass is given as the whole file is only the content.
      let stage ← p.runStage "replace" (setting.resolved "replace")
        { content := block.content, markup := some block.content, filename := block.filename }
      return { block with content := stage.code }
    else .done block

def markup (p : Preprocessor) (block : Block) : Traced Output := do
  let block ← p.replaced block
  let first ← p.primary .markup block
  return first.output

/-! ## Later stages -/

/-- Folds the result of a stage in; a map that cannot be chained is a failure. -/
def absorb (acc : Accumulator) (stage : Output) : Traced Accumulator :=
  match acc.absorb stage with
  | .ok next => .done next
  | .error cause => .fail (.sourceMap cause)

/-- What a stage behind the first one is given. -/
def laterInput (block : Block) (acc : Accumulator) (attributes : Attributes) : StageInput :=
  { content := acc.code, markup := some block.markup, filename := block.filename,
    map := acc.map, attributes }

/-- Runs a stage behind the first one and folds its result in. -/
def laterStage (p : Preprocessor) (name : String) (options : ResolvedOptions) (block : Block)
    (acc : Accumulator) (attributes : Attributes) : Traced Accumulator := do
  let stage ← p.runStage name options (laterInput block acc attributes)
  absorb acc stage

/-! ## Script -/

/-- Whether the result of the first stage goes through typescript: it announces TypeScript, the
author did not declare it, and typescript is configured. -/
def isPromoted (p : Preprocessor) (acc : Accumulator) (declared : Option String) : Bool :=
  acc.announcedLanguage = some promotedLanguage && declared ≠ some "typescript" &&
    p.resolver.isConfigured "typescript"

/-- The typescript stage, if the result so far asks for it. -/
def typescriptStage (p : Preprocessor) (block : Block) (acc : Accumulator)
    (declared : Option String) : Traced Accumulator :=
  if p.isPromoted acc declared then
    -- Unlike babel, this stage does not fall back to the attributes of the tag.
    p.laterStage "typescript" (p.resolver.resolveStage "typescript") block acc
      (acc.attributes.getD .empty)
  else .done acc

def babelStage (p : Preprocessor) (block : Block) (acc : Accumulator) : Traced Accumulator :=
  if p.resolver.isConfigured "babel" then
    p.laterStage "babel" (p.resolver.resolveStage "babel") block acc
      (acc.attributes.getD block.attributes)
  else .done acc

def script (p : Preprocessor) (block : Block) : Traced Output := do
  let first ← p.primary .script block
  let acc ← p.typescriptStage block (.start first.output first.indentation) first.declared
  let acc ← p.babelStage block acc
  return acc.finish

/-! ## Style -/

/-- The name that a style block is written as, if it is a proper alias of its language. -/
def properAlias? (p : Preprocessor) (attributes : Attributes) : Except Failure (Option String) := do
  match ← p.resolver.registry.declared attributes with
  | some found =>
    return if found.written ≠ found.language ∧
        p.resolver.registry.isAliasOf found.written found.language then
      some found.written
    else none
  | none => return none

def postcssStage (p : Preprocessor) (block : Block) (acc : Accumulator) : Traced Accumulator :=
  if p.resolver.isConfigured "postcss" then do
    let written ← Run.ofExcept (p.properAlias? block.attributes)
    p.laterStage "postcss" (p.resolver.resolve "postcss" written true) block acc block.attributes
  else .done acc

def globalStage (p : Preprocessor) (block : Block) (acc : Accumulator) : Traced Accumulator :=
  p.laterStage "globalStyle" (p.resolver.resolveStage "globalStyle") block acc block.attributes

/-- The warning that a block asks for in vain for global rules. -/
def warnGlobal (block : Block) : Traced Unit :=
  match globalWarning? block.attributes with
  | some warning => Run.emit (.warned warning)
  | none => .done ()

def style (p : Preprocessor) (block : Block) : Traced Output := do
  let first ← p.primary .style block
  let acc := Accumulator.start first.output first.indentation
  if p.installed "postcss" then
    let acc ← p.postcssStage block acc
    let acc ← p.globalStage block acc
    return acc.finish
  else
    warnGlobal block
    return acc.finish

/-- Runs the pipeline of a block of some kind. -/
def process (p : Preprocessor) : BlockKind → Block → Traced Output
  | .markup => p.markup
  | .script => p.script
  | .style => p.style

end Preprocessor
end Inlay
