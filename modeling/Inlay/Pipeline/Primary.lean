import Inlay.Block.Basic
import Inlay.Block.Preparation
import Inlay.Language.Detection
import Inlay.Options.Resolver
import Inlay.Stage.Trace

/-!
The first stage of a block: from the language that the block is written in towards the language
that the host consumes.

A block that is already in the target language passes through, unless its author wrote an alias
that a function overrides.
-/

namespace Inlay

/-- What runs the pipelines: settings, transformers, and which libraries the host has. -/
structure Preprocessor where
  resolver : Resolver
  workshop : Workshop
  installed : String → Bool

structure BlockLanguage where
  language : String
  written : String
  /-- The language that the author declared. -/
  declared : Option String
deriving Repr, DecidableEq, Inhabited

/-- The result of the first stage. -/
structure Primary where
  output : Output
  declared : Option String
  /-- The width of the indentation that was taken off before the stage. -/
  indentation : Nat
deriving Inhabited

namespace Preprocessor

/-- Runs one stage.  A disabled stage passes its content on; a function override sees neither the
file nor options. -/
def runStage (p : Preprocessor) (name : String) (options : ResolvedOptions) (input : StageInput) :
    Traced Output :=
  match options with
  | .disabled => .done (.ofCode input.content)
  | .override setting function =>
    Run.call (.override setting) function { input with markup := none, options := none }
  | .options value =>
    match p.workshop.find? name with
    | none => .fail (.missingTransformer name)
    | some (kind, t) =>
      Run.call (.transformer kind) t
        { input with options := (ResolvedOptions.options value).value? }

/-- The language of a block of some kind with the given attributes. -/
def languageOf (p : Preprocessor) (kind : BlockKind) (attributes : Attributes) :
    Except Failure BlockLanguage := do
  match ← p.resolver.registry.declared attributes with
  | some found => return ⟨found.language, found.written, some found.language⟩
  | none =>
    let target := kind.targetLanguage
    return ⟨p.resolver.registry.canonical target, target, none⟩

/-- Where the content of a block sits in its file.  Content that the host has not placed is
searched for, and counts from the first line if it does not occur. -/
def offsetOf (block : Block) (indentation : Nat) : BlockOffset :=
  let located :=
    match block.contentOffset with
    | some start => BlockOffset.at? block.markup start block.content
    | none => BlockOffset.locate? block.markup block.content
  ⟨(located.map (·.line)).getD 0, indentation⟩

/-- What the first stage of a block is given. -/
def primaryInput (block : Block) (prepared : Prepared) : StageInput :=
  { content := prepared.content, markup := some block.markup, filename := block.filename,
    attributes := block.attributes, offset := offsetOf block prepared.indentation }

/-- The result of the first stage for a block in the target language. -/
def passTarget (language : BlockLanguage) (options : ResolvedOptions) (block : Block)
    (prepared : Prepared) : Traced Output :=
  match options with
  | .override setting function =>
    -- Written by its own name, a target language is left alone by an override.
    if language.written ≠ language.language then
      Run.call (.override setting) function { primaryInput block prepared with markup := none }
    else .done { code := prepared.content, dependencies := block.dependencies }
  | _ => .done { code := prepared.content, dependencies := block.dependencies }

/-- Runs the first stage of a block. -/
def primary (p : Preprocessor) (kind : BlockKind) (block : Block) : Traced Primary := do
  let language ← Run.ofExcept (p.languageOf kind block.attributes)
  let options := p.resolver.resolve language.language (some language.written) false
  let prepared := Prepared.of (some options) block.content
  if language.language = kind.targetLanguage then
    let output ← passTarget language options block prepared
    return ⟨output, language.declared, prepared.indentation⟩
  else
    let output ← p.runStage language.language options (primaryInput block prepared)
    return ⟨{ output with dependencies := block.dependencies ++ output.dependencies },
      language.declared, prepared.indentation⟩

end Preprocessor
end Inlay
