import Inlay.Block.Attributes
import Inlay.Block.Offset
import Inlay.Stage.Kind
import Inlay.Stage.Output
import Inlay.Stage.Run
import Inlay.Stage.Warning

/-!
Transformers, and the slots that they are registered in.

A transformer is a function from what a stage is given to a run.  On its way it may call a
compiler and report conditions; both are notices.
-/

namespace Inlay

/-- What a transformer is given. -/
structure StageInput where
  content : String
  /-- The whole file; not passed to function overrides. -/
  markup : Option String := none
  filename : Option String := none
  /-- The map of the stages before, if they gave one. -/
  map : Option SourceMap := none
  attributes : Attributes := .empty
  /-- The resolved options; not passed to function overrides. -/
  options : Option Json := none
  /-- Where the content sits in the file; zero for generated content. -/
  offset : BlockOffset := {}
deriving Inhabited

/-- What a transformer lets happen: the call of a compiler, or a warning. -/
inductive Notice where
  | compiled (source : String) (options : Json.Fields)
  | warned (warning : Warning)

/-- One compiler of the pipeline. -/
abbrev Transformer := StageInput → Run Notice Output

/-- The transformers that are available, by their slot. -/
structure Workshop where
  transformer? : TransformerKind → Option Transformer

namespace Workshop

def empty : Workshop := ⟨fun _ => none⟩

def register (w : Workshop) (kind : TransformerKind) (t : Transformer) : Workshop :=
  ⟨fun k => if k = kind then some t else w.transformer? k⟩

/-- The slot and the transformer of a name, if there is one. -/
def find? (w : Workshop) (name : String) : Option (TransformerKind × Transformer) := do
  let kind ← TransformerKind.ofName? name
  let t ← w.transformer? kind
  return (kind, t)

end Workshop
end Inlay
