import Inlay.Stage.Transformer

/-!
The trace of a pipeline: which transformers it called with what, and what they gave.

A call keeps the whole run of its transformer, so that the notices of transformers and the
warnings of the pipeline itself stay apart.
-/

namespace Inlay

/-- Who is called in a stage: the transformer of a slot, or the function that a setting puts in
its place. -/
inductive Callee where
  | transformer (kind : TransformerKind)
  | override (setting : String)
deriving Repr, DecidableEq, Inhabited

/-- A call of a transformer, with what came of it. -/
structure Call where
  callee : Callee
  input : StageInput
  result : Run Notice Output

inductive Event where
  | called (call : Call)
  | warned (warning : Warning)

/-- A run of a pipeline or a part of it. -/
abbrev Traced (α : Type) := Run Event α

namespace Event

def calls (events : List Event) : List Call :=
  events.filterMap fun
    | .called call => some call
    | .warned _ => none

/-- The warnings of the pipeline itself among events, in their order. -/
def warnings (events : List Event) : List Warning :=
  events.filterMap fun
    | .called _ => none
    | .warned warning => some warning

theorem calls_append (a b : List Event) : calls (a ++ b) = calls a ++ calls b := by simp [calls]

theorem warnings_append (a b : List Event) : warnings (a ++ b) = warnings a ++ warnings b := by
  simp [warnings]

end Event

/-- Calls a transformer and records the call. -/
def Run.call (callee : Callee) (t : Transformer) (input : StageInput) : Traced Output :=
  ⟨[.called ⟨callee, input, t input⟩], (t input).outcome⟩

end Inlay
