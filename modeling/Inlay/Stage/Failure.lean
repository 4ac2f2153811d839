import Inlay.SourceMap.Error
import Inlay.Stage.Position

/-!
Why a stage, and with it the pipeline of a block, can fail.
-/

namespace Inlay

/-- The cause of a failure. -/
inductive Failure where
  /-- A compiler rejected the block at a position of the file. -/
  | located (error : LocatedError)
  /-- No transformer is registered under a name. -/
  | missingTransformer (name : String)
  /-- A transformer failed without a position. -/
  | transform (transformer message : String)
  /-- An attribute that must be a text is a flag. -/
  | invalidAttribute (name : String)
  /-- A source map could not be read. -/
  | sourceMap (cause : MapError)
deriving Repr, DecidableEq, Inhabited

/-- The text of a failure; one that comes from malformed JSON has no fixed text. -/
def Failure.message : Failure → Option String
  | .located error => some error.display
  | .missingTransformer name => some ("no transformer registered for `" ++ name ++ "`")
  | .transform transformer message => some (transformer ++ ": " ++ message)
  | .invalidAttribute name => some ("attribute `" ++ name ++ "` must be a string")
  | .sourceMap cause => cause.message.map fun text => "source map error: " ++ text

end Inlay
