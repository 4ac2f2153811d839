import Inlay.Compiler.ErrorLocation
import Inlay.SourceMap.Basic
import Inlay.Json.Value

/-!
The Civet compiler as the adapter sees it: a function from a source and options to what it gives
or how it fails.
-/

namespace Inlay
namespace Civet

inductive Compiled where
  /-- Plain code, possibly with a map inside. -/
  | code (value : String)
  /-- Code beside a map. -/
  | codeWithMap (value : String) (map : Option SourceMap)
  /-- Anything else. -/
  | unexpected (value : Json)

inductive CompileError where
  | parse (error : ParseError)
  | other (message : String)
deriving Repr, DecidableEq

abbrev Compiler := String → Json.Fields → Except CompileError Compiled

end Civet
end Inlay
