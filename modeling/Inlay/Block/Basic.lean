import Inlay.Block.Attributes
import Inlay.Block.Kind

/-!
Blocks as the host hands them over.
-/

namespace Inlay

/-- A block of a component file: the text between its tags, the whole file, and what is known
about it. -/
structure Block where
  content : String
  markup : String := ""
  filename : Option String := none
  attributes : Attributes := .empty
  dependencies : List String := []
  /-- The byte of the markup at which the content starts, when the host knows it. -/
  contentOffset : Option Nat := none
deriving Inhabited

end Inlay
