/-!
The kinds of blocks in a component file.
-/

namespace Inlay

inductive BlockKind where
  | markup
  | script
  | style
deriving Repr, DecidableEq, Inhabited

/-- The language that the host consumes for a kind of block. -/
def BlockKind.targetLanguage : BlockKind → String
  | .markup => "html"
  | .script => "javascript"
  | .style => "css"

end Inlay
