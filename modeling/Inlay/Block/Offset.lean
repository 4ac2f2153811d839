import Inlay.Text.Position
import Inlay.Text.Indentation
import Inlay.Text.Search

/-!
Where the content of a block sits in its file.
-/

namespace Inlay

/-- The place of a block: how many lines of the file come before its content, and how wide an
indentation was taken off it. -/
structure BlockOffset where
  line : Nat := 0
  indentation : Nat := 0
deriving Repr, DecidableEq, Inhabited

namespace BlockOffset

/-- The place of content that starts at a byte of the markup, if the markup is that long. -/
def at? (markup : String) (start : Nat) (content : String) : Option BlockOffset :=
  (Text.placeOf? markup start).map fun place =>
    ⟨place.line, Text.indentationOf content.toList⟩

def firstOccurrence? (markup content : String) : Option Nat :=
  (Text.cutAt? content.toList markup.toList).map fun (before, _) => Text.byteLength before

/-- The place of the first occurrence of the content in the markup. -/
def locate? (markup content : String) : Option BlockOffset :=
  (firstOccurrence? markup content).bind fun start => at? markup start content

end BlockOffset
end Inlay
