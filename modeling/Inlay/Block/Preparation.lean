import Inlay.Options.Setting
import Inlay.Text.Indentation

/-!
Preparing the content of a block for its first stage.

The option `stripIndent` takes off the common indentation, and `prependData` puts a text on lines
of its own in front of what is left.
-/

namespace Inlay

/-- Content as the first stage sees it, and the width of the indentation that was taken off. -/
structure Prepared where
  content : String
  indentation : Nat
deriving Repr, DecidableEq, Inhabited

namespace Prepared

/-- The content without its indentation, if the options ask for that. -/
def stripped (options : Json) (content : String) : Prepared :=
  if Json.flag (some options) "stripIndent" then
    let s := Text.strip content
    ⟨s.content, s.width⟩
  else ⟨content, 0⟩

/-- The content behind the text that the options prepend, if they name one. -/
def prepend (options : Json) (p : Prepared) : Prepared :=
  match (options.field? "prependData").bind Json.string? with
  | some data => { p with content := data ++ "\n" ++ p.content }
  | none => p

/-- The content prepared as the options ask; without options it stays as it is. -/
def of (options : Option ResolvedOptions) (content : String) : Prepared :=
  match options.bind (·.value?) with
  | some value => prepend value (stripped value content)
  | none => ⟨content, 0⟩

end Prepared
end Inlay
