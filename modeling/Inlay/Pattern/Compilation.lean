import Inlay.Pattern.Parser
import Inlay.Pattern.Program
import Inlay.Pattern.Size

/-!
From the notation of a pattern to its program.

A text is refused if it is no pattern, and a pattern is refused if its automaton would be too
large.  The size is known before the program is built, so no large program is ever built.
-/

namespace Inlay
namespace Pattern

/-- Why there is no program for a text. -/
inductive PatternError where
  /-- The text is no pattern, or nested too deep. -/
  | malformed
  /-- The pattern takes more than the limit. -/
  | tooLarge
deriving Repr, DecidableEq

/-- The program of a text under modes. -/
def Program.ofText (modes : Modes) (text : String) : Except PatternError Program :=
  match parse? modes text with
  | none => .error .malformed
  | some parsed => if parsed.expr.fits then .ok parsed.compile else .error .tooLarge

end Pattern
end Inlay
