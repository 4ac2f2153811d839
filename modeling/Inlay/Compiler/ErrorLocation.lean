import Inlay.Block.Offset
import Inlay.Compiler.ParseSummary
import Inlay.Stage.Failure
import Inlay.Stage.Output

/-!
Moving parse errors from a block to its file.

A compiler sees only the content of a block, with its indentation taken off, and counts lines and
columns from one.  In the file the line lies as much lower as the block does, and the column, which
counts from zero there, as much further right as the indentation was wide.

Positions are kept in words of 32 bits, and nothing checks the sums.  They are the sums of natural
numbers that stand here as long as the indentation and the column together fit a word; a column
behind that has no position in a file.
-/

namespace Inlay

structure ParseError where
  message : String
  line : Nat
  column : Nat
deriving Repr, DecidableEq, Inhabited

/-- How the parse errors of a block are reported. -/
structure ErrorReporting where
  offset : BlockOffset
  /-- Whether errors are reported at all; if not, they leave an empty result. -/
  reports : Bool := true
  /-- Whether long messages are condensed. -/
  summarizes : Bool := false
deriving Repr, DecidableEq, Inhabited

namespace ErrorReporting

/-- The position in the file of a position in the block. -/
def absolute (r : ErrorReporting) (line column : Nat) : Position :=
  ⟨r.offset.line + line, r.offset.indentation + column - 1⟩

/-- The message of an error, condensed if that is asked for and possible. -/
def messageOf (r : ErrorReporting) (message : String) : String :=
  if r.summarizes then (ParseSummary.summary? message).getD message else message

/-- The error in the file.  It covers one column. -/
def locate (r : ErrorReporting) (e : ParseError) (filename : Option String) : LocatedError :=
  let start := r.absolute e.line e.column
  { message := r.messageOf e.message, filename, start, stop := ⟨start.line, start.column + 1⟩ }

/-- The outcome of a stage whose compiler reports a parse error. -/
def outcome (r : ErrorReporting) (e : ParseError) (filename : Option String) :
    Except Failure Output :=
  if r.reports then .error (.located (r.locate e filename)) else .ok (.ofCode "")

end ErrorReporting
end Inlay
