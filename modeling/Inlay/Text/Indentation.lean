import Inlay.Text.Blank
import Inlay.Text.Lines

/-!
The common indentation of a text, and its removal.

Indentation is a run of spaces and tabs at the front of a line, each of them one unit wide.  Lines
that are blank do not count for the common width.  Removal takes that width off every line that
has it, so all lines that carry code move left by the same amount and keep their endings.
-/

namespace Inlay
namespace Text

/-- The characters that indent a line. -/
def indents (c : Char) : Bool := c = ' ' || c = '\t'

/-- The number of spaces and tabs at the front of a line. -/
def indentOf (line : List Char) : Nat := (line.takeWhile indents).length

/-- The least indentation of the lines that are not blank; zero when all are. -/
def indentationOf (cs : List Char) : Nat :=
  ((((lines cs).filter fun line => !allBlank line).map indentOf).min?).getD 0

/-- A line without its first `width` characters if they all indent it, else the line itself. -/
def unindent (width : Nat) (line : List Char) : List Char :=
  if width ≤ indentOf line then line.drop width else line

/-- A text whose common indentation has been taken off, and how wide it was. -/
structure Stripped where
  content : String
  width : Nat
deriving Repr, DecidableEq

/-- Takes the common indentation off every line of a text. -/
def strip (text : String) : Stripped :=
  let width := indentationOf text.toList
  if width = 0 then ⟨text, 0⟩
  else ⟨String.ofList ((chunks text.toList).flatMap (unindent width)), width⟩

theorem unindent_zero (line : List Char) : unindent 0 line = line := by simp [unindent]

/-- What is taken off a line is indentation. -/
theorem unindent_eq_drop {width : Nat} {line : List Char} (h : width ≤ indentOf line) :
    unindent width line = line.drop width := by simp [unindent, h]

end Text
end Inlay
