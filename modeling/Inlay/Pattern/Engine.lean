import Inlay.Pattern.Compilation
import Inlay.Pattern.Matcher
import Inlay.Regex.Engine

/-!
Patterns as an engine for regular expressions.

The notation is the one of `Inlay.Pattern.Parser`.  It has no classes by Unicode property and no
mode for bytes: an engine that has them can stand in the place of this one.
-/

namespace Inlay
namespace Pattern

def PatternError.message : PatternError → String
  | .malformed => "regex parse error: no pattern, or nested too deep"
  | .tooLarge =>
    "Compiled regex exceeds size limit of " ++ toString Meter.limit ++ " bytes."

def Modes.ofRegex (modes : Regex.Modes) : Modes :=
  { ignoreCase := modes.ignoreCase, multiLine := modes.multiLine, dotAll := modes.dotAll }

/-- A match with the bounds of its groups, also by the names that the program gives them. -/
def Match.withGroups (p : Program) (m : Match) : Regex.Match where
  start := m.start
  stop := m.stop
  numbered := m.group?
  named := fun name =>
    (p.names.find? fun entry => entry.1.toList = name).bind fun entry => m.group? entry.2

def engine : Regex.Engine where
  Program := Program
  compile := fun modes text =>
    (Program.ofText (.ofRegex modes) text).mapError PatternError.message
  matchesOf := fun p text => (allMatches p text).map (Match.withGroups p)

end Pattern
end Inlay
