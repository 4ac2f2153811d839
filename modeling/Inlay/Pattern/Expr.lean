import Inlay.Pattern.CharSet

/-!
Patterns as expressions.
-/

namespace Inlay
namespace Pattern

/-- A condition on a place of the text. -/
inductive Assertion where
  | textStart
  | textEnd
  /-- Behind a line feed or at the start. -/
  | lineStart
  /-- In front of a line feed or at the end. -/
  | lineEnd
  /-- Like `lineStart`, where a carriage return and the line feed behind it are one ending. -/
  | lineStartAny
  /-- Like `lineEnd`, where a carriage return and the line feed behind it are one ending. -/
  | lineEndAny
  | wordBoundary
  | noWordBoundary
  | wordStart
  | wordEnd
  | wordStartHalf
  | wordEndHalf
deriving Repr, DecidableEq, Inhabited

inductive Expr where
  | empty
  /-- A text that is not empty. -/
  | literal (text : List Char)
  | set (s : CharSet)
  | assert (a : Assertion)
  | capture (index : Nat) (body : Expr)
  | concat (first rest : Expr)
  | either (preferred other : Expr)
  /-- Repeats the body; `greedy` prefers more repetitions to fewer. -/
  | repeated (body : Expr) (least : Nat) (most : Option Nat) (greedy : Bool)
deriving Repr, DecidableEq, Inhabited

namespace Expr

/-- Whether every match has at least one character. -/
def consumes : Expr → Bool
  | .empty => false
  | .literal _ => true
  | .set _ => true
  | .assert _ => false
  | .capture _ body => body.consumes
  | .concat a b => a.consumes || b.consumes
  | .either a b => a.consumes && b.consumes
  | .repeated body least _ _ => 0 < least && body.consumes

/-- Whether no match has a character.  A set counts as having matches, also the empty one. -/
def isZeroWidth : Expr → Bool
  | .empty => true
  | .literal _ => false
  | .set _ => false
  | .assert _ => true
  | .capture _ body => body.isZeroWidth
  | .concat a b => a.isZeroWidth && b.isZeroWidth
  | .either a b => a.isZeroWidth && b.isZeroWidth
  | .repeated body _ most _ => most.isSome && body.isZeroWidth

end Expr

/-- The modes of a pattern, which a group can change from its place on. -/
structure Modes where
  /-- Letters match in either case. -/
  ignoreCase : Bool := false
  /-- The anchors match at line endings. -/
  multiLine : Bool := false
  /-- The point matches line feeds. -/
  dotAll : Bool := false
  /-- Plain repetitions prefer fewer, marked ones more. -/
  swapGreed : Bool := false
  /-- Spaces and comments in the pattern do not count. -/
  ignoreSpace : Bool := false
  /-- A carriage return ends a line too. -/
  anyEnding : Bool := false
deriving Repr, DecidableEq, Inhabited

/-- A parsed pattern: the expression, and the numbers of the groups that have names. -/
structure Parsed where
  expr : Expr
  names : List (String × Nat)
deriving Repr, Inhabited

end Pattern
end Inlay
