import Inlay.Pattern.Program
import Std.Data.HashSet

/-!
Finding the matches of a pattern.

A match starts as far left as possible; among the matches from one place the one wins that the
preferences of the pattern reach first.  Pairs of a node and a place are tried in that order and
each of them once, so a search takes no more steps than there are pairs.
-/

namespace Inlay
namespace Pattern

/-! ## Conditions -/

def wordBefore (text : Array Char) (place : Nat) : Bool :=
  0 < place && (text[place - 1]?.map isWordChar).getD false

def wordBehind (text : Array Char) (place : Nat) : Bool :=
  (text[place]?.map isWordChar).getD false

def isBefore (text : Array Char) (place : Nat) (c : Char) : Bool :=
  0 < place && text[place - 1]? = some c

def Assertion.holds (text : Array Char) (place : Nat) : Assertion → Bool
  | .textStart => place = 0
  | .textEnd => place = text.size
  | .lineStart => place = 0 || isBefore text place '\n'
  | .lineEnd => place = text.size || text[place]? = some '\n'
  | .lineStartAny =>
    place = 0 || isBefore text place '\n' ||
      (isBefore text place '\r' && text[place]? ≠ some '\n')
  | .lineEndAny =>
    place = text.size || text[place]? = some '\r' ||
      (text[place]? = some '\n' && !isBefore text place '\r')
  | .wordBoundary => wordBefore text place != wordBehind text place
  | .noWordBoundary => wordBefore text place == wordBehind text place
  | .wordStart => !wordBefore text place && wordBehind text place
  | .wordEnd => wordBefore text place && !wordBehind text place
  | .wordStartHalf => !wordBefore text place
  | .wordEndHalf => !wordBehind text place

/-! ## Matches -/

/-- Marked places by slot, the latest first.  Group `n` has the slots `2 * n` and `2 * n + 1`. -/
abbrev Marks := List (Nat × Nat)

/-- A match: where it starts and ends, and the places that its groups marked. -/
structure Match where
  start : Nat
  stop : Nat
  marks : Marks
deriving Repr, DecidableEq, Inhabited

/-- The place that a slot was marked at last. -/
def slotOf (marks : Marks) (slot : Nat) : Option Nat :=
  (marks.find? fun entry => entry.1 = slot).map (·.2)

/-- The bounds of a group; group 0 is the whole match. -/
def Match.group? (m : Match) (index : Nat) : Option (Nat × Nat) :=
  if index = 0 then some (m.start, m.stop)
  else do return (← slotOf m.marks (2 * index), ← slotOf m.marks (2 * index + 1))

/-! ## Search -/

/-- A pair of a node and a place that is still to be tried, with the marks on the way to it. -/
structure Thread where
  node : Nat
  place : Nat
  marks : Marks

/-- The pairs that have been tried, as numbers. -/
abbrev Visited := Std.HashSet Nat

/-- The threads behind a thread, the preferred one first, or the acceptance of the match. -/
def Thread.next (p : Program) (text : Array Char) (t : Thread) : Option (List Thread) :=
  match p.nodes[t.node]? with
  | some (.step s next) =>
    match text[t.place]? with
    | some c => some (if s.contains c then [⟨next, t.place + 1, t.marks⟩] else [])
    | none => some []
  | some (.fork first second) =>
    some [⟨first, t.place, t.marks⟩, ⟨second, t.place, t.marks⟩]
  | some (.mark slot next) => some [⟨next, t.place, (slot, t.place) :: t.marks⟩]
  | some (.test a next) =>
    some (if a.holds text t.place then [⟨next, t.place, t.marks⟩] else [])
  | some .accept => none
  | none => some []

/-- Tries threads in order, first the ones behind a thread and then the ones beside it.  `fuel`
bounds the number of threads. -/
def explore (p : Program) (text : Array Char) :
    Nat → List Thread → Visited → Option Thread × Visited
  | 0, _, visited => (none, visited)
  | _, [], visited => (none, visited)
  | fuel + 1, t :: rest, visited =>
    let pair := t.node * (text.size + 1) + t.place
    if visited.contains pair then explore p text fuel rest visited
    else
      match t.next p text with
      | none => (some t, visited)
      | some behind => explore p text fuel (behind ++ rest) (visited.insert pair)

/-- The number of threads that a search can come upon. -/
def threadBound (p : Program) (text : Array Char) : Nat :=
  2 * p.nodes.size * (text.size + 1) + 2

/-- The first match that starts at one of `count` places from `place` on. -/
def findFrom (p : Program) (text : Array Char) (visited : Visited) (place : Nat) :
    Nat → Option Match
  | 0 => none
  | count + 1 =>
    match explore p text (threadBound p text) [⟨p.start, place, []⟩] visited with
    | (some t, _) => some ⟨place, t.place, t.marks⟩
    | (none, visited) => findFrom p text visited (place + 1) count

/-- The first match that starts at a place or behind it. -/
def find? (p : Program) (text : Array Char) (place : Nat) : Option Match :=
  findFrom p text ∅ place (text.size + 1 - place)

/-- The match behind one that ends at `last`: an empty match directly there does not count. -/
def findNext? (p : Program) (text : Array Char) (last : Option Nat) (place : Nat) :
    Option Match :=
  match find? p text place with
  | some m =>
    if m.start = m.stop ∧ some m.stop = last then find? p text (place + 1) else some m
  | none => none

/-- Matches from left to right that do not overlap, at most `limit` of them. -/
def matchesFrom (p : Program) (text : Array Char) (last : Option Nat) (place : Nat) :
    Nat → List Match
  | 0 => []
  | limit + 1 =>
    match findNext? p text last place with
    | some m => m :: matchesFrom p text (some m.stop) m.stop limit
    | none => []

/-- All matches of a text.  Between two matches at least one place is left behind. -/
def allMatches (p : Program) (text : Array Char) : List Match :=
  matchesFrom p text none 0 (2 * text.size + 2)

end Pattern
end Inlay
