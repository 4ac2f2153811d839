/-!
Engines for regular expressions.

The notation of regular expressions and the search for their matches belong to an engine, which
whoever runs the library brings along.  An engine compiles the text of an expression, or says what
is wrong with it, and lists the matches of a text from left to right.
-/

namespace Inlay
namespace Regex

/-- The modes in which an expression is compiled. -/
structure Modes where
  /-- Letters match in either case. -/
  ignoreCase : Bool := false
  /-- The anchors match at line endings. -/
  multiLine : Bool := false
  /-- The point matches line feeds. -/
  dotAll : Bool := false
deriving Repr, DecidableEq, Inhabited

/-- A match: where it starts and ends, counted in characters, and the bounds of its groups.  A group
that does not exist or took no part in the match has none; group 0 is the whole match. -/
structure Match where
  start : Nat
  stop : Nat
  numbered : Nat → Option (Nat × Nat)
  named : List Char → Option (Nat × Nat)

structure Engine where
  /-- Compiled expressions. -/
  Program : Type
  /-- Compiles the text of an expression, or says why it cannot be compiled. -/
  compile : Modes → String → Except String Program
  /-- The matches of a text that do not overlap, the leftmost first. -/
  matchesOf : Program → Array Char → List Match

/-! ## The order of matches -/

/-- Bounds between two places. -/
structure Between (start stop lo hi : Nat) : Prop where
  lo_le : lo ≤ start
  start_le : start ≤ stop
  stop_le : stop ≤ hi

theorem Between.mono {start stop lo lo' hi : Nat} (h : Between start stop lo' hi) (hlo : lo ≤ lo') :
    Between start stop lo hi where
  lo_le := Nat.le_trans hlo h.lo_le
  start_le := h.start_le
  stop_le := h.stop_le

/-- Matches up to `hi`, each of which starts where the one before it ends or behind that. -/
inductive InOrder (hi : Nat) : Nat → List Match → Prop
  | nil {place : Nat} : InOrder hi place []
  | cons {place : Nat} {m : Match} {ms : List Match} (hm : Between m.start m.stop place hi)
    (hms : InOrder hi m.stop ms) : InOrder hi place (m :: ms)

theorem InOrder.take {hi place : Nat} {ms : List Match} (h : InOrder hi place ms) (count : Nat) :
    InOrder hi place (ms.take count) := by
  induction h generalizing count with
  | nil =>
    rw [List.take_nil]
    exact .nil
  | cons hm _ ih =>
    cases count with
    | zero => exact .nil
    | succ count => exact .cons hm (ih count)

/-- The matches that an engine lists lie in the text and do not overlap. -/
def Engine.KeepsOrder (engine : Engine) : Prop :=
  ∀ (program : engine.Program) (text : Array Char),
    InOrder text.size 0 (engine.matchesOf program text)

end Regex
end Inlay
