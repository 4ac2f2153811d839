import Inlay.Pattern.Expr
import Std.Data.HashSet

/-!
The size of a pattern as an automaton over bytes.

The automaton reads the UTF-8 form of a text.  A state takes 32 bytes; in addition every step of a
state that has several takes 8, and every branch of a fork takes 4.  A copy of the body stands in
the automaton for each counted repetition, so `a{1000}{1000}` is large.

Sizes are taken for reading forward, where groups have states that mark their ends, and for
reading backward.  They are computed by walking through the pattern with a meter; the walk stops
when the limit is passed, so the counts of repetitions do not matter for its time.
-/

namespace Inlay
namespace Pattern

/-! ## Byte ranges -/

structure ByteRange where
  first : Nat
  last : Nat
deriving DecidableEq, Hashable

/-- The number of values of a run of continuation bytes. -/
def continuationValues : Nat → Nat
  | 0 => 1
  | count + 1 => 64 * continuationValues count

def continuation : ByteRange := ⟨0x80, 0xBF⟩

/-- The numbers from `first` to `last`, written with a leading byte from `base` on and a number of
continuation bytes, as sequences of byte ranges.  Each sequence stands for all of its
combinations. -/
def byteSequences (base : Nat) : Nat → Nat → Nat → List (List ByteRange)
  | 0, first, last => [[⟨base + first, base + last⟩]]
  | count + 1, first, last =>
    let unit := continuationValues (count + 1)
    let a := first / unit
    let b := last / unit
    let below (lead : Nat) (first last : Nat) : List (List ByteRange) :=
      (byteSequences 0x80 count first last).map fun s => ⟨base + lead, base + lead⟩ :: s
    if a = b then below a (first % unit) (last % unit)
    else
      let start := if first % unit = 0 then [] else below a (first % unit) (unit - 1)
      let stop := if last % unit = unit - 1 then [] else below b 0 (last % unit)
      let low := if start.isEmpty then a else a + 1
      let high := if stop.isEmpty then b else b - 1
      let whole :=
        if low ≤ high then
          [⟨base + low, base + high⟩ :: List.replicate (count + 1) continuation]
        else []
      start ++ whole ++ stop

/-- The ranges of code points with their leading bytes and their numbers of continuation
bytes. -/
def encodings : List (Nat × Nat × Nat × Nat) :=
  [(0, 0x7F, 0, 0), (0x80, 0x7FF, 0xC0, 1), (0x800, 0xD7FF, 0xE0, 2), (0xE000, 0xFFFF, 0xE0, 2),
   (0x10000, 0x10FFFF, 0xF0, 3)]

/-- The byte sequences of the characters of a set, in increasing order. -/
def CharSet.byteSequences (s : CharSet) : List (List ByteRange) :=
  s.ranges.flatMap fun (first, last) =>
    encodings.flatMap fun (low, high, base, count) =>
      if max first low ≤ min last high then
        Pattern.byteSequences base count (max first low) (min last high)
      else []

/-! ## Meters -/

/-- What an automaton takes so far: its states, and the bytes of their steps and branches. -/
structure Meter where
  states : Nat
  tables : Nat
deriving Repr, DecidableEq

namespace Meter

def bytes (m : Meter) : Nat := 32 * m.states + m.tables

/-- The greatest size of a pattern in bytes. -/
def limit : Nat := 10485760

/-- Adds a state with a table of some bytes. -/
def add (m : Meter) (table : Nat) : Meter := ⟨m.states + 1, m.tables + table⟩

/-- Adds a number of states without tables. -/
def addAll (m : Meter) (count : Nat) : Meter := ⟨m.states + count, m.tables⟩

def link (m : Meter) (isFork : Bool) : Meter := if isFork then ⟨m.states, m.tables + 4⟩ else m

/-- Adds a number of copies, up to the limit. -/
def repeated (copy : Meter → Meter) : Nat → Meter → Meter
  | 0, m => m
  | count + 1, m => if limit < m.bytes then m else repeated copy count (copy m)

end Meter

/-! ## Sets -/

def groupByLead : List (List ByteRange) → List (ByteRange × List (List ByteRange))
  | [] => []
  | [] :: rest => groupByLead rest
  | (r :: behind) :: rest =>
    match groupByLead rest with
    | (s, others) :: more =>
      if r = s then (r, behind :: others) :: more else (r, [behind]) :: (s, others) :: more
    | [] => [(r, [behind])]

/-- The states that read byte sequences forward, where a state is known by the sequences from
there on. -/
def statesOf (sequences : List (List ByteRange)) : Nat → List (List (List ByteRange))
  | 0 => []
  | depth + 1 =>
    match groupByLead sequences with
    | [] => []
    | groups => sequences :: groups.flatMap fun group => statesOf group.2 depth

/-- Adds a set that is read forward.  Equal states are one. -/
def Meter.addForward (m : Meter) (s : CharSet) : Meter :=
  (Std.HashSet.ofList (statesOf s.byteSequences 4)).fold
    (fun m sequences => m.add (8 * (groupByLead sequences).length)) (m.add 0)

/-- A state that reads a byte of a range and leads on to another state. -/
structure ByteStep where
  next : Nat
  range : ByteRange
deriving DecidableEq

/-- The slot of a step in a table of shared steps. -/
def ByteStep.slot (step : ByteStep) (slots : Nat) : Nat :=
  let mix (h : UInt64) (n : Nat) : UInt64 := (h ^^^ n.toUInt64) * 1099511628211
  (mix (mix (mix 14695981039346656037 step.next) step.range.first) step.range.last).toNat % slots

/-- The steps that can be shared, each with its state; a slot has room for the latest. -/
abbrev SharedSteps := Array (Option (ByteStep × Nat))

/-- Adds a step, unless the slot of the step has it. -/
def Meter.share (m : Meter) (shared : SharedSteps) (step : ByteStep) : Nat × Meter × SharedSteps :=
  let slot := step.slot shared.size
  match shared[slot]? with
  | some (some (known, state)) =>
    if known = step then (state, m, shared)
    else (m.states, m.add 0, shared.setIfInBounds slot (some (step, m.states)))
  | _ => (m.states, m.add 0, shared.setIfInBounds slot (some (step, m.states)))

/-- Adds the steps of a byte sequence, of which the first leads to a state. -/
def Meter.shareAll (m : Meter) (shared : SharedSteps) (next : Nat) :
    List ByteRange → Meter × SharedSteps
  | [] => (m, shared)
  | range :: rest =>
    let (state, m, shared) := m.share shared ⟨next, range⟩
    m.shareAll shared state rest

/-- Adds a set that is read backward: a fork with a branch for each byte sequence. -/
def Meter.addBackward (m : Meter) (s : CharSet) : Meter :=
  let sequences := s.byteSequences
  let stop := m.states + 1
  let fork := (m.add (4 * sequences.length)).add 0
  (sequences.foldl (fun (m, shared) sequence => Meter.shareAll m shared stop sequence)
    (fork, (Array.replicate 1000 none : SharedSteps))).1

/-- Adds a set.  One state reads the characters of ASCII. -/
def Meter.addSet (m : Meter) (backward : Bool) (s : CharSet) : Meter :=
  if s.ranges.all fun range => range.2 < 0x80 then (m.add 0).add (8 * s.ranges.length)
  else if backward then m.addBackward s
  else m.addForward s

/-! ## Choices between literals -/

def bytesOf (text : List Char) : List Nat :=
  (String.ofList text).toUTF8.toList.map UInt8.toNat

/-- Groups the words that start with the same byte, in the order of their first members, and takes
it away. -/
def groupByFirst (words : List (List Nat)) : List (List (List Nat)) :=
  let leads := (words.filterMap List.head?).eraseDups
  leads.map fun lead => words.filterMap fun word =>
    match word with
    | [] => none
    | byte :: rest => if byte = lead then some rest else none

/-- Adds the states that read one of several words, which are shared up to the first difference.
A word that ends parts the words in front of it from those behind, since these come later in the
order of preference. -/
def Meter.addWords (m : Meter) : Nat → List (List Nat) → Meter
  | 0, _ => m
  | depth + 1, words =>
    let groups := (words.splitOnP List.isEmpty).map groupByFirst
    let ends := groups.length - 1
    let steps := groups.filter fun group => !group.isEmpty
    if steps.isEmpty then m
    else
      let m := m.add (4 * (steps.length + ends))
      steps.foldl
        (fun m group =>
          group.foldl (fun m words => m.addWords depth words)
            (m.add (if group.length = 1 then 0 else 8 * group.length)))
        m

/-! ## Patterns -/

namespace Expr

def literal? : Expr → Option (List Char)
  | .literal text => some text
  | _ => none

/-- The texts of a choice between literals. -/
def words? : Expr → Option (List (List Char))
  | .either a b => do return (← a.literal?) :: (← b.words?)
  | e => e.literal?.map fun text => [text]

def isChoice : Expr → Bool
  | .either _ _ => true
  | _ => false

/-- Whether the last state of a pattern, in the order of reading, is a fork that may go round
again. -/
def endsInFork (backward : Bool) : Expr → Bool
  | .capture _ body => backward && body.endsInFork backward
  | .concat a b => if backward then a.endsInFork backward else b.endsInFork backward
  | .repeated body least none _ => 0 < least || body.consumes
  | .repeated body least (some most) _ => least = most && body.endsInFork backward
  | _ => false

end Expr

/-- Adds repetitions of a body that `one` adds and that may end in a fork. -/
def Meter.addRepetitions (m : Meter) (one : Meter → Meter) (isFork consumes : Bool) (least : Nat)
    (most : Option Nat) : Meter :=
  let copy (m : Meter) : Meter := (one m).link isFork
  match most, least with
  | some 1, 0 => (copy (m.add 8)).add 0
  | some most, least =>
    if least = most then one (Meter.repeated copy (most - 1) m)
    else
      let required := Meter.repeated copy least (if least = 0 then m.add 0 else m)
      Meter.repeated (fun m => copy (m.add 8)) (most - least) (required.add 0)
  | none, 0 => if consumes then copy (m.add 4) else (((copy m).add 8).add 8).add 0
  | none, least => (Meter.repeated copy least m).add 4

/-- Adds a pattern.  `isRest` tells that the pattern is the rest of a choice whose first branch has
been added. -/
def Meter.addExpr (backward isRest : Bool) : Expr → Meter → Meter
  | .empty, m => m.add 0
  | .literal text, m => m.addAll (bytesOf text).length
  | .set s, m => m.addSet backward s
  | .assert _, m => m.add 0
  | .capture _ body, m =>
    if backward then Meter.addExpr backward false body m
    else (Meter.addExpr backward false body (m.add 0)).add 0
  | .concat a b, m =>
    if backward then
      Meter.addExpr backward false a
        ((Meter.addExpr backward false b m).link (b.endsInFork backward))
    else
      Meter.addExpr backward false b
        ((Meter.addExpr backward false a m).link (a.endsInFork backward))
  | .either a b, m =>
    match if isRest then none else (Expr.either a b).words? with
    | some words =>
      let words := words.map fun word =>
        if backward then (bytesOf word).reverse else bytesOf word
      (m.add 0).addWords (words.foldl (fun n word => max n word.length) 0) words
    | none =>
      let branch (e : Expr) (m : Meter) : Meter := (m.link true).link (e.endsInFork backward)
      let m := Meter.addExpr backward true b (branch a (Meter.addExpr backward false a m))
      if b.isChoice then m else (branch b m).addAll 2
  | .repeated body least most _, m =>
    m.addRepetitions (Meter.addExpr backward false body) (body.endsInFork backward)
      body.consumes least most

/-- The size of a pattern for reading forward.  Three states look for its start, two mark the ends
of the match, and one accepts. -/
def Expr.forwardSize (e : Expr) : Nat :=
  ((Meter.addExpr false false e ⟨4, 16⟩).addAll 2).bytes

/-- The size of a pattern for reading backward. -/
def Expr.backwardSize (e : Expr) : Nat :=
  (((Meter.addExpr true false e ⟨3, 16⟩).link (e.endsInFork true)).add 0).bytes

/-- Whether a pattern is within the limit. -/
def Expr.fits (e : Expr) : Bool :=
  e.forwardSize ≤ Meter.limit && e.backwardSize ≤ Meter.limit

end Pattern
end Inlay
