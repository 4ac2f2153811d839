import Inlay.Proofs.Words
import Inlay.SourceMap.Mappings
import Inlay.Stage.Run

/-!
# Mappings on machine words

The decoder and the encoder of mappings with signed words of 64 bits in place of integers.  Nothing
here checks for overflow: a result that a word has no room for is cut off.  What could go wrong is
recorded instead.  Every operation that may overflow goes through `perform`, every running sum
that becomes a field through `narrow`, and the decoder notes what it holds at each step.
-/

namespace Inlay
namespace Machine

open Mappings (maxFields)

/-- The running sums of the decoder. -/
structure Sums where
  generatedColumn : Int64 := 0
  source : Int64 := 0
  line : Int64 := 0
  column : Int64 := 0
  name : Int64 := 0
deriving Repr, DecidableEq

def Sums.get (s : Sums) : SegmentField → Int64
  | .generatedColumn => s.generatedColumn
  | .sourceIndex => s.source
  | .originalLine => s.line
  | .originalColumn => s.column
  | .nameIndex => s.name

inductive Event where
  | performed (op : WordOperation)
  /-- A word was cut down to an unsigned one of 32 bits. -/
  | narrowed (word : Int64)
  /-- The places of the next digit were counted up. -/
  | movedUp (places : UInt32)
  /-- The bits of the digits that have been read so far. -/
  | partialResult (word : Int64)
  | decodedValue (word : Int64)
  | betweenSegments (sums : Sums)
deriving Repr, DecidableEq

abbrev Recorded (α : Type) := Run Event α

def perform (op : WordOperation) : Recorded Int64 := ⟨[.performed op], .ok op.result⟩

def narrow (word : Int64) : Recorded Nat := ⟨[.narrowed word], .ok (Words.lower word).toNat⟩

def moveUp (places : UInt32) : Recorded UInt32 := ⟨[.movedUp places], .ok (places + 5)⟩

def refuse {α : Type} (cause : MapError) : Recorded α := .fail (.sourceMap cause)

/-! ## Decoding -/

def readMagnitude (result : Int64) (shift : UInt32) : List Char → Recorded (Int64 × List Char)
  | [] => refuse .truncatedValue
  | c :: cs =>
    match Vlq.digit? c with
    | none => refuse (.invalidCharacter (Vlq.leadByte c))
    | some d => do
      let bits ← perform (.shiftLeft (.ofNat (d % 32)) shift)
      let total ← perform (.add result bits)
      Run.emit (.partialResult total)
      if d < 32 then return (total, cs)
      else do
        let next ← moveUp shift
        if 55 < next then refuse .overflow else readMagnitude total next cs

/-- The value of a magnitude, whose lowest bit is the sign. -/
def signed (magnitude : Int64) : Recorded Int64 :=
  if magnitude &&& 1 = 1 then perform (.negate (magnitude >>> 1)) else return magnitude >>> 1

def read (cs : List Char) : Recorded (Int64 × List Char) := do
  let (magnitude, rest) ← readMagnitude 0 0 cs
  let value ← signed magnitude
  Run.emit (.decodedValue value)
  return (value, rest)

def readValues : Nat → List Char → Recorded (List Int64)
  | _, [] => return []
  | 0, _ :: _ => refuse (.segmentArity (maxFields + 1))
  | room + 1, c :: cs => do
    let (value, rest) ← read (c :: cs)
    let values ← readValues room rest
    return value :: values

def advance (field : SegmentField) (previous difference : Int64) : Recorded Int64 := do
  let sum ← perform (.add previous difference)
  if sum < 0 ∨ 4294967295 < sum then refuse (.outOfRange field) else return sum

def originOf (s : Sums) (source line column : Int64) (name : Option Int64) :
    Recorded (Origin × Sums) := do
  let source ← advance .sourceIndex s.source source
  let line ← advance .originalLine s.line line
  let column ← advance .originalColumn s.column column
  match name with
  | none =>
    return (⟨← narrow source, ← narrow line, ← narrow column, none⟩,
      { s with source, line, column })
  | some difference => do
    let name ← advance .nameIndex s.name difference
    return (⟨← narrow source, ← narrow line, ← narrow column, some (← narrow name)⟩,
      { s with source, line, column, name })

def segmentOf (s : Sums) (values : List Int64) : Recorded (Segment × Sums) := do
  let generatedColumn ← advance .generatedColumn s.generatedColumn (values.headD 0)
  let s := { s with generatedColumn }
  match values with
  | [_] => return (⟨← narrow generatedColumn, none⟩, s)
  | [_, source, line, column] => do
    let (origin, s) ← originOf s source line column none
    return (⟨← narrow generatedColumn, some origin⟩, s)
  | [_, source, line, column, name] => do
    let (origin, s) ← originOf s source line column (some name)
    return (⟨← narrow generatedColumn, some origin⟩, s)
  | _ => refuse (.segmentArity values.length)

def decodePieces (s : Sums) : List (List Char) → Recorded (List Segment × Sums)
  | [] => do
    Run.emit (.betweenSegments s)
    return ([], s)
  | [] :: pieces => decodePieces s pieces
  | (d :: ds) :: pieces => do
    Run.emit (.betweenSegments s)
    let values ← readValues maxFields (d :: ds)
    let (segment, next) ← segmentOf s values
    let (segments, last) ← decodePieces next pieces
    return (segment :: segments, last)

def decodeLines (s : Sums) : List (List Char) → Recorded Mappings
  | [] => return []
  | line :: lines => do
    let (segments, last) ← decodePieces { s with generatedColumn := 0 } (Text.pieces ',' line)
    let rest ← decodeLines last lines
    return segments :: rest

def decode (text : String) : Recorded Mappings := decodeLines {} (Text.pieces ';' text.toList)

/-! ## Encoding -/

/-- The magnitude of a value, with its sign in the lowest bit. -/
def magnitude (value : Int64) : Recorded Int64 :=
  if value < 0 then do
    let opposite ← perform (.negate value)
    let doubled ← perform (.shiftLeft opposite 1)
    return doubled ||| 1
  else perform (.shiftLeft value 1)

/-- The digits of a magnitude.  Masks and shifts to the right cannot overflow. -/
def digits (word : Int64) : List Char :=
  let low := (word &&& 31).toInt.toNat
  let rest := word >>> 5
  if 0 < rest then Vlq.digit (32 + low) :: digits rest else [Vlq.digit low]
termination_by word.toInt.toNat
decreasing_by
  have hrest : (word >>> 5).toInt = word.toInt / 2 ^ 5 := Words.toInt_shiftRight word (by decide)
  have hpos : (0 : Int64).toInt < (word >>> 5).toInt := Int64.lt_iff_toInt_lt.1 (by assumption)
  rw [hrest, Int64.toInt_zero] at hpos
  omega

def write (value : Int64) : Recorded (List Char) := do
  let word ← magnitude value
  return digits word

def difference (previous next : Nat) : Recorded (List Char) := do
  let value ← perform (.subtract (.ofNat next) (.ofNat previous))
  write value

def encodeOrigin (c : Cursor) (o : Origin) : Recorded (List Char) := do
  let source ← difference c.source o.source
  let line ← difference c.line o.line
  let column ← difference c.column o.column
  let name ←
    match o.name with
    | none => pure []
    | some name => difference c.name name
  return source ++ line ++ column ++ name

def encodeSegment (c : Cursor) (s : Segment) : Recorded (List Char) := do
  let column ← difference c.generatedColumn s.generatedColumn
  let origin ←
    match s.origin with
    | none => pure []
    | some o => encodeOrigin c o
  return column ++ origin

def encodeSegments (c : Cursor) : List Segment → Recorded (List (List Char))
  | [] => return []
  | s :: rest => do
    let text ← encodeSegment c s
    let texts ← encodeSegments (c.pass s) rest
    return text :: texts

def encodeLines (c : Cursor) : Mappings → Recorded (List (List Char))
  | [] => return []
  | line :: lines => do
    let texts ← encodeSegments c.newLine line
    let rest ← encodeLines (line.foldl Cursor.pass c.newLine) lines
    return Text.joinWith [','] texts :: rest

def encode (mappings : Mappings) : Recorded String := do
  let lines ← encodeLines .start mappings
  return String.ofList (Text.joinWith [';'] lines)

/-! ## What runs stand for -/

variable {α β γ δ : Type} {related : α → β → Prop} {related' : γ → δ → Prop}

/-- What is to hold of the events of a run: nothing overflows or is cut off, twelve digits have 60
bits and stand for a value of 59, and the running sums between segments are fields. -/
def Event.Sound : Event → Prop
  | .performed op => op.IsExact
  | .narrowed word => ((Words.lower word).toNat : Int) = word.toInt
  | .movedUp places => (places + 5).toNat = places.toNat + 5
  | .partialResult word => 0 ≤ word.toInt ∧ word.toInt < 2 ^ 60
  | .decodedValue word => -2 ^ 59 < word.toInt ∧ word.toInt < 2 ^ 59
  | .betweenSegments sums =>
    ∀ field, 0 ≤ (sums.get field).toInt ∧ (sums.get field).toInt ≤ 4294967295

/-- Two outcomes are the same error, or results that are related. -/
inductive Agrees (related : α → β → Prop) : Except Failure α → Except MapError β → Prop
  | ok {value : α} {expected : β} (h : related value expected) :
    Agrees related (.ok value) (.ok expected)
  | error (cause : MapError) : Agrees related (.error (.sourceMap cause)) (.error cause)

/-- A run on words does what a computation on integers does, and all of its events are sound. -/
structure Refines (run : Recorded α) (expected : Except MapError β) (related : α → β → Prop) :
    Prop where
  sound : ∀ event ∈ run.events, event.Sound
  agrees : Agrees related run.outcome expected

theorem refines_return {value : α} {expected : β} (h : related value expected) :
    Refines (Run.done value) (.ok expected) related :=
  ⟨List.forall_mem_nil _, .ok h⟩

theorem refines_refuse (cause : MapError) : Refines (refuse cause) (.error cause) related :=
  ⟨List.forall_mem_nil _, .error cause⟩

/-- An operation whose result on integers is the value of a word gives that value. -/
theorem refines_perform {op : WordOperation} {n : Int} (hn : op.exact = n) (hword : InWord n)
    (hplaces : op.places < 64) : Refines (perform op) (.ok n) fun word n => word.toInt = n := by
  have hexact : op.IsExact := WordOperation.isExact_of_inWord (hn ▸ hword) hplaces
  exact ⟨List.forall_mem_singleton.2 hexact, .ok (hexact.toInt_result.trans hn)⟩

namespace Refines

theorem bind {first : Recorded α} {next : α → Recorded γ} {expected : Except MapError β}
    {expectedNext : β → Except MapError δ} (h : Refines first expected related)
    (hnext : ∀ value result, related value result →
      Refines (next value) (expectedNext result) related') :
    Refines (first >>= next) (expected >>= expectedNext) related' := by
  obtain ⟨events, outcome⟩ := first
  obtain ⟨hevents, hagrees⟩ := h
  cases hagrees with
  | error cause => exact ⟨hevents, .error cause⟩
  | ok hvalue =>
    obtain ⟨hmore, hlast⟩ := hnext _ _ hvalue
    exact ⟨List.forall_mem_append.2 ⟨hevents, hmore⟩, hlast⟩

theorem imp {run : Recorded α} {result : β} {other : γ} {weaker : α → γ → Prop}
    (h : Refines run (.ok result) related)
    (himp : ∀ value, related value result → weaker value other) :
    Refines run (.ok other) weaker := by
  obtain ⟨events, outcome⟩ := run
  obtain ⟨hevents, hagrees⟩ := h
  cases hagrees with
  | ok hvalue => exact ⟨hevents, .ok (himp _ hvalue)⟩

/-- A step of the machine whose result on integers is known, so that none is taken for it. -/
theorem andThen {first : Recorded α} {next : α → Recorded γ} {result : β}
    {expected : Except MapError δ} (h : Refines first (.ok result) related)
    (hnext : ∀ value, related value result → Refines (next value) expected related') :
    Refines (first >>= next) expected related' := by
  have hresult : Refines first (.ok result)
      fun value found => related value found ∧ found = result :=
    h.imp fun value hvalue => ⟨hvalue, rfl⟩
  show Refines (first >>= next) (Except.ok result >>= fun _ => expected) related'
  refine hresult.bind ?_
  rintro value _ ⟨hvalue, rfl⟩
  exact hnext value hvalue

theorem record {event : Event} {value : α} {next : α → Recorded γ} {expected : Except MapError δ}
    (hevent : event.Sound) (hnext : Refines (next value) expected related') :
    Refines (Run.andThen ⟨[event], .ok value⟩ next) expected related' :=
  ⟨List.forall_mem_cons.2 ⟨hevent, hnext.sound⟩, hnext.agrees⟩

end Refines

end Machine
end Inlay
