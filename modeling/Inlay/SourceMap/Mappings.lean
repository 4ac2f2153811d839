import Inlay.SourceMap.Vlq
import Inlay.Text.Lines

/-!
The text form of mappings.

Lines are separated by semicolons and the segments of a line by commas.  The fields of a segment
are differences to a cursor: the generated column to the segment before it on its line, the other
fields to the last segment of the whole text that had them.  Decoding adds the differences up,
encoding takes them.
-/

namespace Inlay

/-- The values that the next segment is relative to. -/
structure Cursor where
  generatedColumn : Nat := 0
  source : Nat := 0
  line : Nat := 0
  column : Nat := 0
  name : Nat := 0
deriving Repr, DecidableEq, Inhabited

namespace Cursor

def start : Cursor := {}

def newLine (c : Cursor) : Cursor := { c with generatedColumn := 0 }

def pass (c : Cursor) (s : Segment) : Cursor :=
  match s.origin with
  | none => { c with generatedColumn := s.generatedColumn }
  | some o =>
    { generatedColumn := s.generatedColumn, source := o.source, line := o.line,
      column := o.column, name := o.name.getD c.name }

end Cursor

namespace Mappings

/-! ## Decoding -/

/-- The number of fields that a segment has at most. -/
def maxFields : Nat := 5

/-- Reads the values of a segment, of which `room` more are allowed. -/
def readValues : Nat → List Char → Except MapError (List Int)
  | _, [] => .ok []
  -- Reading stops at the first field too many, so this count is reported for all longer ones.
  | 0, _ :: _ => .error (.segmentArity (maxFields + 1))
  | room + 1, c :: cs => do
    let (value, rest) ← Vlq.read (c :: cs)
    let values ← readValues room rest
    return value :: values

/-- Adds a difference to a running sum, which must stay below `2 ^ 32` and not become negative. -/
def advance (field : SegmentField) (previous : Nat) (difference : Int) : Except MapError Nat :=
  let sum : Int := previous + difference
  if 0 ≤ sum ∧ sum < Segment.fieldLimit then .ok sum.toNat else .error (.outOfRange field)

/-- The origin whose fields are given as differences. -/
def originOf (c : Cursor) (source line column : Int) (name : Option Int) :
    Except MapError Origin := do
  let source ← advance .sourceIndex c.source source
  let line ← advance .originalLine c.line line
  let column ← advance .originalColumn c.column column
  match name with
  | none => return ⟨source, line, column, none⟩
  | some difference =>
    let name ← advance .nameIndex c.name difference
    return ⟨source, line, column, some name⟩

/-- The segment whose fields are given as differences.  The generated column is checked before
their number. -/
def segmentOf (c : Cursor) (values : List Int) : Except MapError Segment := do
  let generatedColumn ← advance .generatedColumn c.generatedColumn (values.headD 0)
  match values with
  | [_] => return ⟨generatedColumn, none⟩
  | [_, source, line, column] =>
    return ⟨generatedColumn, some (← originOf c source line column none)⟩
  | [_, source, line, column, name] =>
    return ⟨generatedColumn, some (← originOf c source line column (some name))⟩
  | _ => .error (.segmentArity values.length)

/-- Decodes the pieces of one line.  An empty piece stands for no segment. -/
def decodePieces (c : Cursor) : List (List Char) → Except MapError (List Segment × Cursor)
  | [] => .ok ([], c)
  | [] :: pieces => decodePieces c pieces
  | (d :: ds) :: pieces => do
    let segment ← segmentOf c (← readValues maxFields (d :: ds))
    let (segments, last) ← decodePieces (c.pass segment) pieces
    return (segment :: segments, last)

def decodeLines (c : Cursor) : List (List Char) → Except MapError Mappings
  | [] => .ok []
  | line :: lines => do
    let (segments, last) ← decodePieces c.newLine (Text.pieces ',' line)
    let rest ← decodeLines last lines
    return segments :: rest

def decode (text : String) : Except MapError Mappings :=
  decodeLines .start (Text.pieces ';' text.toList)

/-! ## Encoding -/

/-- The differences between two running sums as a value. -/
def difference (previous next : Nat) : List Char := Vlq.write ((next : Int) - previous)

/-- The text of the part of a segment that names its origin. -/
def encodeOrigin (c : Cursor) (o : Origin) : List Char :=
  difference c.source o.source ++ difference c.line o.line ++ difference c.column o.column ++
    match o.name with
    | none => []
    | some name => difference c.name name

def encodeSegment (c : Cursor) (s : Segment) : List Char :=
  difference c.generatedColumn s.generatedColumn ++
    match s.origin with
    | none => []
    | some o => encodeOrigin c o

def encodeSegments (c : Cursor) : List Segment → List (List Char)
  | [] => []
  | s :: rest => encodeSegment c s :: encodeSegments (c.pass s) rest

def encodeLines (c : Cursor) : Mappings → List (List Char)
  | [] => []
  | line :: lines =>
    Text.joinWith [','] (encodeSegments c.newLine line) ::
      encodeLines (line.foldl Cursor.pass c.newLine) lines

def encode (mappings : Mappings) : String :=
  String.ofList (Text.joinWith [';'] (encodeLines .start mappings))

end Mappings

def SourceMap.decode (map : SourceMap) : Except MapError Mappings := Mappings.decode map.mappings

/-- The document with the given mappings. -/
def SourceMap.ofMappings (sources : List String) (sourcesContent : List (Option String))
    (names : List String) (mappings : Mappings) : SourceMap :=
  { version := SourceMap.currentVersion, sources, sourcesContent, names,
    mappings := Mappings.encode mappings }

end Inlay
