import Inlay.Word

/-!
Source maps: documents that say where each part of a generated text comes from.

A document carries its mappings in encoded form.  Decoded, they are one list of segments for each
generated line; a segment names a generated column and, if it is mapped, a place in an original
source.
-/

namespace Inlay

/-- A place in an original source, with the index of the identifier that stands there.  Lines and
columns count from zero. -/
structure Origin where
  source : Nat
  line : Nat
  column : Nat
  name : Option Nat := none
deriving Repr, DecidableEq, Inhabited

/-- One segment of a generated line.  A segment without an origin only marks a column. -/
structure Segment where
  generatedColumn : Nat
  origin : Option Origin := none
deriving Repr, DecidableEq, Inhabited

/-- Decoded mappings: the segments of each generated line. -/
abbrev Mappings := List (List Segment)

/-- A source map document. -/
structure SourceMap where
  version : UInt32
  file : Option String := none
  sourceRoot : Option String := none
  sources : List String := []
  sourcesContent : List (Option String) := []
  names : List String := []
  mappings : String
deriving Repr, DecidableEq, Inhabited

/-- The fields of a segment whose running sums are bounded. -/
inductive SegmentField where
  | generatedColumn
  | sourceIndex
  | originalLine
  | originalColumn
  | nameIndex
deriving Repr, DecidableEq, Inhabited

/-- Why a source map cannot be read. -/
inductive MapError where
  /-- A byte that is no digit of base 64. -/
  | invalidCharacter (byte : UInt8)
  /-- A value whose last digit announces a further one. -/
  | truncatedValue
  /-- A value with too many digits. -/
  | overflow
  /-- A segment with a number of fields other than 1, 4 or 5. -/
  | segmentArity (count : Nat)
  /-- A running sum that leaves its range. -/
  | outOfRange (field : SegmentField)
  /-- A document that is not the JSON form of a source map. -/
  | malformedJson
deriving Repr, DecidableEq, Inhabited

namespace SourceMap

/-- The version of the format that is written. -/
def currentVersion : UInt32 := 3

end SourceMap

/-- Every field of a segment lies below this bound. -/
def Segment.fieldLimit : Nat := word32Limit

def Origin.Fits (o : Origin) : Prop :=
  o.source < Segment.fieldLimit ∧ o.line < Segment.fieldLimit ∧ o.column < Segment.fieldLimit ∧
    ∀ n, o.name = some n → n < Segment.fieldLimit

def Segment.Fits (s : Segment) : Prop :=
  s.generatedColumn < Segment.fieldLimit ∧ ∀ o, s.origin = some o → o.Fits

end Inlay
