import Inlay.SourceMap.Mappings

/-!
Looking up where a generated position comes from.

The segments of a line are sorted by generated column, those with one column keeping their order.
A position belongs to the segments with the greatest column that is not behind it: to the first of
them when it stands exactly on that column, and to the last of them when it stands behind.
-/

namespace Inlay

/-- Mappings prepared for lookups: the segments of each line by generated column. -/
structure Lookup where
  lines : Mappings
deriving Repr, Inhabited

namespace Lookup

/-- Sorts the segments of a line by generated column; segments with one column keep their
order. -/
def sortLine (segments : List Segment) : List Segment :=
  segments.mergeSort fun a b => a.generatedColumn ≤ b.generatedColumn

/-- Prepares decoded mappings. -/
def ofMappings (mappings : Mappings) : Lookup := ⟨mappings.map sortLine⟩

def ofMap (map : SourceMap) : Except MapError Lookup := do return ofMappings (← map.decode)

/-- The segment of a sorted line that a column belongs to. -/
def segmentAt? (segments : List Segment) (column : Nat) : Option Segment :=
  let reached := segments.takeWhile fun s => s.generatedColumn ≤ column
  match reached.getLast? with
  | none => none
  | some last =>
    if last.generatedColumn = column then reached.find? fun s => s.generatedColumn = column
    else some last

/-- The original place of a generated position, if it has one. -/
def originAt? (l : Lookup) (line column : Nat) : Option Origin :=
  match l.lines[line]? with
  | none => none
  | some segments => (segmentAt? segments column).bind (·.origin)

end Lookup
end Inlay
