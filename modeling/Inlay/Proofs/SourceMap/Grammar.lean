import Inlay.SourceMap.Mappings
import Inlay.Proofs.SourceMap.Vlq
import Inlay.Proofs.Text.Pieces
import Mathlib.Data.List.Forall2

/-!
# The grammar of mappings

A text of mappings is a table of differences: a row for each line, an entry for each segment, in an
entry the difference of each field that the segment has.  `SpellsTable` says which texts stand for
which tables, and `runningSum` adds the differences of a field up, for the generated column on the
line and for the other fields in the whole text.  Neither mentions the cursor of the decoder.
-/

namespace Inlay

/-! ## Spelled segments and tables -/

/-- A text is the texts of some values, one behind the other. -/
def Vlq.SpellsAll (cs : List Char) : List Int → Prop
  | [] => cs = []
  | value :: values => ∃ text rest, cs = text ++ rest ∧ Spells text value ∧ SpellsAll rest values

/-- The differences of a segment, in the order of its fields. -/
abbrev Differences := List Int

namespace Mappings

/-- A segment has its generated column, or an origin with it, or an origin with a name. -/
def IsFieldCount (n : Nat) : Prop := n = 1 ∨ n = 4 ∨ n = 5

/-- A text stands for a segment: it is its differences, of which there are not too few or many. -/
def SpellsSegment (text : List Char) (entry : Differences) : Prop :=
  Vlq.SpellsAll text entry ∧ IsFieldCount entry.length

/-- The texts of the segments of a line: its pieces without the empty ones. -/
def segmentTexts (line : List Char) : List (List Char) := (line.splitOn ',').filter (· ≠ [])

/-- The texts of the lines. -/
def lineTexts (text : String) : List (List Char) := text.toList.splitOn ';'

/-- A line stands for a row: every segment of it for an entry. -/
def SpellsRow (line : List Char) (row : List Differences) : Prop :=
  List.Forall₂ SpellsSegment (segmentTexts line) row

/-- A text stands for a table: every line of it for a row. -/
def SpellsTable (text : String) (table : List (List Differences)) : Prop :=
  List.Forall₂ SpellsRow (lineTexts text) table

end Mappings

/-! ## Running sums -/

/-- The place of a field among the differences of a segment.  A segment without an origin has only
the first, and one without a name lacks the last. -/
def SegmentField.position : SegmentField → Nat
  | .generatedColumn => 0
  | .sourceIndex => 1
  | .originalLine => 2
  | .originalColumn => 3
  | .nameIndex => 4

theorem SegmentField.forall_iff {p : SegmentField → Prop} :
    (∀ field, p field) ↔ p .generatedColumn ∧ p .sourceIndex ∧ p .originalLine ∧
      p .originalColumn ∧ p .nameIndex := by
  constructor
  · intro h
    exact ⟨h _, h _, h _, h _, h _⟩
  · intro h field
    obtain ⟨h₁, h₂, h₃, h₄, h₅⟩ := h
    cases field <;> assumption

namespace Mappings

/-- The sum of a field over the segments that have it. -/
def total (field : SegmentField) (entries : List Differences) : Int :=
  (entries.filterMap (·[field.position]?)).sum

/-- The running sum of a field at the end of `line`, which is a line up to some segment, when
`before` are the segments of the lines before it.  The generated column starts again on each
line. -/
def runningSum (before line : List Differences) : SegmentField → Int
  | .generatedColumn => total .generatedColumn line
  | field => total field (before ++ line)

/-- The range of a field. -/
def InRange (sum : Int) : Prop := 0 ≤ sum ∧ sum < Segment.fieldLimit

/-- The segment with the running sums at the end of `line`, of which `fields` are its own. -/
def segmentAt (before line : List Differences) (fields : Nat) : Segment :=
  let sum (field : SegmentField) := (runningSum before line field).toNat
  { generatedColumn := sum .generatedColumn
    origin :=
      if fields = 1 then none
      else some {
        source := sum .sourceIndex, line := sum .originalLine, column := sum .originalColumn,
        name := if fields = 5 then some (sum .nameIndex) else none } }

/-- The segments of a row.  `front` is the part of its line that stands before it. -/
def resolveRow (before front row : List Differences) : List Segment :=
  row.mapIdx fun j entry => segmentAt before (front ++ row.take (j + 1)) entry.length

/-- Whether every running sum at a segment of a row is in its range. -/
def RowInRange (before front row : List Differences) : Prop :=
  ∀ j < row.length, ∀ field, InRange (runningSum before (front ++ row.take (j + 1)) field)

/-- The mappings of a table.  `before` are the segments of the lines before it. -/
def resolve (before : List Differences) (table : List (List Differences)) : Mappings :=
  table.mapIdx fun i row => resolveRow (before ++ (table.take i).flatten) [] row

/-- Whether every running sum at a segment of a table is in its range. -/
def TableInRange (before : List Differences) (table : List (List Differences)) : Prop :=
  ∀ i row, table[i]? = some row → RowInRange (before ++ (table.take i).flatten) [] row

/-! ## One entry more -/

theorem total_append_singleton (field : SegmentField) (entries : List Differences)
    (entry : Differences) :
    total field (entries ++ [entry]) = total field entries + (entry[field.position]?).getD 0 := by
  unfold total
  rw [List.filterMap_append, List.sum_append]
  cases h : entry[field.position]? <;> simp [h]

/-- A running sum grows by the difference that the next segment has for its field. -/
theorem runningSum_append_singleton (before line : List Differences) (entry : Differences)
    (field : SegmentField) :
    runningSum before (line ++ [entry]) field =
      runningSum before line field + (entry[field.position]?).getD 0 := by
  cases field <;> simp only [runningSum, ← List.append_assoc] <;> exact total_append_singleton ..

/-- On a new line only the generated column changes. -/
theorem runningSum_newLine (before line : List Differences) (field : SegmentField) :
    runningSum (before ++ line) [] field =
      if field = .generatedColumn then 0 else runningSum before line field := by
  cases field <;> simp [runningSum, total]

theorem resolveRow_cons (before front row : List Differences) (entry : Differences) :
    resolveRow before front (entry :: row) =
      segmentAt before (front ++ [entry]) entry.length ::
        resolveRow before (front ++ [entry]) row := by
  simp [resolveRow, List.mapIdx_cons]

theorem rowInRange_cons (before front row : List Differences) (entry : Differences) :
    RowInRange before front (entry :: row) ↔
      (∀ field, InRange (runningSum before (front ++ [entry]) field)) ∧
        RowInRange before (front ++ [entry]) row := by
  rw [RowInRange, List.length_cons, Nat.forall_lt_succ_left]
  simp only [RowInRange, List.take_succ_cons, List.take_zero, List.append_assoc,
    List.singleton_append]

/-- What is in range at every segment of a row is in range behind it. -/
theorem RowInRange.behind {before front row : List Differences} (h : RowInRange before front row)
    (hfront : ∀ field, InRange (runningSum before front field)) (field : SegmentField) :
    InRange (runningSum before (front ++ row) field) := by
  cases row with
  | nil => rw [List.append_nil]; exact hfront field
  | cons entry row =>
    have hlast := h row.length (Nat.lt_succ_self _) field
    rwa [List.take_of_length_le (by simp)] at hlast

theorem resolve_cons (before row : List Differences) (table : List (List Differences)) :
    resolve before (row :: table) =
      resolveRow before [] row :: resolve (before ++ row) table := by
  simp [resolve, List.mapIdx_cons, List.append_assoc]

theorem tableInRange_cons (before row : List Differences) (table : List (List Differences)) :
    TableInRange before (row :: table) ↔
      RowInRange before [] row ∧ TableInRange (before ++ row) table := by
  constructor
  · intro h
    refine ⟨by simpa using h 0 row rfl, ?_⟩
    intro i other hi
    simpa [List.append_assoc] using h (i + 1) other hi
  · intro h i other hi
    obtain ⟨hrow, htable⟩ := h
    cases i with
    | zero =>
      obtain rfl : row = other := Option.some.inj hi
      simpa using hrow
    | succ i => simpa [List.append_assoc] using htable i other hi

end Mappings
end Inlay
