import Inlay.Proofs.Outcome
import Inlay.Proofs.SourceMap.Grammar

/-!
# What decoding accepts and what it gives

The theorem this file exists for is `decode_iff_grammar_and_sums`: decoding succeeds exactly on the
texts that spell a table whose running sums stay in their range, and it gives these sums.

The cursor of the decoder is tied to the segments it has passed by `Cursor.Sums`.  One segment keeps
that relation (`segmentOf_eq_ok_iff`, `Cursor.Sums.pass`), and so do a line
(`decodePieces_eq_ok_iff`) and a text (`decodeLines_eq_ok_iff`) by induction.
-/

namespace Inlay

namespace Vlq

theorem spellsAll_nil_iff {values : List Int} : SpellsAll [] values ↔ values = [] := by
  cases values with
  | nil => exact iff_of_true rfl rfl
  | cons value values =>
    refine iff_of_false ?_ (List.cons_ne_nil value values)
    intro h
    obtain ⟨text, rest, hcs, hs, -⟩ := h
    exact hs.ne_nil (List.append_eq_nil_iff.1 hcs.symm).1

theorem spellsAll_cons_iff {cs : List Char} {value : Int} {values : List Int} :
    SpellsAll cs (value :: values) ↔
      ∃ rest, read cs = .ok (value, rest) ∧ SpellsAll rest values := by
  constructor
  · intro h
    obtain ⟨text, rest, rfl, hs, hrest⟩ := h
    exact ⟨rest, read_append hs rest, hrest⟩
  · intro h
    obtain ⟨rest, hread, hrest⟩ := h
    obtain ⟨text, rfl, hs⟩ := read_eq_ok_iff.1 hread
    exact ⟨text, rest, rfl, hs, hrest⟩

end Vlq

namespace Mappings

/-! ## One segment -/

theorem readValues_nil (room : Nat) : readValues room [] = .ok [] := by
  cases room <;> rfl

theorem readValues_eq_ok_iff {room : Nat} {cs : List Char} {values : List Int} :
    readValues room cs = .ok values ↔ Vlq.SpellsAll cs values ∧ values.length ≤ room := by
  induction room generalizing cs values with
  | zero =>
    cases cs with
    | nil =>
      rw [readValues_nil, Vlq.spellsAll_nil_iff, Except.ok.injEq, Nat.le_zero,
        List.length_eq_zero_iff, and_self, eq_comm]
    | cons c cs =>
      refine iff_of_false (by simp [readValues]) ?_
      intro h
      obtain ⟨hs, hlen⟩ := h
      rw [List.length_eq_zero_iff.1 (Nat.le_zero.1 hlen)] at hs
      exact List.cons_ne_nil c cs hs
  | succ room ih =>
    cases cs with
    | nil =>
      rw [readValues_nil, Vlq.spellsAll_nil_iff, Except.ok.injEq, eq_comm, iff_self_and]
      intro hvalues
      rw [hvalues]
      exact Nat.zero_le _
    | cons c cs =>
      rw [readValues, bind_eq_ok_iff]
      constructor
      · intro h
        obtain ⟨⟨value, rest⟩, hread, h⟩ := h
        obtain ⟨others, hothers, h⟩ := bind_eq_ok_iff.1 h
        obtain ⟨hs, hlen⟩ := ih.1 hothers
        obtain rfl : value :: others = values := by simpa using h
        exact ⟨Vlq.spellsAll_cons_iff.2 ⟨rest, hread, hs⟩, Nat.succ_le_succ hlen⟩
      · intro h
        obtain ⟨hs, hlen⟩ := h
        cases values with
        | nil => exact absurd hs (List.cons_ne_nil c cs)
        | cons value others =>
          obtain ⟨rest, hread, hrest⟩ := Vlq.spellsAll_cons_iff.1 hs
          refine ⟨(value, rest), hread, bind_eq_ok_iff.2 ⟨others, ?_, rfl⟩⟩
          exact ih.2 ⟨hrest, Nat.le_of_succ_le_succ hlen⟩

theorem advance_eq_ok_iff {field : SegmentField} {previous n : Nat} {difference : Int} :
    advance field previous difference = .ok n ↔
      InRange (previous + difference) ∧ n = ((previous : Int) + difference).toNat := by
  unfold advance InRange
  by_cases h : 0 ≤ (previous : Int) + difference ∧
      (previous : Int) + difference < Segment.fieldLimit
  · simp [h, eq_comm]
  · simp [h]

end Mappings

/-! ## The cursor and the segments it has passed -/

namespace Cursor

/-- What the next difference of a field is added to. -/
def get (c : Cursor) : SegmentField → Nat
  | .generatedColumn => c.generatedColumn
  | .sourceIndex => c.source
  | .originalLine => c.line
  | .originalColumn => c.column
  | .nameIndex => c.name

open Mappings

/-- A cursor stands behind the segments of `before` and of `line`: it holds their running sums,
which are in range. -/
structure Sums (c : Cursor) (before line : List Differences) : Prop where
  get_eq : ∀ field, (c.get field : Int) = runningSum before line field
  inRange : ∀ field, InRange (runningSum before line field)

theorem sums_start : start.Sums [] [] := by
  have hzero : ∀ field, runningSum [] [] field = 0 := by
    intro field; cases field <;> simp [runningSum, total]
  constructor
  · intro field; rw [hzero]; cases field <;> rfl
  · intro field; rw [hzero]; exact ⟨Int.le_refl 0, by decide⟩

theorem Sums.newLine {c : Cursor} {before line : List Differences} (h : c.Sums before line) :
    c.newLine.Sums (before ++ line) [] := by
  constructor
  · intro field
    rw [runningSum_newLine]
    by_cases hf : field = .generatedColumn
    · subst hf; rfl
    · rw [if_neg hf, ← h.get_eq field]
      cases field with
      | generatedColumn => exact absurd rfl hf
      | _ => rfl
  · intro field
    rw [runningSum_newLine]
    split
    · exact ⟨Int.le_refl 0, by decide⟩
    · exact h.inRange field

theorem Sums.inRange_get {c : Cursor} {before line : List Differences} (h : c.Sums before line)
    (field : SegmentField) : InRange (c.get field) := by
  rw [h.get_eq]
  exact h.inRange field

theorem Sums.runningSum_append_singleton {c : Cursor} {before line : List Differences}
    (h : c.Sums before line) (entry : Differences) (field : SegmentField) :
    runningSum before (line ++ [entry]) field =
      (c.get field : Int) + (entry[field.position]?).getD 0 := by
  rw [Mappings.runningSum_append_singleton, h.get_eq]

end Cursor

namespace Mappings

theorem originOf_eq_ok_iff {c : Cursor} {source line column : Int} {name : Option Int}
    {o : Origin} :
    originOf c source line column name = .ok o ↔
      InRange (c.source + source) ∧ InRange (c.line + line) ∧ InRange (c.column + column) ∧
        (∀ d, name = some d → InRange (c.name + d)) ∧
        o = ⟨((c.source : Int) + source).toNat, ((c.line : Int) + line).toNat,
          ((c.column : Int) + column).toNat, name.map fun d => ((c.name : Int) + d).toNat⟩ := by
  cases name with
  | none =>
    simp only [originOf, bind_eq_ok_iff, advance_eq_ok_iff, pure_eq_ok, Except.ok.injEq]
    constructor
    · intro h
      obtain ⟨_, ⟨h₁, rfl⟩, _, ⟨h₂, rfl⟩, _, ⟨h₃, rfl⟩, rfl⟩ := h
      exact ⟨h₁, h₂, h₃, by simp, rfl⟩
    · intro h
      obtain ⟨h₁, h₂, h₃, -, rfl⟩ := h
      exact ⟨_, ⟨h₁, rfl⟩, _, ⟨h₂, rfl⟩, _, ⟨h₃, rfl⟩, rfl⟩
  | some difference =>
    simp only [originOf, bind_eq_ok_iff, advance_eq_ok_iff, pure_eq_ok, Except.ok.injEq]
    constructor
    · intro h
      obtain ⟨_, ⟨h₁, rfl⟩, _, ⟨h₂, rfl⟩, _, ⟨h₃, rfl⟩, _, ⟨h₄, rfl⟩, rfl⟩ := h
      exact ⟨h₁, h₂, h₃, by simpa using h₄, rfl⟩
    · intro h
      obtain ⟨h₁, h₂, h₃, h₄, rfl⟩ := h
      exact ⟨_, ⟨h₁, rfl⟩, _, ⟨h₂, rfl⟩, _, ⟨h₃, rfl⟩, _, ⟨h₄ _ rfl, rfl⟩, rfl⟩

theorem IsFieldCount.le_maxFields {n : Nat} (h : IsFieldCount n) : n ≤ maxFields := by
  unfold IsFieldCount at h
  unfold maxFields
  omega

theorem length_of_segmentOf {c : Cursor} {entry : Differences} {s : Segment}
    (h : segmentOf c entry = .ok s) : IsFieldCount entry.length := by
  obtain ⟨_, -, h⟩ := bind_eq_ok_iff.1 h
  split at h
  · exact Or.inl rfl
  · exact Or.inr (Or.inl rfl)
  · exact Or.inr (Or.inr rfl)
  · cases h

theorem segmentOf_unmapped_iff {c : Cursor} {column : Int} {s : Segment} :
    segmentOf c [column] = .ok s ↔
      InRange (c.generatedColumn + column) ∧
        s = ⟨((c.generatedColumn : Int) + column).toNat, none⟩ := by
  simp [segmentOf, bind_eq_ok_iff, advance_eq_ok_iff, @eq_comm _ s]

theorem segmentOf_mapped_iff {c : Cursor} {column source line originalColumn : Int} {s : Segment} :
    segmentOf c [column, source, line, originalColumn] = .ok s ↔
      InRange (c.generatedColumn + column) ∧
        ∃ o, originOf c source line originalColumn none = .ok o ∧
          s = ⟨((c.generatedColumn : Int) + column).toNat, some o⟩ := by
  simp [segmentOf, bind_eq_ok_iff, advance_eq_ok_iff, @eq_comm _ s]

theorem segmentOf_named_iff {c : Cursor} {column source line originalColumn name : Int}
    {s : Segment} :
    segmentOf c [column, source, line, originalColumn, name] = .ok s ↔
      InRange (c.generatedColumn + column) ∧
        ∃ o, originOf c source line originalColumn (some name) = .ok o ∧
          s = ⟨((c.generatedColumn : Int) + column).toNat, some o⟩ := by
  simp [segmentOf, bind_eq_ok_iff, advance_eq_ok_iff, @eq_comm _ s]

theorem exists_of_isFieldCount {entry : Differences} (h : IsFieldCount entry.length) :
    (∃ a, entry = [a]) ∨ (∃ a b c d, entry = [a, b, c, d]) ∨
      ∃ a b c d e, entry = [a, b, c, d, e] := by
  rcases h with h | h | h
  · exact Or.inl (List.length_eq_one_iff.1 h)
  · exact Or.inr (Or.inl (List.length_eq_four.1 h))
  · obtain ⟨a, tail, rfl, htail⟩ := List.length_eq_succ_iff.1 h
    obtain ⟨b, c, d, e, rfl⟩ := List.length_eq_four.1 htail
    exact Or.inr (Or.inr ⟨a, b, c, d, e, rfl⟩)

/-- A segment is read exactly when the sums behind it are in range, and it consists of them.  The
sums of fields that it lacks are those of the cursor. -/
theorem segmentOf_eq_ok_iff {c : Cursor} {before line : List Differences} {entry : Differences}
    {s : Segment} (hc : c.Sums before line) (hlen : IsFieldCount entry.length) :
    segmentOf c entry = .ok s ↔
      (∀ field, InRange (runningSum before (line ++ [entry]) field)) ∧
        s = segmentAt before (line ++ [entry]) entry.length := by
  have hsum := hc.runningSum_append_singleton entry
  have hname : InRange c.name := hc.inRange_get .nameIndex
  rcases exists_of_isFieldCount hlen with ⟨a, rfl⟩ | ⟨a, b, d, e, rfl⟩ | ⟨a, b, d, e, f, rfl⟩
  · have hsource : InRange c.source := hc.inRange_get .sourceIndex
    have hline : InRange c.line := hc.inRange_get .originalLine
    have hcolumn : InRange c.column := hc.inRange_get .originalColumn
    rw [segmentOf_unmapped_iff, SegmentField.forall_iff]
    simp [segmentAt, hsum, Cursor.get, SegmentField.position, hsource, hline, hcolumn, hname]
  · rw [segmentOf_mapped_iff, SegmentField.forall_iff]
    simp [segmentAt, hsum, Cursor.get, SegmentField.position, originOf_eq_ok_iff, hname, and_assoc]
  · rw [segmentOf_named_iff, SegmentField.forall_iff]
    simp [segmentAt, hsum, Cursor.get, SegmentField.position, originOf_eq_ok_iff, and_assoc]

end Mappings

/-- The cursor moves on with the segment, whose fields are the new sums. -/
theorem Cursor.Sums.pass {c : Cursor} {before line : List Differences} {entry : Differences}
    (hc : c.Sums before line) (hlen : Mappings.IsFieldCount entry.length)
    (hrange : ∀ field, Mappings.InRange (Mappings.runningSum before (line ++ [entry]) field)) :
    (c.pass (Mappings.segmentAt before (line ++ [entry]) entry.length)).Sums before
      (line ++ [entry]) := by
  refine ⟨?_, hrange⟩
  intro field
  have hsum := hc.runningSum_append_singleton entry field
  have hnonneg := (hrange field).1
  rcases Mappings.exists_of_isFieldCount hlen with
    ⟨a, rfl⟩ | ⟨a, b, d, e, rfl⟩ | ⟨a, b, d, e, f, rfl⟩
  · cases field with
    | generatedColumn => exact Int.toNat_of_nonneg hnonneg
    | _ => rw [hsum]; exact (Int.add_zero _).symm
  · cases field with
    | nameIndex => rw [hsum]; exact (Int.add_zero _).symm
    | _ => exact Int.toNat_of_nonneg hnonneg
  · cases field <;> exact Int.toNat_of_nonneg hnonneg

theorem Cursor.exists_sums {before line : List Differences}
    (h : ∀ field, Mappings.InRange (Mappings.runningSum before line field)) :
    ∃ c : Cursor, c.Sums before line := by
  let sum (field : SegmentField) := (Mappings.runningSum before line field).toNat
  refine ⟨⟨sum .generatedColumn, sum .sourceIndex, sum .originalLine, sum .originalColumn,
    sum .nameIndex⟩, ?_, h⟩
  intro field
  cases field <;> exact Int.toNat_of_nonneg (h _).1

theorem Cursor.Sums.unique {c d : Cursor} {before line : List Differences}
    (hc : c.Sums before line) (hd : d.Sums before line) : c = d := by
  have hget : ∀ field, c.get field = d.get field := by
    intro field
    have h := (hc.get_eq field).trans (hd.get_eq field).symm
    exact Int.ofNat.inj h
  obtain ⟨h₁, h₂, h₃, h₄, h₅⟩ := SegmentField.forall_iff.1 hget
  cases c
  cases d
  simp_all [Cursor.get]

namespace Mappings

/-! ## Lines and texts -/

theorem decodePieces_filter (c : Cursor) (pieces : List (List Char)) :
    decodePieces c (pieces.filter (· ≠ [])) = decodePieces c pieces := by
  induction pieces generalizing c with
  | nil => rfl
  | cons piece pieces ih =>
    cases piece with
    | nil => exact ih c
    | cons d ds => simp [decodePieces, ← ih]

theorem decodePieces_cons_eq_ok_iff {c last : Cursor} {text : List Char}
    {texts : List (List Char)} {segments : List Segment} (hne : text ≠ []) :
    decodePieces c (text :: texts) = .ok (segments, last) ↔
      ∃ values s others, readValues maxFields text = .ok values ∧ segmentOf c values = .ok s ∧
        decodePieces (c.pass s) texts = .ok (others, last) ∧ segments = s :: others := by
  cases text with
  | nil => exact absurd rfl hne
  | cons d ds =>
    simp only [decodePieces, bind_eq_ok_iff, pure_eq_ok, Except.ok.injEq, Prod.mk.injEq,
      Prod.exists]
    constructor
    · intro h
      obtain ⟨values, hvalues, s, hs, others, _, hrest, rfl, rfl⟩ := h
      exact ⟨values, s, others, hvalues, hs, hrest, rfl⟩
    · intro h
      obtain ⟨values, s, others, hvalues, hs, hrest, rfl⟩ := h
      exact ⟨values, hvalues, s, hs, others, last, hrest, rfl, rfl⟩

/-- The pieces of a line give the segments of a row, and leave a cursor that holds its sums. -/
theorem decodePieces_eq_ok_iff {texts : List (List Char)} (hne : ∀ text ∈ texts, text ≠ [])
    {c last : Cursor} {before front : List Differences} {segments : List Segment}
    (hc : c.Sums before front) :
    decodePieces c texts = .ok (segments, last) ↔
      ∃ row, List.Forall₂ SpellsSegment texts row ∧ RowInRange before front row ∧
        segments = resolveRow before front row ∧ last.Sums before (front ++ row) := by
  induction texts generalizing c front segments with
  | nil =>
    -- nothing was passed, and the sums decide the cursor that is left
    constructor
    · intro h
      obtain ⟨rfl, rfl⟩ : [] = segments ∧ c = last := by simpa [decodePieces] using h
      exact ⟨[], .nil, by simp [RowInRange], rfl, by simpa using hc⟩
    · intro h
      obtain ⟨row, hrow, -, rfl, hlast⟩ := h
      cases hrow
      rw [List.append_nil] at hlast
      rw [hc.unique hlast]
      rfl
  | cons text texts ih =>
    rw [decodePieces_cons_eq_ok_iff (hne text List.mem_cons_self)]
    have hothers : ∀ t ∈ texts, t ≠ [] := fun t ht => hne t (List.mem_cons_of_mem text ht)
    constructor
    · intro h
      obtain ⟨entry, s, others, hread, hsegment, hrest, rfl⟩ := h
      have hlen := length_of_segmentOf hsegment
      have hspells : SpellsSegment text entry := ⟨(readValues_eq_ok_iff.1 hread).1, hlen⟩
      obtain ⟨hrange, rfl⟩ := (segmentOf_eq_ok_iff hc hlen).1 hsegment
      obtain ⟨row, hrow, hin, rfl, hlast⟩ := (ih hothers (hc.pass hlen hrange)).1 hrest
      refine ⟨entry :: row, .cons hspells hrow, ?_, ?_, ?_⟩
      · exact (rowInRange_cons before front row entry).2 ⟨hrange, hin⟩
      · rw [resolveRow_cons]
      · simpa [List.append_assoc] using hlast
    · intro h
      obtain ⟨row, hrow, hin, rfl, hlast⟩ := h
      cases hrow with
      | @cons _ entry _ row hspells hrow =>
        obtain ⟨hvalues, hlen⟩ := hspells
        obtain ⟨hrange, hin⟩ := (rowInRange_cons before front row entry).1 hin
        have hroom : entry.length ≤ maxFields := hlen.le_maxFields
        refine ⟨entry, _, _, readValues_eq_ok_iff.2 ⟨hvalues, hroom⟩,
          (segmentOf_eq_ok_iff hc hlen).2 ⟨hrange, rfl⟩, ?_, resolveRow_cons before front row entry⟩
        refine (ih hothers (hc.pass hlen hrange)).2 ⟨row, hrow, hin, rfl, ?_⟩
        simpa [List.append_assoc] using hlast

/-- The lines of a text give the mappings of a table.  The cursor holds the sums over the lines
before it. -/
theorem decodeLines_eq_ok_iff {lines : List (List Char)} {c : Cursor} {before : List Differences}
    {m : Mappings} (hc : c.newLine.Sums before []) :
    decodeLines c lines = .ok m ↔
      ∃ table, List.Forall₂ SpellsRow lines table ∧ TableInRange before table ∧
        m = resolve before table := by
  induction lines generalizing c before m with
  | nil =>
    constructor
    · intro h
      obtain rfl : [] = m := by simpa [decodeLines] using h
      exact ⟨[], .nil, by simp [TableInRange], rfl⟩
    · intro h
      obtain ⟨table, htable, -, rfl⟩ := h
      cases htable
      rfl
  | cons line lines ih =>
    have htexts : ∀ text ∈ segmentTexts line, text ≠ [] := by
      intro text htext
      simpa using (List.mem_filter.1 htext).2
    rw [decodeLines, Text.pieces_eq_splitOn, ← decodePieces_filter, bind_eq_ok_iff]
    constructor
    · intro h
      obtain ⟨⟨segments, last⟩, hline, h⟩ := h
      obtain ⟨rest, hrest, h⟩ := bind_eq_ok_iff.1 h
      obtain rfl : segments :: rest = m := by simpa using h
      obtain ⟨row, hrow, hin, rfl, hlast⟩ := (decodePieces_eq_ok_iff htexts hc).1 hline
      obtain ⟨table, htable, hins, rfl⟩ := (ih hlast.newLine).1 hrest
      exact ⟨row :: table, .cons hrow htable, (tableInRange_cons before row table).2 ⟨hin, hins⟩,
        (resolve_cons before row table).symm⟩
    · intro h
      obtain ⟨table, htable, hins, rfl⟩ := h
      cases htable with
      | @cons _ row _ table hrow htable =>
        obtain ⟨hin, hins⟩ := (tableInRange_cons before row table).1 hins
        -- the table does not mention the cursor behind the line, so it is made from the sums
        obtain ⟨last, hlast⟩ := Cursor.exists_sums (hin.behind hc.inRange)
        have hline := (decodePieces_eq_ok_iff htexts hc).2 ⟨row, hrow, hin, rfl, hlast⟩
        have hrest := (ih hlast.newLine).2 ⟨table, htable, hins, rfl⟩
        refine ⟨(_, last), hline, bind_eq_ok_iff.2 ⟨_, hrest, ?_⟩⟩
        rw [resolve_cons]
        rfl

/-- A row has as many segments as entries, and a table as many lines as rows. -/
theorem length_resolve {lines : List (List Char)} {table : List (List Differences)}
    (h : List.Forall₂ SpellsRow lines table) (before : List Differences) :
    List.Forall₂ (fun line segments => segments.length = (segmentTexts line).length) lines
      (resolve before table) := by
  induction h generalizing before with
  | nil => exact .nil
  | @cons line row lines table hrow _ ih =>
    rw [resolve_cons]
    refine .cons ?_ (ih (before ++ row))
    rw [resolveRow, List.length_mapIdx]
    exact hrow.length_eq.symm

theorem decode_eq_ok_iff {text : String} {m : Mappings} :
    decode text = .ok m ↔
      ∃ table, SpellsTable text table ∧ TableInRange [] table ∧ m = resolve [] table := by
  rw [decode, Text.pieces_eq_splitOn]
  exact decodeLines_eq_ok_iff Cursor.sums_start.newLine

/-- Decoding succeeds exactly on the texts of the grammar whose running sums stay in range.  Its
result are the running sums, with a line for each line of the text and a segment for each piece that
is not empty. -/
theorem decode_iff_grammar_and_sums (text : String) (m : Mappings) :
    (decode text = .ok m ↔
      ∃ table, SpellsTable text table ∧ TableInRange [] table ∧ m = resolve [] table) ∧
    (decode text = .ok m →
      List.Forall₂ (fun line segments => segments.length = (segmentTexts line).length)
        (lineTexts text) m) := by
  refine ⟨decode_eq_ok_iff, ?_⟩
  intro h
  obtain ⟨table, htable, -, rfl⟩ := decode_eq_ok_iff.1 h
  exact length_resolve htable []

/-- Empty pieces and lines, an unmapped segment, and a column that starts again. -/
example : decode "AAAA,,KAAE;;C,IACA" =
    .ok [[⟨0, some ⟨0, 0, 0, none⟩⟩, ⟨5, some ⟨0, 0, 2, none⟩⟩], [],
      [⟨1, none⟩, ⟨5, some ⟨0, 1, 2, none⟩⟩]] := by
  decide

end Mappings

end Inlay
