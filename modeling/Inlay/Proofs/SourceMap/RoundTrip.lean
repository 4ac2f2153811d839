import Inlay.Proofs.SourceMap.Decoding

/-!
# Decoding what was encoded

The theorem this file exists for is `decode_encode`: mappings of any shape are found again, as long
as there is a line and every field fits its range.

`entryOf` are the differences that the encoder writes for a segment.  They spell its text
(`spellsAll_encodeSegment`) and the decoder adds them up to the segment again
(`segmentOf_entryOf`), so both go through the same cursors.  What decoding gives is of that kind:
it has a line and its fields fit (`ne_nil_of_decode`, `fits_of_decode`).
-/

namespace Inlay

/-- Whether the fields of all segments lie in their range. -/
def Mappings.Fits (m : Mappings) : Prop := ∀ line ∈ m, ∀ s ∈ line, s.Fits

namespace Vlq

theorem SpellsAll.append {cs ds : List Char} {values others : List Int}
    (h : SpellsAll cs values) (hd : SpellsAll ds others) :
    SpellsAll (cs ++ ds) (values ++ others) := by
  induction values generalizing cs with
  | nil =>
    obtain rfl : cs = [] := h
    exact hd
  | cons value values ih =>
    obtain ⟨text, rest, rfl, hs, hrest⟩ := h
    exact ⟨text, rest ++ ds, List.append_assoc .., hs, ih hrest⟩

theorem Spells.single {text : List Char} {value : Int} (h : Spells text value) :
    SpellsAll text [value] :=
  ⟨text, [], (List.append_nil text).symm, h, rfl⟩

theorem SpellsAll.not_separator {cs : List Char} {values : List Int} (h : SpellsAll cs values)
    {c : Char} (hc : c ∈ cs) : ¬(c = ',' ∨ c = ';') := by
  induction values generalizing cs with
  | nil =>
    obtain rfl : cs = [] := h
    exact absurd hc List.not_mem_nil
  | cons value values ih =>
    obtain ⟨text, rest, rfl, hs, hrest⟩ := h
    rcases List.mem_append.1 hc with hc | hc
    · exact hs.not_separator hc
    · exact ih hrest hc

end Vlq

/-! ## Cursors in range -/

namespace Cursor

/-- Whether everything that differences are taken from lies in its range. -/
def Fits (c : Cursor) : Prop := ∀ field, c.get field < Segment.fieldLimit

theorem fits_start : start.Fits := by
  intro field
  cases field <;> decide

theorem Fits.newLine {c : Cursor} (h : c.Fits) : c.newLine.Fits := by
  have hzero : 0 < Segment.fieldLimit := by decide
  exact SegmentField.forall_iff.2
    ⟨hzero, h .sourceIndex, h .originalLine, h .originalColumn, h .nameIndex⟩

theorem Fits.pass {c : Cursor} {s : Segment} (h : c.Fits) (hs : s.Fits) : (c.pass s).Fits := by
  obtain ⟨column, origin⟩ := s
  obtain ⟨hcolumn, horigin⟩ := hs
  refine SegmentField.forall_iff.2 ?_
  cases origin with
  | none => exact ⟨hcolumn, h .sourceIndex, h .originalLine, h .originalColumn, h .nameIndex⟩
  | some o =>
    obtain ⟨hsource, hline, hcol, hname⟩ := horigin o rfl
    refine ⟨hcolumn, hsource, hline, hcol, ?_⟩
    show o.name.getD c.name < Segment.fieldLimit
    cases hn : o.name with
    | none => exact h .nameIndex
    | some n => exact hname n hn

theorem Fits.passAll {c : Cursor} {line : List Segment} (h : c.Fits) (hl : ∀ s ∈ line, s.Fits) :
    (line.foldl Cursor.pass c).Fits := by
  induction line generalizing c with
  | nil => exact h
  | cons s line ih =>
    obtain ⟨hs, hline⟩ := List.forall_mem_cons.1 hl
    exact ih (h.pass hs) hline

end Cursor

namespace Mappings

/-! ## One segment -/

/-- The differences that are written for a segment. -/
def entryOf (c : Cursor) (s : Segment) : Differences :=
  ((s.generatedColumn : Int) - c.generatedColumn) ::
    match s.origin with
    | none => []
    | some o =>
      [(o.source : Int) - c.source, (o.line : Int) - c.line, (o.column : Int) - c.column] ++
        match o.name with
        | none => []
        | some n => [(n : Int) - c.name]

/-- The difference of two fields is far smaller than what twelve digits hold. -/
theorem spells_difference {previous next : Nat} (hp : previous < Segment.fieldLimit)
    (hn : next < Segment.fieldLimit) :
    Vlq.Spells (difference previous next) ((next : Int) - previous) := by
  refine Vlq.spells_write ?_
  unfold Segment.fieldLimit word32Limit at hp hn
  unfold Vlq.valueLimit
  omega

theorem spellsAll_encodeSegment {c : Cursor} {s : Segment} (hc : c.Fits) (hs : s.Fits) :
    Vlq.SpellsAll (encodeSegment c s) (entryOf c s) := by
  obtain ⟨column, origin⟩ := s
  obtain ⟨hcolumn, horigin⟩ := hs
  have hfirst := spells_difference (hc .generatedColumn) hcolumn
  cases origin with
  | none =>
    show Vlq.SpellsAll (difference c.generatedColumn column ++ []) [_]
    rw [List.append_nil]
    exact hfirst.single
  | some o =>
    obtain ⟨hsource, hline, hcol, hname⟩ := horigin o rfl
    have h₁ := spells_difference (hc .sourceIndex) hsource
    have h₂ := spells_difference (hc .originalLine) hline
    have h₃ := spells_difference (hc .originalColumn) hcol
    have horigin := (h₁.single.append h₂.single).append h₃.single
    refine hfirst.single.append (horigin.append ?_)
    cases hn : o.name with
    | none => rfl
    | some n => exact (spells_difference (hc .nameIndex) (hname n hn)).single

theorem advance_difference (field : SegmentField) (previous : Nat) {next : Nat}
    (hn : next < Segment.fieldLimit) :
    advance field previous ((next : Int) - previous) = .ok next := by
  have hsum : (previous : Int) + ((next : Int) - previous) = next := by omega
  rw [advance_eq_ok_iff, hsum]
  exact ⟨⟨Int.natCast_nonneg next, Int.ofNat_lt.2 hn⟩, rfl⟩

theorem segmentOf_entryOf (c : Cursor) {s : Segment} (hs : s.Fits) :
    segmentOf c (entryOf c s) = .ok s := by
  obtain ⟨column, origin⟩ := s
  obtain ⟨hcolumn, horigin⟩ := hs
  cases origin with
  | none => simp [entryOf, segmentOf, advance_difference _ _ hcolumn]
  | some o =>
    obtain ⟨source, line, col, name⟩ := o
    obtain ⟨hsource, hline, hcol, hname⟩ := horigin _ rfl
    cases name with
    | none =>
      simp [entryOf, segmentOf, originOf, advance_difference _ _ hcolumn,
        advance_difference _ _ hsource, advance_difference _ _ hline, advance_difference _ _ hcol]
    | some n =>
      simp [entryOf, segmentOf, originOf, advance_difference _ _ hcolumn,
        advance_difference _ _ hsource, advance_difference _ _ hline, advance_difference _ _ hcol,
        advance_difference _ _ (hname n rfl)]

/-! ## Lines and texts -/

theorem encodeSegments_spelled {c : Cursor} {line : List Segment} (hc : c.Fits)
    (hl : ∀ s ∈ line, s.Fits) :
    ∀ text ∈ encodeSegments c line, ∃ entry, Vlq.SpellsAll text entry := by
  induction line generalizing c with
  | nil => intro text h; cases h
  | cons s line ih =>
    intro text h
    obtain ⟨hs, hline⟩ := List.forall_mem_cons.1 hl
    rcases List.mem_cons.1 h with rfl | h
    · exact ⟨_, spellsAll_encodeSegment hc hs⟩
    · exact ih (hc.pass hs) hline text h

theorem pieces_encodeSegments {c : Cursor} {s : Segment} {line : List Segment} (hc : c.Fits)
    (hl : ∀ t ∈ s :: line, t.Fits) :
    Text.pieces ',' (Text.joinWith [','] (encodeSegments c (s :: line))) =
      encodeSegments c (s :: line) := by
  refine Text.pieces_joinWith ?_ (List.cons_ne_nil _ _)
  intro text h hmem
  obtain ⟨entry, hentry⟩ := encodeSegments_spelled hc hl text h
  exact hentry.not_separator hmem (Or.inl rfl)

/-- The segments of a line are found again, and both sides leave the line at the same cursor. -/
theorem decodePieces_encodeSegments {c : Cursor} {line : List Segment} (hc : c.Fits)
    (hl : ∀ s ∈ line, s.Fits) :
    decodePieces c (encodeSegments c line) = .ok (line, line.foldl Cursor.pass c) := by
  induction line generalizing c with
  | nil => rfl
  | cons s line ih =>
    obtain ⟨hs, hline⟩ := List.forall_mem_cons.1 hl
    have hspelled := spellsAll_encodeSegment hc hs
    have hsegment := segmentOf_entryOf c hs
    have hroom : (entryOf c s).length ≤ maxFields := (length_of_segmentOf hsegment).le_maxFields
    have hne : encodeSegment c s ≠ [] := by
      intro hnil
      rw [hnil, Vlq.spellsAll_nil_iff] at hspelled
      exact List.cons_ne_nil _ _ hspelled
    rw [encodeSegments, decodePieces_cons_eq_ok_iff hne]
    have hrest := ih (hc.pass hs) hline
    exact ⟨_, s, line, readValues_eq_ok_iff.2 ⟨hspelled, hroom⟩, hsegment, hrest, rfl⟩

theorem decodeLines_encodeLines {c : Cursor} {m : Mappings} (hc : c.Fits) (hm : m.Fits) :
    decodeLines c (encodeLines c m) = .ok m := by
  induction m generalizing c with
  | nil => rfl
  | cons line m ih =>
    obtain ⟨hl, hlines⟩ := List.forall_mem_cons.1 hm
    -- an empty line is cut into one empty piece, so only the others are what was joined
    have hcut : decodePieces c.newLine (Text.pieces ','
          (Text.joinWith [','] (encodeSegments c.newLine line))) =
        .ok (line, line.foldl Cursor.pass c.newLine) := by
      cases line with
      | nil => rfl
      | cons s line =>
        rw [pieces_encodeSegments hc.newLine hl]
        exact decodePieces_encodeSegments hc.newLine hl
    have hrest := ih (hc.newLine.passAll hl) hlines
    rw [encodeLines, decodeLines, hcut, ok_bind]
    show (decodeLines _ (encodeLines _ m) >>= _) = _
    rw [hrest]
    rfl

theorem encodeLines_not_semicolon {c : Cursor} {m : Mappings} (hc : c.Fits) (hm : m.Fits) :
    ∀ line ∈ encodeLines c m, ';' ∉ line := by
  induction m generalizing c with
  | nil => intro line h; cases h
  | cons segments m ih =>
    obtain ⟨hl, hlines⟩ := List.forall_mem_cons.1 hm
    intro line h hmem
    rcases List.mem_cons.1 h with rfl | h
    · rcases Text.mem_joinWith hmem with hsep | ⟨text, htext, hmem⟩
      · exact absurd hsep (by decide)
      · obtain ⟨entry, hentry⟩ := encodeSegments_spelled hc.newLine hl text htext
        exact hentry.not_separator hmem (Or.inr rfl)
    · exact ih (hc.newLine.passAll hl) hlines line h hmem

theorem pieces_encode {m : Mappings} (hne : m ≠ []) (hm : m.Fits) :
    Text.pieces ';' (encode m).toList = encodeLines .start m := by
  rw [encode, String.toList_ofList]
  refine Text.pieces_joinWith (encodeLines_not_semicolon Cursor.fits_start hm) ?_
  cases m with
  | nil => exact absurd rfl hne
  | cons line m => exact List.cons_ne_nil _ _

/-- Mappings with a line, whose fields fit, are found again. -/
theorem decode_encode {m : Mappings} (hne : m ≠ []) (hm : m.Fits) :
    decode (encode m) = .ok m := by
  rw [decode, pieces_encode hne hm]
  exact decodeLines_encodeLines Cursor.fits_start hm

/-- The greatest fields next to the least ones, on lines in no order. -/
def extremes : Mappings :=
  [[⟨4294967295, none⟩, ⟨0, some ⟨7, 4294967295, 0, some 4294967295⟩⟩], [],
    [⟨0, some ⟨0, 0, 4294967295, none⟩⟩, ⟨0, some ⟨0, 1, 0, some 0⟩⟩]]

theorem decode_encode_extremes :
    extremes ≠ [] ∧ extremes.Fits ∧ decode (encode extremes) = .ok extremes := by
  have hne : extremes ≠ [] := List.cons_ne_nil _ _
  have hfits : extremes.Fits := by
    simp [extremes, Fits, Segment.Fits, Origin.Fits, Segment.fieldLimit, word32Limit]
  exact ⟨hne, hfits, decode_encode hne hfits⟩

/-! ## What decoding gives -/

theorem InRange.toNat_lt {sum : Int} (h : InRange sum) : sum.toNat < Segment.fieldLimit := by
  have := h.1
  have := h.2
  omega

theorem segmentAt_fits {before line : List Differences}
    (h : ∀ field, InRange (runningSum before line field)) (fields : Nat) :
    (segmentAt before line fields).Fits := by
  refine ⟨(h .generatedColumn).toNat_lt, ?_⟩
  intro o ho
  simp only [segmentAt] at ho
  by_cases hone : fields = 1
  · simp [hone] at ho
  · rw [if_neg hone, Option.some.injEq] at ho
    subst ho
    refine ⟨(h .sourceIndex).toNat_lt, (h .originalLine).toNat_lt, (h .originalColumn).toNat_lt, ?_⟩
    intro n hn
    by_cases hfive : fields = 5
    · rw [if_pos hfive, Option.some.injEq] at hn
      subst hn
      exact (h .nameIndex).toNat_lt
    · simp [hfive] at hn

theorem resolveRow_fits {before front row : List Differences} (h : RowInRange before front row) :
    ∀ s ∈ resolveRow before front row, s.Fits := by
  induction row generalizing front with
  | nil => intro s hs; cases hs
  | cons entry row ih =>
    obtain ⟨hentry, hrow⟩ := (rowInRange_cons before front row entry).1 h
    intro s hs
    rw [resolveRow_cons] at hs
    rcases List.mem_cons.1 hs with rfl | hs
    · exact segmentAt_fits hentry entry.length
    · exact ih hrow s hs

theorem resolve_fits {before : List Differences} {table : List (List Differences)}
    (h : TableInRange before table) : (resolve before table).Fits := by
  induction table generalizing before with
  | nil => intro line hline; cases hline
  | cons row table ih =>
    obtain ⟨hrow, htable⟩ := (tableInRange_cons before row table).1 h
    intro line hline
    rw [resolve_cons] at hline
    rcases List.mem_cons.1 hline with rfl | hline
    · exact resolveRow_fits hrow
    · exact ih htable line hline

theorem fits_of_decode {text : String} {m : Mappings} (h : decode text = .ok m) : m.Fits := by
  obtain ⟨table, -, hrange, rfl⟩ := decode_eq_ok_iff.1 h
  exact resolve_fits hrange

theorem ne_nil_of_decode {text : String} {m : Mappings} (h : decode text = .ok m) : m ≠ [] := by
  obtain ⟨table, hspells, -, rfl⟩ := decode_eq_ok_iff.1 h
  have hlines : lineTexts text ≠ [] := List.splitOn_ne_nil ';' text.toList
  cases table with
  | nil => exact absurd (List.length_eq_zero_iff.1 hspells.length_eq) hlines
  | cons row table => rw [resolve_cons]; exact List.cons_ne_nil _ _

end Mappings

theorem SourceMap.decode_ofMappings (sources : List String) (sourcesContent : List (Option String))
    (names : List String) {m : Mappings} (hne : m ≠ []) (hm : m.Fits) :
    (ofMappings sources sourcesContent names m).decode = .ok m := by
  show Mappings.decode (Mappings.encode m) = .ok m
  rw [Mappings.decode, Mappings.pieces_encode hne hm]
  exact Mappings.decodeLines_encodeLines Cursor.fits_start hm

end Inlay
