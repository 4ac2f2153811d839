import Inlay.Proofs.SourceMap.RoundTrip

/-!
# Canonical texts of mappings

Many texts decode to the same mappings: the decoder passes over commas that no segment follows, and
reads a value whatever digits of zero stand behind it and whatever the sign of a zero.  `Canonical`
are the texts that make use of none of this.  The theorem this file exists for is
`encode_eq_iff_canonical`: they are the texts that encoding gives back, and encoding gives no
others.

A text of values is cut behind every digit that announces no further one (`valueTexts`), so it
falls apart in one way only.  A value is the one that the writer spells exactly when its text is
canonical (`write_eq_iff`).  From there the encoder follows the decoder along the same cursors:
it writes the differences that were read (`entryOf_of_segmentOf`), so it writes the same pieces
(`encodeSegments_of_decodePieces`) and lines (`encodeLines_of_decodeLines`).
-/

namespace Inlay
namespace Vlq

/-! ## The values of a text -/

/-- Whether a digit announces a further one. -/
def announces (c : Char) : Bool :=
  match digit? c with
  | some d => 32 ≤ d
  | none => false

/-- The texts of the values that stand one behind the other. -/
def valueTexts : List Char → List (List Char)
  | [] => []
  | c :: cs =>
    if announces c then
      match valueTexts cs with
      | [] => [[c]]
      | text :: texts => (c :: text) :: texts
    else [c] :: valueTexts cs

theorem announces_eq {c : Char} {d : Nat} (h : digit? c = some d) :
    announces c = decide (32 ≤ d) := by
  rw [announces, h]

theorem flatten_valueTexts (cs : List Char) : (valueTexts cs).flatten = cs := by
  induction cs with
  | nil => rfl
  | cons c cs ih =>
    rw [valueTexts]
    by_cases hc : announces c
    · rw [if_pos hc]
      cases htexts : valueTexts cs with
      | nil => rw [htexts] at ih; simpa using ih
      | cons text texts => rw [htexts] at ih; simpa using ih
    · rw [if_neg hc, List.flatten_cons, ih]
      rfl

/-- The text of one value is cut off the front, whatever stands behind it. -/
theorem valueTexts_append {text : List Char} {announcing : List Nat} {last : Nat}
    (h : SpellsMagnitude text announcing last) (rest : List Char) :
    valueTexts (text ++ rest) = text :: valueTexts rest := by
  obtain ⟨hmap, hann, hlast⟩ := h
  induction announcing generalizing text with
  | nil =>
    obtain ⟨c, rfl, hc⟩ : ∃ c, text = [c] ∧ digit? c = some last := by
      simpa [List.map_eq_cons_iff] using hmap
    have hend : ¬ announces c := by rw [announces_eq hc]; simpa using hlast
    show valueTexts (c :: rest) = _
    rw [valueTexts, if_neg hend]
  | cons d announcing ih =>
    obtain ⟨c, cs, rfl, hc, hcs⟩ : ∃ c cs, text = c :: cs ∧ digit? c = some d ∧
        cs.map digit? = (announcing ++ [last]).map some := by
      simpa [List.map_eq_cons_iff] using hmap
    have hmore : announces c := by
      rw [announces_eq hc]
      exact decide_eq_true (hann d List.mem_cons_self)
    have hrest := ih hcs fun e he => hann e (List.mem_cons_of_mem d he)
    rw [List.cons_append, valueTexts, if_pos hmore, hrest]

/-- Values fall apart in one way only. -/
theorem SpellsAll.forall₂ {cs : List Char} {values : List Int} (h : SpellsAll cs values) :
    List.Forall₂ Spells (valueTexts cs) values := by
  induction values generalizing cs with
  | nil =>
    obtain rfl : cs = [] := h
    exact .nil
  | cons value values ih =>
    obtain ⟨text, rest, rfl, hs, hrest⟩ := h
    obtain ⟨_, _, hm, _⟩ := id hs
    rw [valueTexts_append hm]
    exact .cons hs (ih hrest)

/-! ## Canonical values -/

/-- The magnitude of a value with its sign bit, read off its text. -/
def magnitude (text : List Char) : Nat := magnitudeOf (text.filterMap digit?)

/-- A value is padded if its last digit, which carries its highest bits, is a zero that could be
left out. -/
def IsPadded (text : List Char) : Prop := text.getLast?.bind digit? = some 0 ∧ text.length ≠ 1

/-- A value is zero with its sign bit set. -/
def IsNegativeZero (text : List Char) : Prop :=
  magnitude text % 2 = 1 ∧ toInt (magnitude text) = 0

/-- A value is written with no digit and no sign that it could do without. -/
def Canonical (text : List Char) : Prop := ¬ IsPadded text ∧ ¬ IsNegativeZero text

instance : DecidablePred Canonical := fun _ =>
  inferInstanceAs (Decidable (¬ (_ ∧ _) ∧ ¬ (_ ∧ _)))

section SpellsMagnitude

variable {text : List Char} {announcing : List Nat} {last : Nat}

theorem SpellsMagnitude.filterMap_eq (h : SpellsMagnitude text announcing last) :
    text.filterMap digit? = announcing ++ [last] := by
  have hid : text.filterMap digit? = (text.map digit?).filterMap id := by
    rw [List.filterMap_map]
    rfl
  rw [hid, h.1, List.filterMap_map]
  exact List.filterMap_some

theorem SpellsMagnitude.isPadded_iff (h : SpellsMagnitude text announcing last) :
    IsPadded text ↔ last = 0 ∧ announcing ≠ [] := by
  have hlast : text.getLast?.bind digit? = some last := by
    have hmap : (text.map digit?).getLast? = some (some last) := by rw [h.1]; simp
    rw [List.getLast?_map] at hmap
    obtain ⟨c, hc, hdigit⟩ := Option.map_eq_some_iff.1 hmap
    rw [hc]
    exact hdigit
  have hlength : text.length = announcing.length + 1 := by
    simpa using congrArg List.length h.1
  rw [IsPadded, hlast, hlength, Option.some.injEq, ne_eq, Nat.add_eq_right, List.length_eq_zero_iff]

theorem SpellsMagnitude.isNegativeZero_iff (h : SpellsMagnitude text announcing last) :
    IsNegativeZero text ↔ magnitudeOf (announcing ++ [last]) = 1 := by
  rw [IsNegativeZero, magnitude, h.filterMap_eq]
  unfold toInt
  constructor
  · intro hzero
    obtain ⟨hodd, hvalue⟩ := hzero
    rw [if_pos hodd] at hvalue
    omega
  · intro hone
    rw [hone]
    decide

end SpellsMagnitude

/-! ## What the writer spells -/

/-- Every character that is a digit is the one that is written for it. -/
theorem digit_of_digit? {c : Char} {d : Nat} (h : digit? c = some d) : d < 64 ∧ digit d = c := by
  have hle : ∀ a b : Char, a ≤ b ↔ a.toNat ≤ b.toNat := fun a b => Iff.rfl
  have hof : ∀ n, c.toNat = n → Char.ofNat n = c := by
    intro n hn
    rw [← hn, Char.ofNat_toNat]
  simp only [digit?, Bool.and_eq_true, decide_eq_true_eq, hle, Char.reduceToNat] at h
  simp only [digit, Char.reduceToNat]
  -- by the range that the character lies in: upper case, lower case, decimal, and the two signs
  split at h
  · obtain rfl := Option.some.inj h
    rw [if_pos (by omega)]
    exact ⟨by omega, hof _ (by omega)⟩
  split at h
  · obtain rfl := Option.some.inj h
    rw [if_neg (by omega), if_pos (by omega)]
    exact ⟨by omega, hof _ (by omega)⟩
  split at h
  · obtain rfl := Option.some.inj h
    rw [if_neg (by omega), if_neg (by omega), if_pos (by omega)]
    exact ⟨by omega, hof _ (by omega)⟩
  split at h
  · rename_i hplus
    obtain rfl := Option.some.inj h
    exact ⟨by omega, hplus.symm⟩
  split at h
  · rename_i hslash
    obtain rfl := Option.some.inj h
    exact ⟨by omega, hslash.symm⟩
  · cases h

theorem magnitudeOf_ne_zero {last : Nat} (hlt : last < 32) (hne : last ≠ 0)
    (announcing : List Nat) : magnitudeOf (announcing ++ [last]) ≠ 0 := by
  induction announcing with
  | nil => rwa [List.nil_append, magnitudeOf_singleton hlt]
  | cons d announcing ih =>
    rw [List.cons_append, magnitudeOf]
    omega

/-- Digits without padding are those that are written for their magnitude. -/
theorem writeMagnitude_magnitudeOf {text : List Char} {announcing : List Nat} {last : Nat}
    (h : SpellsMagnitude text announcing last) (hlast : last = 0 → announcing = []) :
    writeMagnitude (magnitudeOf (announcing ++ [last])) = text := by
  obtain ⟨hmap, hann, hlt⟩ := h
  induction announcing generalizing text with
  | nil =>
    obtain ⟨c, rfl, hc⟩ : ∃ c, text = [c] ∧ digit? c = some last := by
      simpa [List.map_eq_cons_iff] using hmap
    rw [List.nil_append, magnitudeOf_singleton hlt, writeMagnitude, if_pos hlt,
      (digit_of_digit? hc).2]
  | cons d announcing ih =>
    obtain ⟨c, cs, rfl, hc, hcs⟩ : ∃ c cs, text = c :: cs ∧ digit? c = some d ∧
        cs.map digit? = (announcing ++ [last]).map some := by
      simpa [List.map_eq_cons_iff] using hmap
    obtain ⟨hd64, hdigit⟩ := digit_of_digit? hc
    have hd : 32 ≤ d := hann d List.mem_cons_self
    -- a digit stands behind this one, so what is left of the magnitude is not zero
    have hne : last ≠ 0 := fun hzero => List.cons_ne_nil d announcing (hlast hzero)
    have hleft : magnitudeOf (announcing ++ [last]) ≠ 0 := magnitudeOf_ne_zero hlt hne announcing
    have hwritten : writeMagnitude (magnitudeOf (announcing ++ [last])) = cs :=
      ih (fun hzero => absurd hzero hne) hcs fun e he => hann e (List.mem_cons_of_mem d he)
    have hlow : 32 + (d % 32 + 32 * magnitudeOf (announcing ++ [last])) % 32 = d := by omega
    have hhigh : (d % 32 + 32 * magnitudeOf (announcing ++ [last])) / 32 =
        magnitudeOf (announcing ++ [last]) := by omega
    rw [List.cons_append, magnitudeOf, writeMagnitude, if_neg (by omega), hlow, hhigh, hwritten,
      hdigit]

theorem ofInt_toInt {n : Nat} (h : n ≠ 1) : ofInt (toInt n) = n := by
  unfold ofInt toInt
  split <;> split <;> omega

theorem spellsMagnitude_write (value : Int) :
    ∃ announcing last, SpellsMagnitude (write value) announcing last ∧
      magnitudeOf (announcing ++ [last]) = ofInt value ∧ (last = 0 → announcing = []) := by
  have hlt : ofInt value < 32 ^ (ofInt value + 1) :=
    Nat.lt_trans (Nat.lt_succ_self _) (Nat.lt_pow_self (by decide))
  obtain ⟨announcing, last, hm, -, hmag, hshort⟩ := spellsMagnitude_writeMagnitude hlt
  exact ⟨announcing, last, hm, hmag, hshort⟩

theorem canonical_write (value : Int) : Canonical (write value) := by
  obtain ⟨announcing, last, hm, hmag, hshort⟩ := spellsMagnitude_write value
  constructor
  · rw [hm.isPadded_iff]
    intro hpadded
    exact hpadded.2 (hshort hpadded.1)
  · rw [hm.isNegativeZero_iff, hmag]
    unfold ofInt
    split <;> omega

/-- The writer spells a value as its text does exactly when that text is canonical. -/
theorem write_eq_iff {text : List Char} {value : Int} (h : Spells text value) :
    write value = text ↔ Canonical text := by
  constructor
  · intro hwritten
    rw [← hwritten]
    exact canonical_write value
  · intro hcanonical
    obtain ⟨announcing, last, hm, -, rfl⟩ := h
    obtain ⟨hpadded, hzero⟩ := hcanonical
    rw [hm.isPadded_iff, not_and, not_not] at hpadded
    rw [hm.isNegativeZero_iff] at hzero
    rw [write, ofInt_toInt hzero, writeMagnitude_magnitudeOf hm hpadded]

theorem valueTexts_flatMap_write (values : List Int) :
    valueTexts (values.flatMap write) = values.map write := by
  induction values with
  | nil => rfl
  | cons value values ih =>
    obtain ⟨_, _, hm, -⟩ := spellsMagnitude_write value
    rw [List.flatMap_cons, valueTexts_append hm, ih, List.map_cons]

theorem flatMap_write_of_canonical {cs : List Char} {values : List Int} (h : SpellsAll cs values)
    (hcanonical : ∀ text ∈ valueTexts cs, Canonical text) : values.flatMap write = cs := by
  have hall : ∀ {texts : List (List Char)} {values : List Int}, List.Forall₂ Spells texts values →
      (∀ text ∈ texts, Canonical text) → values.map write = texts := by
    intro texts values hspells
    induction hspells with
    | nil => exact fun _ => rfl
    | cons hs _ ih =>
      intro hcanonical
      obtain ⟨hfirst, hrest⟩ := List.forall_mem_cons.1 hcanonical
      rw [List.map_cons, (write_eq_iff hs).2 hfirst, ih hrest]
  rw [List.flatMap_def, hall h.forall₂ hcanonical, flatten_valueTexts]

end Vlq

namespace Mappings

/-! ## Canonical texts -/

/-- A line is canonical if no piece of it is empty, unless the line is, and its values are. -/
def CanonicalLine (line : List Char) : Prop :=
  ∀ piece ∈ line.splitOn ',', (piece = [] → line = []) ∧
    ∀ value ∈ Vlq.valueTexts piece, Vlq.Canonical value

/-- A text of mappings that holds nothing that could be left out. -/
def Canonical (text : String) : Prop := ∀ line ∈ lineTexts text, CanonicalLine line

instance : DecidablePred CanonicalLine := fun line =>
  inferInstanceAs (Decidable (∀ piece ∈ line.splitOn ',', _ ∧ ∀ value ∈ Vlq.valueTexts piece, _))

instance : DecidablePred Canonical := fun text =>
  inferInstanceAs (Decidable (∀ line ∈ lineTexts text, CanonicalLine line))

/-! ## What the encoder writes -/

theorem encodeSegment_eq (c : Cursor) (s : Segment) :
    encodeSegment c s = (entryOf c s).flatMap Vlq.write := by
  obtain ⟨column, origin⟩ := s
  cases origin with
  | none => simp [encodeSegment, entryOf, difference]
  | some o =>
    obtain ⟨source, line, col, name⟩ := o
    cases name <;> simp [encodeSegment, encodeOrigin, entryOf, difference]

/-- The differences that are written for a segment are those that it was read from. -/
theorem entryOf_of_segmentOf {c : Cursor} {entry : Differences} {s : Segment}
    (h : segmentOf c entry = .ok s) : entryOf c s = entry := by
  have hback : ∀ {previous : Nat} {d : Int}, InRange (previous + d) →
      (((previous : Int) + d).toNat : Int) - previous = d := by
    intro previous d hrange
    rw [Int.toNat_of_nonneg hrange.1]
    omega
  rcases exists_of_isFieldCount (length_of_segmentOf h) with
    ⟨a, rfl⟩ | ⟨a, b, d, e, rfl⟩ | ⟨a, b, d, e, f, rfl⟩
  · obtain ⟨ha, rfl⟩ := segmentOf_unmapped_iff.1 h
    simp only [entryOf, hback ha]
  · obtain ⟨ha, o, ho, rfl⟩ := segmentOf_mapped_iff.1 h
    obtain ⟨hb, hd, he, -, rfl⟩ := originOf_eq_ok_iff.1 ho
    simp only [entryOf, hback ha, hback hb, hback hd, hback he, Option.map_none, List.append_nil]
  · obtain ⟨ha, o, ho, rfl⟩ := segmentOf_named_iff.1 h
    obtain ⟨hb, hd, he, hf, rfl⟩ := originOf_eq_ok_iff.1 ho
    simp only [entryOf, hback ha, hback hb, hback hd, hback he, hback (hf f rfl), Option.map_some,
      List.cons_append, List.nil_append]

/-- The pieces of a line are written again, and both sides leave the line at the same cursor. -/
theorem encodeSegments_of_decodePieces {c last : Cursor} {texts : List (List Char)}
    {segments : List Segment} (hne : ∀ text ∈ texts, text ≠ [])
    (hcanonical : ∀ text ∈ texts, ∀ value ∈ Vlq.valueTexts text, Vlq.Canonical value)
    (h : decodePieces c texts = .ok (segments, last)) :
    encodeSegments c segments = texts ∧ segments.foldl Cursor.pass c = last := by
  induction texts generalizing c segments with
  | nil =>
    obtain ⟨rfl, rfl⟩ : [] = segments ∧ c = last := by simpa [decodePieces] using h
    exact ⟨rfl, rfl⟩
  | cons text texts ih =>
    obtain ⟨hfirst, hothers⟩ := List.forall_mem_cons.1 hcanonical
    obtain ⟨htext, htexts⟩ := List.forall_mem_cons.1 hne
    obtain ⟨values, s, others, hvalues, hs, hrest, rfl⟩ := (decodePieces_cons_eq_ok_iff htext).1 h
    obtain ⟨hwritten, hlast⟩ := ih htexts hothers hrest
    have hspells : Vlq.SpellsAll text values := (readValues_eq_ok_iff.1 hvalues).1
    have hsegment : encodeSegment c s = text := by
      rw [encodeSegment_eq, entryOf_of_segmentOf hs, Vlq.flatMap_write_of_canonical hspells hfirst]
    exact ⟨by rw [encodeSegments, hsegment, hwritten], hlast⟩

/-- A canonical line is written again. -/
theorem joinWith_encodeSegments_of_decodePieces {c last : Cursor} {line : List Char}
    {segments : List Segment} (hline : CanonicalLine line)
    (h : decodePieces c (Text.pieces ',' line) = .ok (segments, last)) :
    Text.joinWith [','] (encodeSegments c segments) = line ∧
      segments.foldl Cursor.pass c = last := by
  by_cases hempty : line = []
  · -- an empty line is cut into one empty piece, which stands for no segment
    subst hempty
    obtain ⟨rfl, rfl⟩ : [] = segments ∧ c = last := by
      simpa [Text.pieces, decodePieces] using h
    exact ⟨rfl, rfl⟩
  · rw [CanonicalLine, ← Text.pieces_eq_splitOn] at hline
    have hne : ∀ text ∈ Text.pieces ',' line, text ≠ [] :=
      fun text htext hnil => hempty ((hline text htext).1 hnil)
    have hvalues : ∀ text ∈ Text.pieces ',' line, ∀ value ∈ Vlq.valueTexts text,
        Vlq.Canonical value := fun text htext => (hline text htext).2
    obtain ⟨hwritten, hlast⟩ := encodeSegments_of_decodePieces hne hvalues h
    exact ⟨by rw [hwritten, Text.joinWith_pieces], hlast⟩

theorem encodeLines_of_decodeLines {c : Cursor} {lines : List (List Char)} {m : Mappings}
    (hcanonical : ∀ line ∈ lines, CanonicalLine line) (h : decodeLines c lines = .ok m) :
    encodeLines c m = lines := by
  induction lines generalizing c m with
  | nil =>
    obtain rfl : [] = m := by simpa [decodeLines] using h
    rfl
  | cons line lines ih =>
    obtain ⟨hline, hlines⟩ := List.forall_mem_cons.1 hcanonical
    rw [decodeLines, bind_eq_ok_iff] at h
    obtain ⟨⟨segments, last⟩, hpieces, h⟩ := h
    obtain ⟨rest, hrest, h⟩ := bind_eq_ok_iff.1 h
    obtain rfl : segments :: rest = m := by simpa using h
    obtain ⟨hwritten, rfl⟩ := joinWith_encodeSegments_of_decodePieces hline hpieces
    rw [encodeLines, hwritten, ih hlines hrest]

/-! ## Encoding writes canonical texts -/

theorem canonical_encodeSegments {c : Cursor} {line : List Segment} :
    ∀ text ∈ encodeSegments c line, text ≠ [] ∧
      ∀ value ∈ Vlq.valueTexts text, Vlq.Canonical value := by
  induction line generalizing c with
  | nil => intro text h; cases h
  | cons s line ih =>
    intro text h
    rcases List.mem_cons.1 h with rfl | h
    · rw [encodeSegment_eq]
      constructor
      · intro hnil
        -- a segment has its generated column, and no value is written as nothing
        rw [entryOf, List.flatMap_cons] at hnil
        obtain ⟨_, _, hm, -⟩ := Vlq.spellsMagnitude_write (s.generatedColumn - c.generatedColumn)
        exact hm.ne_nil (List.append_eq_nil_iff.1 hnil).1
      · rw [Vlq.valueTexts_flatMap_write]
        intro value hvalue
        obtain ⟨difference, -, rfl⟩ := List.mem_map.1 hvalue
        exact Vlq.canonical_write difference
    · exact ih text h

theorem canonical_encodeLines {c : Cursor} {m : Mappings} (hc : c.Fits) (hm : m.Fits) :
    ∀ line ∈ encodeLines c m, CanonicalLine line := by
  induction m generalizing c with
  | nil => intro line h; cases h
  | cons segments m ih =>
    obtain ⟨hl, hlines⟩ := List.forall_mem_cons.1 hm
    intro line h
    rcases List.mem_cons.1 h with rfl | h
    · cases segments with
      | nil =>
        show CanonicalLine []
        decide
      | cons s segments =>
        intro piece hpiece
        rw [← Text.pieces_eq_splitOn, pieces_encodeSegments hc.newLine hl] at hpiece
        obtain ⟨hne, hvalues⟩ := canonical_encodeSegments piece hpiece
        exact ⟨fun hnil => absurd hnil hne, hvalues⟩
    · exact ih (hc.newLine.passAll hl) hlines line h

theorem canonical_encode {m : Mappings} (hm : m.Fits) : Canonical (encode m) := by
  by_cases hne : m = []
  · rw [hne]
    decide
  · intro line hline
    rw [lineTexts, ← Text.pieces_eq_splitOn, pieces_encode hne hm] at hline
    exact canonical_encodeLines Cursor.fits_start hm line hline

/-- A text that decodes is given back by encoding exactly when it is canonical, and what encoding
gives back instead is decoded and encoded to itself.  Encoding never gives any other text. -/
theorem encode_eq_iff_canonical (text : String) (m : Mappings) :
    (decode text = .ok m →
      (encode m = text ↔ Canonical text) ∧ (decode (encode m)).map encode = .ok (encode m)) ∧
    (m.Fits → Canonical (encode m)) := by
  refine ⟨?_, canonical_encode⟩
  intro h
  have hfits : m.Fits := fits_of_decode h
  refine ⟨⟨?_, ?_⟩, ?_⟩
  · intro hsame
    rw [← hsame]
    exact canonical_encode hfits
  · intro hcanonical
    have hlines : ∀ line ∈ Text.pieces ';' text.toList, CanonicalLine line := by
      rwa [Text.pieces_eq_splitOn]
    rw [encode, encodeLines_of_decodeLines hlines h, Text.joinWith_pieces, String.ofList_toList]
  · have hagain : decode (encode m) = .ok m :=
      SourceMap.decode_ofMappings [] [] [] (ne_nil_of_decode h) hfits
    rw [hagain]
    rfl

/-- A negative zero at the end of a segment, and a comma with nothing in front of it. -/
theorem encode_drops_redundancy :
    decode "AAgCB;,C" = .ok [[⟨0, some ⟨0, 32, 0, none⟩⟩], [⟨1, none⟩]] ∧
      ¬ Canonical "AAgCB;,C" ∧
      encode [[⟨0, some ⟨0, 32, 0, none⟩⟩], [⟨1, none⟩]] ≠ "AAgCB;,C" := by
  have hdecode : decode "AAgCB;,C" = .ok [[⟨0, some ⟨0, 32, 0, none⟩⟩], [⟨1, none⟩]] := by decide
  have hredundant : ¬ Canonical "AAgCB;,C" := by decide
  exact ⟨hdecode, hredundant, mt ((encode_eq_iff_canonical _ _).1 hdecode).1.1 hredundant⟩

/-- Values of two digits, negative ones and an empty line are all needed. -/
example : Canonical "gBAgCC,DADA;;C" := by decide

end Mappings
end Inlay
