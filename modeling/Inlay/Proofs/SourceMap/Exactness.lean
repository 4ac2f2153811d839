import Inlay.Proofs.SourceMap.Machine
import Inlay.Proofs.SourceMap.RoundTrip

/-!
# Words are wide enough for mappings

The theorem this file exists for is `arithmetic_stays_in_words`: decoding and encoding on words of
64 bits do what they do on integers, and nothing overflows on the way, whatever the text.

What carries the loop over the digits of a value is that the bits read so far are below the place
of the next digit (`sum_add_digit_lt`), and that a value is given up before a digit would be moved
by more than 55 places.  From segment to segment the running sums are those of the cursor, which
are fields (`Sums.Follows`), so a difference of 59 bits can be added to each of them.
-/

namespace Inlay
namespace Machine

variable {γ δ : Type} {related : γ → δ → Prop}

/-- The value of a word is an integer of which a bound is known. -/
structure Holds (bound : Nat) (word : Int64) (n : Int) : Prop where
  toInt_eq : word.toInt = n
  natAbs_lt : n.natAbs < bound

/-! ## Values -/

/-- A digit and all that stand in front of it are together below the place of the next one. -/
theorem sum_add_digit_lt {sum shift : Nat} (h : sum < 2 ^ shift) (d : Nat) :
    sum + d % 32 * 2 ^ shift < 2 ^ (shift + 5) := by
  have hdigit : d % 32 * 2 ^ shift ≤ 31 * 2 ^ shift :=
    Nat.mul_le_mul_right _ (Nat.le_of_lt_succ (Nat.mod_lt d (by decide)))
  rw [Nat.pow_add]
  omega

theorem two_pow_le_of_le_shiftLimit {shift : Nat} (h : shift ≤ Vlq.shiftLimit) :
    2 ^ (shift + 5) ≤ 2 ^ 60 := by
  unfold Vlq.shiftLimit at h
  exact Nat.pow_le_pow_right (by decide) (by omega)

/-- Moving a digit to its place and adding it overflows neither time. -/
theorem Refines.addDigit {result : Int64} {shift : UInt32} {sum : Nat}
    (hresult : result.toInt = sum) (hsum : sum < 2 ^ shift.toNat)
    (hshift : shift.toNat ≤ Vlq.shiftLimit) (d : Nat)
    {next : Int64 → Recorded γ} {expected : Except MapError δ}
    (hnext : ∀ total : Int64, total.toInt = (sum + d % 32 * 2 ^ shift.toNat : Nat) →
      Refines (next total) expected related) :
    Refines (perform (.shiftLeft (.ofNat (d % 32)) shift) >>= fun bits =>
      perform (.add result bits) >>= next) expected related := by
  have htotal := sum_add_digit_lt hsum d
  have hroom := two_pow_le_of_le_shiftLimit hshift
  unfold Vlq.shiftLimit at hshift
  have hdigit : (Int64.ofNat (d % 32)).toInt = (d % 32 : Nat) :=
    Int64.toInt_ofNat_of_lt (by omega)
  have hmoved : (WordOperation.shiftLeft (.ofNat (d % 32)) shift).exact =
      (d % 32 * 2 ^ shift.toNat : Nat) := by
    rw [WordOperation.exact, hdigit]
    push_cast
    rfl
  refine (refines_perform hmoved ⟨by omega, by omega⟩ (show shift.toNat < 64 by omega)).andThen ?_
  intro bits hbits
  have hadded : (WordOperation.add result bits).exact =
      (sum + d % 32 * 2 ^ shift.toNat : Nat) := by
    rw [WordOperation.exact, hresult, hbits]
    push_cast
    rfl
  exact (refines_perform hadded ⟨by omega, by omega⟩ (show 0 < 64 by decide)).andThen hnext

theorem toNat_add_five {shift : UInt32} (h : shift.toNat ≤ Vlq.shiftLimit) :
    (shift + 5).toNat = shift.toNat + 5 := by
  have hfive : (5 : UInt32).toNat = 5 := rfl
  unfold Vlq.shiftLimit at h
  rw [UInt32.toNat_add, hfive]
  omega

theorem refines_readMagnitude (cs : List Char) {result : Int64} {shift : UInt32} {sum : Nat}
    (hresult : result.toInt = sum) (hsum : sum < 2 ^ shift.toNat)
    (hshift : shift.toNat ≤ Vlq.shiftLimit) :
    Refines (readMagnitude result shift cs) (Vlq.readMagnitude sum shift.toNat cs)
      fun found expected => Holds (2 ^ 60) found.1 expected.1 ∧ found.2 = expected.2 := by
  -- on the text: the three hypotheses are what every digit leaves for the next one
  induction cs generalizing result shift sum with
  | nil => exact refines_refuse _
  | cons c cs ih =>
    simp only [readMagnitude, Vlq.readMagnitude, twoTo, Nat.pow_eq]
    cases Vlq.digit? c with
    | none => exact refines_refuse _
    | some d =>
      have htotal := sum_add_digit_lt hsum d
      have hroom := two_pow_le_of_le_shiftLimit hshift
      have hmoved := toNat_add_five hshift
      refine Refines.addDigit hresult hsum hshift d ?_
      intro total htoInt
      refine Refines.record (show Event.Sound (.partialResult total) from ⟨by omega, by omega⟩) ?_
      by_cases hd : d < 32
      · simp only [if_pos hd]
        exact refines_return ⟨⟨htoInt, by omega⟩, rfl⟩
      · simp only [if_neg hd]
        refine Refines.record (show Event.Sound (.movedUp shift) from hmoved) ?_
        have hlong : 55 < shift + 5 ↔ Vlq.shiftLimit < shift.toNat + 5 := by
          rw [UInt32.lt_iff_toNat_lt, hmoved]
          rfl
        by_cases hover : Vlq.shiftLimit < shift.toNat + 5
        · rw [if_pos (hlong.2 hover), if_pos hover]
          exact refines_refuse _
        · rw [if_neg (hlong.not.2 hover), if_neg hover, ← hmoved]
          rw [← hmoved] at htotal hover
          exact ih htoInt htotal (Nat.not_lt.1 hover)

theorem refines_signed {word : Int64} {n : Nat} (h : Holds (2 ^ 60) word n) :
    Refines (signed word) (.ok (Vlq.toInt n)) (Holds Vlq.valueLimit) := by
  obtain ⟨hword, hlt⟩ := h
  have hhalf : (word >>> 1).toInt = word.toInt / 2 ^ 1 := Words.toInt_shiftRight word (by decide)
  have hbit : (word &&& 1).toInt = word.toInt % 2 ^ 1 := Words.toInt_and_mask (by omega) rfl
  have hsign : word &&& 1 = 1 ↔ n % 2 = 1 := by
    rw [← Int64.toInt_inj, hbit, Int64.toInt_one]
    omega
  unfold signed Vlq.toInt Vlq.valueLimit
  by_cases hodd : n % 2 = 1
  · rw [if_pos (hsign.2 hodd), if_pos hodd]
    have hneg : (WordOperation.negate (word >>> 1)).exact = -((n / 2 : Nat) : Int) := by
      rw [WordOperation.exact]
      omega
    refine (refines_perform hneg ⟨by omega, by omega⟩ (show 0 < 64 by decide)).imp ?_
    intro value hvalue
    exact ⟨hvalue, by omega⟩
  · rw [if_neg (hsign.not.2 hodd), if_neg hodd]
    exact refines_return ⟨by omega, by omega⟩

theorem read_eq_bind (cs : List Char) :
    Vlq.read cs = Vlq.readMagnitude 0 0 cs >>= fun found => .ok (Vlq.toInt found.1, found.2) := by
  rw [Vlq.read]
  cases Vlq.readMagnitude 0 0 cs <;> rfl

theorem refines_read (cs : List Char) :
    Refines (read cs) (Vlq.read cs)
      fun found expected => Holds Vlq.valueLimit found.1 expected.1 ∧ found.2 = expected.2 := by
  rw [read_eq_bind]
  have hmagnitude : Refines (readMagnitude 0 0 cs) (Vlq.readMagnitude 0 0 cs)
      fun found expected => Holds (2 ^ 60) found.1 expected.1 ∧ found.2 = expected.2 :=
    refines_readMagnitude cs rfl (by decide) (by decide)
  refine hmagnitude.bind ?_
  rintro ⟨word, rest⟩ ⟨n, _⟩ ⟨hword, rfl⟩
  refine (refines_signed hword).andThen ?_
  intro value hvalue
  obtain ⟨hvalue, hlt⟩ := hvalue
  unfold Vlq.valueLimit at hlt
  refine Refines.record (show Event.Sound (.decodedValue value) from ⟨by omega, by omega⟩) ?_
  exact refines_return ⟨⟨hvalue, hlt⟩, rfl⟩

theorem refines_readValues (room : Nat) (cs : List Char) :
    Refines (readValues room cs) (Mappings.readValues room cs)
      (List.Forall₂ (Holds Vlq.valueLimit)) := by
  induction room generalizing cs with
  | zero =>
    cases cs with
    | nil => exact refines_return .nil
    | cons c cs => exact refines_refuse _
  | succ room ih =>
    cases cs with
    | nil => exact refines_return .nil
    | cons c cs =>
      refine (refines_read (c :: cs)).bind ?_
      rintro ⟨value, rest⟩ ⟨expected, _⟩ ⟨hvalue, rfl⟩
      refine (ih rest).bind ?_
      intro values others hvalues
      exact refines_return (.cons hvalue hvalues)

/-! ## Running sums -/

/-- A word is the value of a field. -/
abbrev HoldsField (word : Int64) (n : Nat) : Prop := Holds Segment.fieldLimit word n

theorem HoldsField.bounds {word : Int64} {n : Nat} (h : HoldsField word n) :
    0 ≤ word.toInt ∧ word.toInt ≤ 4294967295 := by
  obtain ⟨hword, hlt⟩ := h
  unfold Segment.fieldLimit word32Limit at hlt
  exact ⟨by omega, by omega⟩

/-- The running sums of the machine are those of a cursor, and fields. -/
def Sums.Follows (s : Sums) (c : Cursor) : Prop := ∀ field, HoldsField (s.get field) (c.get field)

theorem follows_start : Sums.Follows {} .start := by
  intro field
  cases field <;> exact ⟨rfl, by decide⟩

theorem Sums.Follows.newLine {s : Sums} {c : Cursor} (hs : s.Follows c) :
    Sums.Follows { s with generatedColumn := 0 } c.newLine :=
  SegmentField.forall_iff.2 ⟨⟨rfl, show 0 < Segment.fieldLimit by decide⟩, hs .sourceIndex,
    hs .originalLine, hs .originalColumn, hs .nameIndex⟩

theorem Sums.Follows.sound {s : Sums} {c : Cursor} (hs : s.Follows c) :
    Event.Sound (.betweenSegments s) :=
  fun field => (hs field).bounds

/-- A sum of a field and a difference has room in a word, and it is refused unless it is a field. -/
theorem refines_advance (field : SegmentField) {previous difference : Int64} {n : Nat} {d : Int}
    (hprevious : HoldsField previous n) (hdifference : Holds Vlq.valueLimit difference d) :
    Refines (advance field previous difference) (Mappings.advance field n d) HoldsField := by
  obtain ⟨hn, hnlt⟩ := hprevious
  obtain ⟨hd, hdlt⟩ := hdifference
  unfold Segment.fieldLimit word32Limit at hnlt
  unfold Vlq.valueLimit at hdlt
  have hadded : (WordOperation.add previous difference).exact = n + d := by
    rw [WordOperation.exact, hn, hd]
  refine (refines_perform hadded ⟨by omega, by omega⟩ (show 0 < 64 by decide)).andThen ?_
  intro sum hsum
  have hmax : (4294967295 : Int64).toInt = 4294967295 := rfl
  have hrefused : (sum < 0 ∨ 4294967295 < sum) ↔
      ¬(0 ≤ (n : Int) + d ∧ (n : Int) + d < Segment.fieldLimit) := by
    rw [Int64.lt_iff_toInt_lt, Int64.lt_iff_toInt_lt, hsum, Int64.toInt_zero, hmax]
    unfold Segment.fieldLimit word32Limit
    omega
  unfold Mappings.advance
  by_cases h : 0 ≤ (n : Int) + d ∧ (n : Int) + d < Segment.fieldLimit
  · rw [if_neg (hrefused.not.2 (not_not_intro h))]
    simp only [if_pos h]
    exact refines_return ⟨by omega, by omega⟩
  · rw [if_pos (hrefused.2 h)]
    simp only [if_neg h]
    exact refines_refuse _

/-- Cutting a field down to 32 bits does not change it. -/
theorem Refines.narrow {word : Int64} {n : Nat} (h : HoldsField word n) {next : Nat → Recorded γ}
    {expected : Except MapError δ} (hnext : Refines (next n) expected related) :
    Refines (narrow word >>= next) expected related := by
  have hword := h.toInt_eq
  obtain ⟨hle, hlt⟩ := h.bounds
  have hexact : ((Words.lower word).toNat : Int) = word.toInt :=
    Words.toNat_lower hle (by omega)
  have hlower : (Words.lower word).toNat = n := by omega
  refine Refines.record (show Event.Sound (.narrowed word) from hexact) ?_
  rwa [hlower]

theorem refines_originOf {s : Sums} {c : Cursor} (hs : s.Follows c) {source line column : Int64}
    {dsource dline dcolumn : Int} (hsource : Holds Vlq.valueLimit source dsource)
    (hline : Holds Vlq.valueLimit line dline) (hcolumn : Holds Vlq.valueLimit column dcolumn)
    {name : Option Int64} {dname : Option Int}
    (hname : Option.Rel (Holds Vlq.valueLimit) name dname) :
    Refines (originOf s source line column name) (Mappings.originOf c dsource dline dcolumn dname)
      fun found expected => found.1 = expected ∧
        found.2.Follows (c.pass ⟨c.generatedColumn, some expected⟩) := by
  refine (refines_advance .sourceIndex (hs .sourceIndex) hsource).bind ?_
  intro source nsource hsource
  refine (refines_advance .originalLine (hs .originalLine) hline).bind ?_
  intro line nline hline
  refine (refines_advance .originalColumn (hs .originalColumn) hcolumn).bind ?_
  intro column ncolumn hcolumn
  cases hname with
  | none =>
    refine Refines.narrow hsource (Refines.narrow hline (Refines.narrow hcolumn ?_))
    refine refines_return ⟨rfl, ?_⟩
    exact SegmentField.forall_iff.2 ⟨hs .generatedColumn, hsource, hline, hcolumn, hs .nameIndex⟩
  | some hname =>
    refine (refines_advance .nameIndex (hs .nameIndex) hname).bind ?_
    intro name nname hname
    refine Refines.narrow hsource (Refines.narrow hline (Refines.narrow hcolumn ?_))
    refine Refines.narrow hname (refines_return ⟨rfl, ?_⟩)
    exact SegmentField.forall_iff.2 ⟨hs .generatedColumn, hsource, hline, hcolumn, hname⟩

theorem holds_headD {values : List Int64} {differences : List Int}
    (h : List.Forall₂ (Holds Vlq.valueLimit) values differences) :
    Holds Vlq.valueLimit (values.headD 0) (differences.headD 0) := by
  cases h with
  | nil => exact ⟨rfl, by decide⟩
  | cons hvalue _ => exact hvalue

theorem refines_segmentOf {s : Sums} {c : Cursor} (hs : s.Follows c) {values : List Int64}
    {differences : List Int} (h : List.Forall₂ (Holds Vlq.valueLimit) values differences) :
    Refines (segmentOf s values) (Mappings.segmentOf c differences)
      fun found expected => found.1 = expected ∧ found.2.Follows (c.pass expected) := by
  refine (refines_advance .generatedColumn (hs .generatedColumn) (holds_headD h)).bind ?_
  intro word n hword
  have hsums : Sums.Follows { s with generatedColumn := word } { c with generatedColumn := n } :=
    SegmentField.forall_iff.2
      ⟨hword, hs .sourceIndex, hs .originalLine, hs .originalColumn, hs .nameIndex⟩
  -- by the number of fields, of which one, four and five are allowed
  rcases h with _ | ⟨h₁, _ | ⟨h₂, _ | ⟨h₃, _ | ⟨h₄, _ | ⟨h₅, _ | ⟨h₆, hmore⟩⟩⟩⟩⟩⟩
  · exact refines_refuse _
  · exact Refines.narrow hword (refines_return ⟨rfl, hsums⟩)
  · exact refines_refuse _
  · exact refines_refuse _
  · refine (refines_originOf hsums h₂ h₃ h₄ .none).bind ?_
    rintro ⟨origin, sums⟩ _ ⟨rfl, horigin⟩
    exact Refines.narrow hword (refines_return ⟨rfl, horigin⟩)
  · refine (refines_originOf hsums h₂ h₃ h₄ (.some h₅)).bind ?_
    rintro ⟨origin, sums⟩ _ ⟨rfl, horigin⟩
    exact Refines.narrow hword (refines_return ⟨rfl, horigin⟩)
  · simp only [List.length_cons, hmore.length_eq]
    exact refines_refuse _

/-! ## Lines and texts -/

theorem refines_decodePieces (pieces : List (List Char)) {s : Sums} {c : Cursor}
    (hs : s.Follows c) :
    Refines (decodePieces s pieces) (Mappings.decodePieces c pieces)
      fun found expected => found.1 = expected.1 ∧ found.2.Follows expected.2 := by
  induction pieces generalizing s c with
  | nil => exact Refines.record hs.sound (refines_return ⟨rfl, hs⟩)
  | cons piece pieces ih =>
    cases piece with
    | nil => exact ih hs
    | cons d ds =>
      refine Refines.record hs.sound ((refines_readValues _ _).bind ?_)
      intro values differences hvalues
      refine (refines_segmentOf hs hvalues).bind ?_
      rintro ⟨segment, next⟩ _ ⟨rfl, hnext⟩
      refine (ih hnext).bind ?_
      rintro ⟨segments, last⟩ ⟨_, _⟩ ⟨rfl, hlast⟩
      exact refines_return ⟨rfl, hlast⟩

theorem refines_decodeLines (lines : List (List Char)) {s : Sums} {c : Cursor}
    (hs : s.Follows c) :
    Refines (decodeLines s lines) (Mappings.decodeLines c lines) Eq := by
  induction lines generalizing s c with
  | nil => exact refines_return rfl
  | cons line lines ih =>
    refine (refines_decodePieces (Text.pieces ',' line) hs.newLine).bind ?_
    rintro ⟨segments, last⟩ ⟨_, _⟩ ⟨rfl, hlast⟩
    refine (ih hlast).bind ?_
    rintro rest _ rfl
    exact refines_return rfl

/-! ## Encoding -/

/-- A difference of fields is far from the end of the words, also with its sign behind it. -/
theorem refines_magnitude {word : Int64} {value : Int} (h : Holds Segment.fieldLimit word value) :
    Refines (magnitude word) (.ok (Vlq.ofInt value)) fun word n => Holds (2 ^ 60) word n := by
  obtain ⟨hword, hlt⟩ := h
  unfold Segment.fieldLimit word32Limit at hlt
  have hsign : word < 0 ↔ value < 0 := by rw [Int64.lt_iff_toInt_lt, hword, Int64.toInt_zero]
  have hone : (1 : UInt32).toNat = 1 := rfl
  unfold magnitude Vlq.ofInt
  by_cases hneg : value < 0
  · rw [if_pos (hsign.2 hneg), if_pos hneg]
    have hopposite : (WordOperation.negate word).exact = -value := by
      rw [WordOperation.exact, hword]
    refine (refines_perform hopposite ⟨by omega, by omega⟩ (show 0 < 64 by decide)).andThen ?_
    intro opposite hopposite
    have hdoubled : (WordOperation.shiftLeft opposite 1).exact = 2 * value.natAbs := by
      rw [WordOperation.exact, hopposite, hone]
      omega
    refine (refines_perform hdoubled ⟨by omega, by omega⟩ (show 1 < 64 by decide)).andThen ?_
    intro doubled hdoubled
    have hsigned : (doubled ||| 1).toInt = doubled.toInt + 1 :=
      Words.toInt_or_one (by omega) (by omega)
    exact refines_return ⟨by omega, by omega⟩
  · rw [if_neg (hsign.not.2 hneg), if_neg hneg]
    have hdoubled : (WordOperation.shiftLeft word 1).exact = (2 * value.natAbs : Nat) := by
      rw [WordOperation.exact, hword, hone]
      omega
    refine (refines_perform hdoubled ⟨by omega, by omega⟩ (show 1 < 64 by decide)).imp ?_
    intro doubled hdoubled
    exact ⟨hdoubled, by omega⟩

theorem digits_eq {word : Int64} {n : Nat} (h : Holds (2 ^ 60) word n) :
    digits word = Vlq.writeMagnitude n := by
  induction n using Nat.strongRecOn generalizing word with
  | ind n ih =>
    obtain ⟨hword, hlt⟩ := h
    have hlow : (word &&& 31).toInt = word.toInt % 2 ^ 5 := Words.toInt_and_mask (by omega) rfl
    have hrest : (word >>> 5).toInt = word.toInt / 2 ^ 5 := Words.toInt_shiftRight word (by decide)
    have hdigit : (word &&& 31).toInt.toNat = n % 32 := by omega
    have hmore : (0 : Int64) < word >>> 5 ↔ ¬ n < 32 := by
      rw [Int64.lt_iff_toInt_lt, hrest, Int64.toInt_zero]
      omega
    rw [digits, Vlq.writeMagnitude, hdigit]
    by_cases hn : n < 32
    · rw [if_neg (hmore.not.2 (not_not_intro hn)), if_pos hn, Nat.mod_eq_of_lt hn]
    · rw [if_pos (hmore.2 hn), if_neg hn, ih (n / 32) (by omega) ⟨by omega, by omega⟩]

theorem refines_write {word : Int64} {value : Int} (h : Holds Segment.fieldLimit word value) :
    Refines (write word) (.ok (Vlq.write value)) Eq := by
  refine (refines_magnitude h).andThen ?_
  intro magnitude hmagnitude
  exact refines_return (digits_eq hmagnitude)

theorem refines_difference {previous next : Nat} (hprevious : previous < Segment.fieldLimit)
    (hnext : next < Segment.fieldLimit) :
    Refines (difference previous next) (.ok (Mappings.difference previous next)) Eq := by
  have hlimit : Segment.fieldLimit = 4294967296 := rfl
  have hexact : (WordOperation.subtract (.ofNat next) (.ofNat previous)).exact =
      (next : Int) - previous := by
    rw [WordOperation.exact, Int64.toInt_ofNat_of_lt (by omega), Int64.toInt_ofNat_of_lt (by omega)]
  refine (refines_perform hexact ⟨by omega, by omega⟩ (show 0 < 64 by decide)).andThen ?_
  intro word hword
  exact refines_write ⟨hword, by omega⟩

theorem refines_encodeOrigin {c : Cursor} {o : Origin} (hc : c.Fits) (ho : o.Fits) :
    Refines (encodeOrigin c o) (.ok (Mappings.encodeOrigin c o)) Eq := by
  obtain ⟨hsource, hline, hcolumn, hname⟩ := ho
  refine (refines_difference (hc .sourceIndex) hsource).andThen ?_
  rintro _ rfl
  refine (refines_difference (hc .originalLine) hline).andThen ?_
  rintro _ rfl
  refine (refines_difference (hc .originalColumn) hcolumn).andThen ?_
  rintro _ rfl
  unfold Mappings.encodeOrigin
  cases hn : o.name with
  | none => exact refines_return rfl
  | some name =>
    refine (refines_difference (hc .nameIndex) (hname name hn)).andThen ?_
    rintro _ rfl
    exact refines_return rfl

theorem refines_encodeSegment {c : Cursor} {s : Segment} (hc : c.Fits) (hs : s.Fits) :
    Refines (encodeSegment c s) (.ok (Mappings.encodeSegment c s)) Eq := by
  obtain ⟨hcolumn, horigin⟩ := hs
  refine (refines_difference (hc .generatedColumn) hcolumn).andThen ?_
  rintro _ rfl
  unfold Mappings.encodeSegment
  cases ho : s.origin with
  | none => exact refines_return rfl
  | some o =>
    refine (refines_encodeOrigin hc (horigin o ho)).andThen ?_
    rintro _ rfl
    exact refines_return rfl

theorem refines_encodeSegments {c : Cursor} {line : List Segment} (hc : c.Fits)
    (hl : ∀ s ∈ line, s.Fits) :
    Refines (encodeSegments c line) (.ok (Mappings.encodeSegments c line)) Eq := by
  induction line generalizing c with
  | nil => exact refines_return rfl
  | cons s line ih =>
    obtain ⟨hs, hline⟩ := List.forall_mem_cons.1 hl
    refine (refines_encodeSegment hc hs).andThen ?_
    rintro _ rfl
    refine (ih (hc.pass hs) hline).andThen ?_
    rintro _ rfl
    exact refines_return rfl

theorem refines_encodeLines {c : Cursor} {m : Mappings} (hc : c.Fits) (hm : m.Fits) :
    Refines (encodeLines c m) (.ok (Mappings.encodeLines c m)) Eq := by
  induction m generalizing c with
  | nil => exact refines_return rfl
  | cons line m ih =>
    obtain ⟨hline, hlines⟩ := List.forall_mem_cons.1 hm
    refine (refines_encodeSegments hc.newLine hline).andThen ?_
    rintro _ rfl
    refine (ih (hc.newLine.passAll hline) hlines).andThen ?_
    rintro _ rfl
    exact refines_return rfl

theorem refines_encode {m : Mappings} (hm : m.Fits) :
    Refines (encode m) (.ok (Mappings.encode m)) Eq := by
  refine (refines_encodeLines Cursor.fits_start hm).andThen ?_
  rintro _ rfl
  exact refines_return rfl

/-! ## Whole runs -/

theorem Agrees.eq_mapError {α : Type} {outcome : Except Failure α} {expected : Except MapError α}
    (h : Agrees Eq outcome expected) : outcome = expected.mapError .sourceMap := by
  cases h with
  | ok hvalue =>
    rw [hvalue]
    rfl
  | error cause => rfl

/-- On words every text decodes to what it decodes to on integers, or fails alike, and mappings
whose fields are words of 32 bits are encoded to the same text.  On the way no operation overflows,
every partial result and every value has room to spare, and the running sums are fields between any
two segments. -/
theorem arithmetic_stays_in_words :
    (∀ text : String,
      (decode text).outcome = (Mappings.decode text).mapError .sourceMap ∧
        ∀ event ∈ (decode text).events, event.Sound) ∧
    ∀ m : Mappings, m.Fits →
      (encode m).outcome = .ok (Mappings.encode m) ∧ ∀ event ∈ (encode m).events, event.Sound := by
  refine ⟨fun text => ?_, fun m hm => ?_⟩
  · have h : Refines (decode text) (Mappings.decode text) Eq := refines_decodeLines _ follows_start
    exact ⟨h.agrees.eq_mapError, h.sound⟩
  · have h : Refines (encode m) (.ok (Mappings.encode m)) Eq := refines_encode hm
    exact ⟨h.agrees.eq_mapError, h.sound⟩

theorem arithmetic_stays_in_words_extremes :
    Mappings.extremes.Fits ∧
      (encode Mappings.extremes).outcome = .ok (Mappings.encode Mappings.extremes) ∧
      ∀ event ∈ (encode Mappings.extremes).events, event.Sound := by
  have hfits : Mappings.extremes.Fits := by
    simp [Mappings.extremes, Mappings.Fits, Segment.Fits, Origin.Fits, Segment.fieldLimit,
      word32Limit]
  exact ⟨hfits, arithmetic_stays_in_words.2 Mappings.extremes hfits⟩

/-- A value below zero as the first column: the sum is computed before it is refused. -/
example : decode "D" =
    ⟨[.betweenSegments {}, .performed (.shiftLeft 3 0), .performed (.add 0 3), .partialResult 3,
      .performed (.negate 1), .decodedValue (-1), .performed (.add 0 (-1))],
      .error (.sourceMap (.outOfRange .generatedColumn))⟩ := by
  rfl

end Machine
end Inlay
