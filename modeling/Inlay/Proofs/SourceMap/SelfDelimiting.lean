import Inlay.Proofs.SourceMap.Canonical

/-!
# Written values delimit themselves

A value ends with the first digit that announces no further one, so a reader knows where it ends
without looking behind it.  An integer of 59 bits is read back from what is written for it, whatever
follows; of a greater one already the twelfth digit announces a further one, which no reader takes
(`read_write_of_le`).  A text of written values can therefore be cut into such values in one way
only (`map_write_of_flatten`).  `written_values_delimit_themselves` puts this together.

What follows a value need not be a text.  `readBytes` is the reader over the bytes of a text, with
the same steps: on the bytes of a text it does what the reader does on the text
(`readBytes_utf8`), and what it has read once it reads in front of any bytes
(`readBytes_append`).
-/

namespace Inlay
namespace Vlq

variable {text : List Char} {announcing : List Nat} {last : Nat} {bytes : List UInt8}

/-! ## Values that are too long -/

/-- Reading gives up at the digit that announces one too many, and does not look behind it. -/
theorem readMagnitude_of_tooLong (h : SpellsMagnitude text announcing last) {sum shift : Nat}
    (hshift : shift ≤ shiftLimit) (hlen : shiftLimit < shift + 5 * announcing.length)
    (rest : List Char) : readMagnitude sum shift (text ++ rest) = .error .overflow := by
  obtain ⟨hmap, hann, -⟩ := h
  induction announcing generalizing text sum shift with
  | nil => exact absurd hlen (by simpa using hshift)
  | cons d announcing ih =>
    obtain ⟨c, cs, rfl, hc, hcs⟩ : ∃ c cs, text = c :: cs ∧ digit? c = some d ∧
        cs.map digit? = (announcing ++ [last]).map some := by
      simpa [List.map_eq_cons_iff] using hmap
    have hd : ¬ d < 32 := Nat.not_lt.2 (hann d List.mem_cons_self)
    rw [List.cons_append, readMagnitude]
    simp only [hc, if_neg hd]
    split
    · rfl
    · rename_i hroom
      rw [List.length_cons] at hlen
      exact ih (Nat.not_lt.1 hroom) (by omega) hcs fun e he => hann e (List.mem_cons_of_mem d he)

theorem magnitudeOf_lt (digits : List Nat) : magnitudeOf digits < 32 ^ digits.length := by
  induction digits with
  | nil => decide
  | cons d digits ih =>
    rw [magnitudeOf, List.length_cons, Nat.pow_succ]
    omega

/-- The magnitude of an integer with its sign fits twelve digits exactly if the integer is below the
limit. -/
theorem ofInt_lt_iff (value : Int) : ofInt value < 32 ^ maxDigits ↔ value.natAbs < valueLimit := by
  unfold ofInt valueLimit maxDigits
  split <;> omega

theorem read_write_of_le {value : Int} (h : valueLimit ≤ value.natAbs) (rest : List Char) :
    read (write value ++ rest) = .error .overflow := by
  obtain ⟨announcing, last, hm, hmag, -⟩ := spellsMagnitude_write value
  have hlong : maxDigits ≤ announcing.length := by
    by_contra hshort
    have hpow : 32 ^ (announcing ++ [last]).length ≤ 32 ^ maxDigits :=
      Nat.pow_le_pow_right (by decide) (by rw [List.length_append, List.length_singleton]; omega)
    have hfits : ofInt value < 32 ^ maxDigits :=
      hmag ▸ Nat.lt_of_lt_of_le (magnitudeOf_lt _) hpow
    exact absurd ((ofInt_lt_iff value).1 hfits) (Nat.not_lt.2 h)
  have hover : shiftLimit < 0 + 5 * announcing.length := by
    have hlimit := shift_le_shiftLimit_iff announcing.length
    omega
  rw [read, readMagnitude_of_tooLong hm (Nat.zero_le _) hover]

/-! ## Cutting a text of values -/

/-- However a text of values is cut into written values, the pieces are those that were written. -/
theorem map_write_of_flatten {texts : List (List Char)} {values : List Int}
    (hwritten : ∀ text ∈ texts, ∃ value, text = write value)
    (h : texts.flatten = values.flatMap write) : texts = values.map write := by
  have hcut : valueTexts texts.flatten = texts := by
    clear h
    induction texts with
    | nil => rfl
    | cons text texts ih =>
      obtain ⟨⟨value, rfl⟩, htexts⟩ := List.forall_mem_cons.1 hwritten
      obtain ⟨_, _, hm, -⟩ := spellsMagnitude_write value
      rw [List.flatten_cons, valueTexts_append hm, ih htexts]
  rw [← hcut, h, valueTexts_flatMap_write]

theorem write_injective {value other : Int} (h : write value = write other) : value = other := by
  obtain ⟨_, _, hm, hmag, -⟩ := spellsMagnitude_write value
  obtain ⟨_, _, hm', hmag', -⟩ := spellsMagnitude_write other
  have hsame : ofInt value = ofInt other := by
    rw [← hmag, ← hmag', ← hm.filterMap_eq, ← hm'.filterMap_eq, h]
  rw [← toInt_ofInt value, hsame, toInt_ofInt]

theorem flatMap_write_injective {values others : List Int}
    (h : values.flatMap write = others.flatMap write) : values = others := by
  have hmap : values.map write = others.map write := by
    rw [← valueTexts_flatMap_write, h, valueTexts_flatMap_write]
  exact List.map_injective_iff.2 (fun _ _ => write_injective) hmap

/-! ## Bytes -/

/-- The bytes of a text in UTF-8. -/
def utf8 (text : List Char) : List UInt8 := text.flatMap String.utf8EncodeChar

/-- The digit that a byte stands for: that of the character with its number. -/
def byteDigit? (byte : UInt8) : Option Nat := digit? (Char.ofNat byte.toNat)

/-- Reads the rest of a magnitude off bytes. -/
def readMagnitudeBytes (sum shift : Nat) : List UInt8 → Except MapError (Nat × List UInt8)
  | [] => .error .truncatedValue
  | byte :: bytes =>
    match byteDigit? byte with
    | none => .error (.invalidCharacter byte)
    | some d =>
      let total := sum + d % 32 * twoTo shift
      if d < 32 then .ok (total, bytes)
      else if shiftLimit < shift + 5 then .error .overflow
      else readMagnitudeBytes total (shift + 5) bytes

/-- Reads one value off the front of bytes, and gives the bytes behind it. -/
def readBytes (bytes : List UInt8) : Except MapError (Int × List UInt8) :=
  (readMagnitudeBytes 0 0 bytes).map fun result => (toInt result.1, result.2)

theorem toNat_lt_of_digit? {c : Char} {d : Nat} (h : digit? c = some d) : c.toNat < 128 := by
  have all : ∀ m : Fin 64, (digit m.val).toNat < 128 := by decide
  obtain ⟨hd, rfl⟩ := digit_of_digit? h
  exact all ⟨d, hd⟩

theorem toNat_lt_of_char (c : Char) : c.toNat < 0x110000 := by
  rcases c.valid with hlow | ⟨-, hhigh⟩
  · exact Nat.lt_trans hlow (by decide)
  · exact hhigh

theorem utf8EncodeChar_of_lt {c : Char} (h : c.toNat < 128) :
    String.utf8EncodeChar c = [leadByte c] := by
  rw [String.utf8EncodeChar, leadByte, if_pos h]
  exact if_pos (Nat.le_of_lt_succ h)

/-- The bytes of a character start with its first one. -/
theorem exists_utf8EncodeChar (c : Char) :
    ∃ behind, String.utf8EncodeChar c = leadByte c :: behind := by
  have hlt := toNat_lt_of_char c
  simp only [String.utf8EncodeChar, leadByte, Char.toNat] at hlt ⊢
  generalize c.val.toNat = n at hlt ⊢
  -- the ranges of the two case distinctions are the same, written with `≤` and with `<`
  by_cases h1 : n < 0x80
  · exact ⟨[], by rw [if_pos (by omega), if_pos h1, Nat.toUInt8]⟩
  by_cases h2 : n < 0x800
  · have hfirst : n / 64 % 32 + 192 = 0xC0 + n / 0x40 := by omega
    rw [if_neg (by omega), if_pos (by omega), if_neg h1, if_pos h2, hfirst]
    exact ⟨_, rfl⟩
  by_cases h3 : n < 0x10000
  · have hfirst : n / 4096 % 16 + 224 = 0xE0 + n / 0x1000 := by omega
    rw [if_neg (by omega), if_neg (by omega), if_pos (by omega), if_neg h1, if_neg h2, if_pos h3,
      hfirst]
    exact ⟨_, rfl⟩
  · have hfirst : n / 262144 % 8 + 240 = 0xF0 + n / 0x40000 := by omega
    rw [if_neg (by omega), if_neg (by omega), if_neg (by omega), if_neg h1, if_neg h2, if_neg h3,
      hfirst]
    exact ⟨_, rfl⟩

theorem byteDigit?_eq_none {byte : UInt8} (h : 128 ≤ byte.toNat) : byteDigit? byte = none := by
  have all : ∀ m : Fin 128, digit? (Char.ofNat (128 + m.val)) = none := by decide
  have hlt : byte.toNat - 128 < 128 := by
    have hbyte := byte.toNat_lt
    omega
  have hnone := all ⟨byte.toNat - 128, hlt⟩
  rwa [Nat.add_sub_cancel' h] at hnone

theorem le_toNat_leadByte {c : Char} (h : ¬ c.toNat < 128) : 128 ≤ (leadByte c).toNat := by
  have hlt := toNat_lt_of_char c
  simp only [leadByte, if_neg h]
  split
  · rw [Nat.toUInt8, UInt8.toNat_ofNat']
    omega
  · split
    · rw [Nat.toUInt8, UInt8.toNat_ofNat']
      omega
    · rw [Nat.toUInt8, UInt8.toNat_ofNat']
      omega

theorem byteDigit?_leadByte (c : Char) : byteDigit? (leadByte c) = digit? c := by
  by_cases hascii : c.toNat < 128
  · have hbyte : (leadByte c).toNat = c.toNat := by
      rw [leadByte, if_pos hascii, Nat.toUInt8, UInt8.toNat_ofNat']
      omega
    rw [byteDigit?, hbyte, Char.ofNat_toNat]
  · rw [byteDigit?_eq_none (le_toNat_leadByte hascii)]
    cases hdigit : digit? c with
    | none => rfl
    | some d => exact absurd (toNat_lt_of_digit? hdigit) hascii

/-- The bytes of a text read as the text does. -/
theorem readMagnitudeBytes_utf8 (sum shift : Nat) (text : List Char) :
    readMagnitudeBytes sum shift (utf8 text) =
      (readMagnitude sum shift text).map fun result => (result.1, utf8 result.2) := by
  induction text generalizing sum shift with
  | nil => rfl
  | cons c cs ih =>
    rw [utf8, List.flatMap_cons, ← utf8, readMagnitude]
    cases hdigit : digit? c with
    | none =>
      obtain ⟨behind, hc⟩ := exists_utf8EncodeChar c
      rw [hc, List.cons_append, readMagnitudeBytes, byteDigit?_leadByte, hdigit]
      rfl
    | some d =>
      rw [utf8EncodeChar_of_lt (toNat_lt_of_digit? hdigit), List.singleton_append,
        readMagnitudeBytes, byteDigit?_leadByte, hdigit]
      dsimp only
      split
      · rfl
      · split
        · rfl
        · exact ih _ _

theorem readBytes_utf8 (text : List Char) :
    readBytes (utf8 text) = (read text).map fun result => (result.1, utf8 result.2) := by
  rw [readBytes, readMagnitudeBytes_utf8, read]
  cases readMagnitude 0 0 text <;> rfl

/-- What is read is read in front of any bytes, and so is the error of a value that is not cut
off. -/
theorem readMagnitudeBytes_append {sum shift : Nat}
    (h : readMagnitudeBytes sum shift bytes ≠ .error .truncatedValue) (rest : List UInt8) :
    readMagnitudeBytes sum shift (bytes ++ rest) =
      (readMagnitudeBytes sum shift bytes).map fun result => (result.1, result.2 ++ rest) := by
  induction bytes generalizing sum shift with
  | nil => exact absurd rfl h
  | cons byte bytes ih =>
    rw [List.cons_append, readMagnitudeBytes]
    rw [readMagnitudeBytes] at h ⊢
    cases hdigit : byteDigit? byte with
    | none => rfl
    | some d =>
      rw [hdigit] at h
      dsimp only at h ⊢
      split
      · rfl
      · split
        · rfl
        · rename_i hd hroom
          rw [if_neg hd, if_neg hroom] at h
          exact ih h

theorem readBytes_append (h : readBytes bytes ≠ .error .truncatedValue) (rest : List UInt8) :
    readBytes (bytes ++ rest) =
      (readBytes bytes).map fun result => (result.1, result.2 ++ rest) := by
  have hmagnitude : readMagnitudeBytes 0 0 bytes ≠ .error .truncatedValue := by
    intro htruncated
    exact h (by rw [readBytes, htruncated]; rfl)
  rw [readBytes, readBytes, readMagnitudeBytes_append hmagnitude]
  cases readMagnitudeBytes 0 0 bytes <;> rfl

/-- A text that is not cut off is read in front of any bytes as it is read alone. -/
theorem readBytes_utf8_append (h : read text ≠ .error .truncatedValue) (rest : List UInt8) :
    readBytes (utf8 text ++ rest) =
      (read text).map fun result => (result.1, utf8 result.2 ++ rest) := by
  have hbytes : readBytes (utf8 text) ≠ .error .truncatedValue := by
    rw [readBytes_utf8]
    cases hread : read text with
    | ok result => exact fun h => nomatch h
    | error cause => exact fun hcause => h (hread.trans (congrArg _ (Except.error.inj hcause)))
  rw [readBytes_append hbytes, readBytes_utf8]
  cases read text <;> rfl

/-! ## Written values -/

/-- An integer of 59 bits is read back from what is written for it, and all that follows is left, be
it text or any bytes.  A greater one is too long to be read, whatever follows.  So written values
that stand one behind the other can be told apart in one way only.  The bytes of a text are read as
the text is. -/
theorem written_values_delimit_themselves :
    (∀ value : Int, value.natAbs < 2 ^ 59 →
      (∀ rest, read (write value ++ rest) = .ok (value, rest)) ∧
      ∀ rest, readBytes (utf8 (write value) ++ rest) = .ok (value, rest)) ∧
    (∀ value : Int, 2 ^ 59 ≤ value.natAbs →
      (∀ rest, read (write value ++ rest) = .error .overflow) ∧
      ∀ rest, readBytes (utf8 (write value) ++ rest) = .error .overflow) ∧
    (∀ (texts : List (List Char)) (values : List Int),
      (∀ text ∈ texts, ∃ value, text = write value) →
      texts.flatten = values.flatMap write → texts = values.map write) ∧
    (∀ values others : List Int, values.flatMap write = others.flatMap write → values = others) ∧
    ∀ text, readBytes (utf8 text) = (read text).map fun result => (result.1, utf8 result.2) := by
  refine ⟨fun value h => ?_, fun value h => ?_, fun _ _ => map_write_of_flatten,
    fun _ _ => flatMap_write_injective, readBytes_utf8⟩
  · have hread : ∀ rest, read (write value ++ rest) = .ok (value, rest) :=
      read_append (spells_write h)
    have halone : read (write value) = .ok (value, []) := by simpa using hread []
    refine ⟨hread, fun rest => ?_⟩
    rw [readBytes_utf8_append (by simp [halone]), halone]
    rfl
  · have hread : ∀ rest, read (write value ++ rest) = .error .overflow := read_write_of_le h
    have halone : read (write value) = .error .overflow := by simpa using hread []
    refine ⟨hread, fun rest => ?_⟩
    rw [readBytes_utf8_append (by simp [halone]), halone]
    rfl

/-- The least integer that can be read and the one below it, in front of bytes that are no text, and
two values that stand one behind the other. -/
theorem written_values_delimit_themselves_at_limit :
    write (1 - 2 ^ 59) = "///////////f".toList ∧
    readBytes (utf8 (write (1 - 2 ^ 59)) ++ [0xFF, 0x80]) = .ok (1 - 2 ^ 59, [0xFF, 0x80]) ∧
    readBytes (utf8 (write (-2 ^ 59)) ++ [0xFF, 0x80]) = .error .overflow ∧
    ["hB".toList, "A".toList] = [-16, 0].map write := by
  obtain ⟨hread, hlong, hcut, -, -⟩ := written_values_delimit_themselves
  have hlimit : write (1 - 2 ^ 59) = "///////////f".toList := by
    simp [write, ofInt, writeMagnitude, digit]
  have hfirst : "hB".toList = write (-16) := by simp [write, ofInt, writeMagnitude, digit]
  have hsecond : "A".toList = write 0 := by simp [write, ofInt, writeMagnitude, digit]
  refine ⟨hlimit, (hread (1 - 2 ^ 59) (by decide)).2 _, (hlong (-2 ^ 59) (by decide)).2 _, ?_⟩
  refine hcut _ [-16, 0] ?_ ?_
  · exact List.forall_mem_cons.2 ⟨⟨_, hfirst⟩, List.forall_mem_singleton.2 ⟨_, hsecond⟩⟩
  · rw [hfirst, hsecond]
    rfl

end Vlq
end Inlay
