import Inlay.Json.Reader
import Inlay.Json.Writer

/-!
# Strings and integers are read back

What the writer makes of a string or an integer is read back, with whatever stands behind it
(`readString_escaped`, `readNumber_writeInt`).  A string may hold any character, as the writer
escapes exactly those that would end the string or may not stand in it (`readUnits_escapeChar`).  An
integer must fit a word of 64 bits, and must not run into what stands behind it.
-/

namespace Inlay
namespace Json

/-! ## Strings -/

theorem hexQuad?_hexDigit {n : Nat} (h : n < 0x20) :
    hexQuad? '0' '0' (hexDigit (n / 16)) (hexDigit (n % 16)) = some n := by
  have all : ∀ m : Fin 0x20,
      hexQuad? '0' '0' (hexDigit (m.val / 16)) (hexDigit (m.val % 16)) = some m.val := by decide
  exact all ⟨n, h⟩

/-- A number below the surrogates names a character. -/
theorem unitOf_toNat {c : Char} (h : c.toNat < 0x20) : unitOf c.toNat = .char c := by
  have hplain : (isHighSurrogate c.toNat || isLowSurrogate c.toNat) = false := by
    simp only [isHighSurrogate, isLowSurrogate, Bool.or_eq_false_iff, Bool.and_eq_false_iff,
      decide_eq_false_iff_not]
    omega
  rw [unitOf, hplain, Char.ofNat_toNat]
  rfl

/-- A character that needs no escape is read as itself. -/
theorem readUnits_plain {c : Char} (hquote : c ≠ '"') (hslash : c ≠ '\\')
    (hcontrol : ¬ c.toNat < 0x20) (rest : List Char) :
    readUnits (c :: rest) = (readUnits rest).map fun (us, r) => (.char c :: us, r) := by
  rw [readUnits]
  · simp [hslash, hcontrol]
  all_goals simp_all

/-- A character that has a letter of its own behind the backslash. -/
theorem readUnits_short {c e : Char} (he : e ≠ 'u') (h : shortEscape? e = some c)
    (rest : List Char) :
    readUnits ('\\' :: e :: rest) = (readUnits rest).map fun (us, r) => (.char c :: us, r) := by
  rw [readUnits]
  · rw [h]
  · intro a b c d tail hu
    simp_all

theorem readUnits_escapeChar (c : Char) (rest : List Char) :
    readUnits (escapeChar c ++ rest) =
      (readUnits rest).map fun (us, r) => (.char c :: us, r) := by
  unfold escapeChar
  -- seven characters have a letter of their own, and the others below the space have a number
  iterate 7
    split
    · subst c
      exact readUnits_short (by decide) rfl rest
  split
  · rename_i hcontrol
    show readUnits ('\\' :: 'u' :: '0' :: '0' :: _ :: _ :: rest) = _
    rw [readUnits, hexQuad?_hexDigit hcontrol]
    simp only [unitOf_toNat hcontrol]
  · exact readUnits_plain ‹_› ‹_› ‹_› rest

theorem readUnits_escaped (cs rest : List Char) :
    readUnits (cs.flatMap escapeChar ++ '"' :: rest) = some (cs.map .char, rest) := by
  induction cs with
  | nil => rw [List.flatMap_nil, List.nil_append, readUnits, List.map_nil]
  | cons c cs ih => rw [List.flatMap_cons, List.append_assoc, readUnits_escapeChar, ih]; rfl

theorem charsOf?_map_char (cs : List Char) : charsOf? (cs.map .char) = some cs := by
  induction cs with
  | nil => rfl
  | cons c cs ih => rw [List.map_cons, charsOf?, ih]; rfl

/-- A string is read back from behind its opening quote. -/
theorem readString_escaped (s : String) (rest : List Char) :
    readString (s.toList.flatMap escapeChar ++ '"' :: rest) = some (some s, rest) := by
  simp only [readString, readUnits_escaped, Option.map_some, charsOf?_map_char,
    String.ofList_toList]

/-! ## Digits -/

/-- The values of the decimal digits of a number, the highest first. -/
def decimalDigits (n : Nat) : List Nat :=
  if n < 10 then [n] else decimalDigits (n / 10) ++ [n % 10]
termination_by n
decreasing_by omega

theorem decimalDigits_of_lt {n : Nat} (h : n < 10) : decimalDigits n = [n] := by
  rw [decimalDigits, if_pos h]

theorem decimalDigits_of_not_lt {n : Nat} (h : ¬ n < 10) :
    decimalDigits n = decimalDigits (n / 10) ++ [n % 10] := by
  rw [decimalDigits, if_neg h]

theorem natDigits_eq (n : Nat) : natDigits n = (decimalDigits n).map Nat.digitChar := by
  induction n using decimalDigits.induct with
  | case1 n h =>
    rw [natDigits, Nat.toDigits_of_lt_base h, decimalDigits_of_lt h]
    rfl
  | case2 n h ih =>
    have hstep : natDigits n = natDigits (n / 10) ++ [(n % 10).digitChar] :=
      Nat.toDigits_of_base_le (by decide) (Nat.le_of_not_lt h)
    rw [hstep, ih, decimalDigits_of_not_lt h, List.map_append, List.map_singleton]

theorem lt_of_mem_decimalDigits (n : Nat) : ∀ d ∈ decimalDigits n, d < 10 := by
  induction n using decimalDigits.induct with
  | case1 n h =>
    rw [decimalDigits_of_lt h]
    intro d hd
    rwa [List.mem_singleton.1 hd]
  | case2 n h ih =>
    rw [decimalDigits_of_not_lt h]
    intro d hd
    rcases List.mem_append.1 hd with hd | hd
    · exact ih d hd
    · rw [List.mem_singleton.1 hd]
      omega

theorem ofDigits_decimalDigits (n : Nat) : ofDigits (decimalDigits n) = n := by
  induction n using decimalDigits.induct with
  | case1 n h =>
    rw [decimalDigits_of_lt h]
    show 0 * 10 + n = n
    omega
  | case2 n h ih =>
    rw [ofDigits] at ih
    rw [decimalDigits_of_not_lt h, ofDigits, List.foldl_append, ih]
    show n / 10 * 10 + n % 10 = n
    omega

/-- Only zero starts with a zero. -/
theorem decimalDigits_eq_cons (n : Nat) :
    ∃ d ds, decimalDigits n = d :: ds ∧ (d = 0 → n = 0) := by
  induction n using decimalDigits.induct with
  | case1 n h => exact ⟨n, [], decimalDigits_of_lt h, id⟩
  | case2 n h ih =>
    obtain ⟨d, ds, hds, hzero⟩ := ih
    refine ⟨d, ds ++ [n % 10], by rw [decimalDigits_of_not_lt h, hds, List.cons_append], ?_⟩
    intro hd
    have := hzero hd
    omega

theorem natDigits_eq_cons (n : Nat) : ∃ d < 10, ∃ cs, natDigits n = Nat.digitChar d :: cs := by
  obtain ⟨d, ds, hds, -⟩ := decimalDigits_eq_cons n
  have hlt : d < 10 := lt_of_mem_decimalDigits n d (by rw [hds]; exact List.mem_cons_self)
  exact ⟨d, hlt, ds.map Nat.digitChar, by rw [natDigits_eq, hds, List.map_cons]⟩

/-! ## Integers -/

theorem decimalDigit?_digitChar {d : Nat} (h : d < 10) : decimalDigit? d.digitChar = some d := by
  have all : ∀ m : Fin 10, decimalDigit? (Nat.digitChar m.val) = some m.val := by decide
  exact all ⟨d, h⟩

/-- What may stand behind a value: nothing, or what ends a value that others follow. -/
def EndsValue (rest : List Char) : Prop := ∀ c ∈ rest.head?, c = ',' ∨ c = ']' ∨ c = '}'

theorem takeDigits_of_endsValue {rest : List Char} (h : EndsValue rest) :
    takeDigits rest = ([], rest) := by
  cases rest with
  | nil => rfl
  | cons c rest =>
    have hnone : decimalDigit? c = none := by
      rcases h c rfl with rfl | rfl | rfl <;> rfl
    rw [takeDigits, hnone]

/-- A run of digits is taken whole. -/
theorem takeDigits_append {ds : List Nat} {rest : List Char} (hds : ∀ d ∈ ds, d < 10)
    (hrest : EndsValue rest) : takeDigits (ds.map Nat.digitChar ++ rest) = (ds, rest) := by
  induction ds with
  | nil => exact takeDigits_of_endsValue hrest
  | cons d ds ih =>
    obtain ⟨hd, hds⟩ := List.forall_mem_cons.1 hds
    rw [List.map_cons, List.cons_append, takeDigits, decimalDigit?_digitChar hd, ih hds]

theorem readWhole_natDigits (n : Nat) {rest : List Char} (hrest : EndsValue rest) :
    readWhole (natDigits n ++ rest) = some (decimalDigits n, rest) := by
  have htake : takeDigits (natDigits n ++ rest) = (decimalDigits n, rest) := by
    rw [natDigits_eq]
    exact takeDigits_append (lt_of_mem_decimalDigits n) hrest
  obtain ⟨d, ds, hds, hzero⟩ := decimalDigits_eq_cons n
  rw [readWhole, htake, hds]
  cases ds with
  | nil => rfl
  | cons e ds =>
    cases d with
    | zero =>
      rw [hzero rfl, decimalDigits_of_lt (by decide)] at hds
      cases hds
    | succ d => rfl

theorem readFraction_of_endsValue {rest : List Char} (h : EndsValue rest) :
    readFraction rest = some (none, rest) := by
  cases rest with
  | nil => rfl
  | cons c rest => rcases h c rfl with rfl | rfl | rfl <;> rfl

theorem readExponent_of_endsValue {rest : List Char} (h : EndsValue rest) :
    readExponent rest = some (none, rest) := by
  cases rest with
  | nil => rfl
  | cons c rest => rcases h c rfl with rfl | rfl | rfl <;> rfl

theorem readMagnitude_natDigits (negative : Bool) (n : Nat) {rest : List Char}
    (hrest : EndsValue rest) :
    readMagnitude negative (natDigits n ++ rest) =
      some (numberOf? negative (decimalDigits n) none none, rest) := by
  rw [readMagnitude, readWhole_natDigits n hrest]
  simp [readFraction_of_endsValue hrest, readExponent_of_endsValue hrest]

/-- The integers that fit a word of 64 bits, with a sign or without. -/
def FitsWord64 (n : Int) : Prop := -(word63Limit : Int) ≤ n ∧ n < word64Limit

theorem numberOf?_false_decimalDigits {n : Nat} (h : n < word64Limit) :
    numberOf? false (decimalDigits n) none none = some (.integer n) := by
  simp [numberOf?, ofDigits_decimalDigits, h]

theorem numberOf?_true_decimalDigits {n : Nat} (hpos : 0 < n) (h : n ≤ word63Limit) :
    numberOf? true (decimalDigits n) none none = some (.integer (-n)) := by
  simp [numberOf?, ofDigits_decimalDigits, hpos, h]

/-- The digits of a number do not start with a sign. -/
theorem readNumber_natDigits (n : Nat) (rest : List Char) :
    readNumber (natDigits n ++ rest) = readMagnitude false (natDigits n ++ rest) := by
  have hsign : ∀ m : Fin 10, Nat.digitChar m.val ≠ '-' := by decide
  obtain ⟨d, hd, cs, hcs⟩ := natDigits_eq_cons n
  rw [hcs, List.cons_append, readNumber]
  exact fun _ heq => hsign ⟨d, hd⟩ (List.cons_eq_cons.1 heq).1

/-- An integer is read back from in front of what ends a value. -/
theorem readNumber_writeInt {n : Int} (hn : FitsWord64 n) {rest : List Char}
    (hrest : EndsValue rest) :
    readNumber (writeInt n ++ rest) = some (some (.integer n), rest) := by
  obtain ⟨hlow, hhigh⟩ := hn
  unfold writeInt
  split
  next hneg =>
    show readMagnitude true (natDigits n.natAbs ++ rest) = _
    have habs : -(n.natAbs : Int) = n := by omega
    rw [readMagnitude_natDigits true _ hrest,
      numberOf?_true_decimalDigits (by omega) (by omega), habs]
  next hneg =>
    have habs : (n.natAbs : Int) = n := by omega
    rw [readNumber_natDigits, readMagnitude_natDigits false _ hrest,
      numberOf?_false_decimalDigits (by omega), habs]

end Json
end Inlay
