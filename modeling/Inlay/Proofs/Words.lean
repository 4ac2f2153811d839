import Mathlib.Algebra.Group.Int.Defs
import Mathlib.Algebra.Group.Nat.Defs

/-!
# Arithmetic on machine words

A signed word of 64 bits holds the integers from `-2 ^ 63` to `2 ^ 63 - 1`, and every operation on
such words takes its result modulo `2 ^ 64`.  Where the result on integers is the value of a word,
and no word is shifted by as many places as it has, the machine gives that very integer
(`WordOperation.isExact_of_inWord`).  Masks and shifts to the right cannot overflow; of a word that
is not negative they give remainders and quotients.
-/

namespace Inlay

/-- Whether an integer is the value of a signed word of 64 bits. -/
def InWord (n : Int) : Prop := -2 ^ 63 ≤ n ∧ n < 2 ^ 63

theorem InWord.bmod_eq {n : Int} (h : InWord n) : n.bmod (2 ^ 64) = n := by
  obtain ⟨hle, hlt⟩ := h
  exact Int.bmod_eq_of_le (by omega) (by omega)

/-- An operation whose result a word may have no room for. -/
inductive WordOperation where
  | add (left right : Int64)
  | subtract (left right : Int64)
  | negate (word : Int64)
  | shiftLeft (word : Int64) (places : UInt32)
deriving Repr, DecidableEq

namespace WordOperation

/-- What the machine gives. -/
def result : WordOperation → Int64
  | add left right => left + right
  | subtract left right => left - right
  | negate word => -word
  | shiftLeft word places => word <<< Int64.ofNat places.toNat

/-- What the operation gives on integers. -/
def exact : WordOperation → Int
  | add left right => left.toInt + right.toInt
  | subtract left right => left.toInt - right.toInt
  | negate word => -word.toInt
  | shiftLeft word places => word.toInt * 2 ^ places.toNat

/-- The number of places by which a word is shifted. -/
def places : WordOperation → Nat
  | shiftLeft _ places => places.toNat
  | _ => 0

/-- An operation that does not overflow: the machine gives what is right on integers. -/
structure IsExact (op : WordOperation) : Prop where
  inWord : InWord op.exact
  places_lt : op.places < 64
  toInt_result : op.result.toInt = op.exact

end WordOperation

namespace Words

variable {word : Int64} {places : Nat}

/-! ## Shifts -/

theorem toNat_smod_places (h : places < 64) :
    ((Int64.ofNat places).toBitVec.smod 64).toNat = places := by
  have all : ∀ m : Fin 64, ((Int64.ofNat m.val).toBitVec.smod 64).toNat = m.val := by decide
  exact all ⟨places, h⟩

theorem toInt_shiftLeft (word : Int64) (h : places < 64) :
    (word <<< Int64.ofNat places).toInt = (word.toInt * 2 ^ places).bmod (2 ^ 64) := by
  rw [← Int64.toInt_toBitVec, Int64.toBitVec_shiftLeft, BitVec.shiftLeft_eq', toNat_smod_places h,
    BitVec.toInt_shiftLeft, ← Int64.toInt_toBitVec word,
    BitVec.toInt_eq_toNat_bmod word.toBitVec, Int.bmod_mul_bmod, Nat.shiftLeft_eq]
  push_cast
  rfl

theorem toInt_shiftRight (word : Int64) (h : places < 64) :
    (word >>> Int64.ofNat places).toInt = word.toInt / 2 ^ places := by
  rw [← Int64.toInt_toBitVec, Int64.toBitVec_shiftRight, BitVec.toInt_sshiftRight',
    toNat_smod_places h, Int.shiftRight_eq_div_pow, Int64.toInt_toBitVec]
  push_cast
  rfl

/-! ## Words that are not negative -/

theorem toNat_toBitVec (h : 0 ≤ word.toInt) : (word.toBitVec.toNat : Int) = word.toInt := by
  have hle : (0 : Int64) ≤ word := Int64.le_iff_toInt_le.2 h
  rw [Int64.toNat_toBitVec_of_le hle, Int64.toInt_eq_toNatClampNeg hle]

theorem toInt_of_toNat_lt (h : word.toBitVec.toNat < 2 ^ 63) :
    word.toInt = word.toBitVec.toNat := by
  rw [← Int64.toInt_toBitVec]
  exact BitVec.toInt_eq_toNat_of_lt (by omega)

/-- Masking the low places of a word leaves a remainder. -/
theorem toInt_and_mask (h : 0 ≤ word.toInt) {mask : Int64}
    (hmask : mask.toBitVec.toNat = 2 ^ places - 1) :
    (word &&& mask).toInt = word.toInt % 2 ^ places := by
  have hword := toNat_toBitVec h
  have hlt := word.toInt_lt
  have hnat : (word &&& mask).toBitVec.toNat = word.toBitVec.toNat % 2 ^ places := by
    rw [Int64.toBitVec_and, BitVec.toNat_and, hmask, Nat.and_two_pow_sub_one_eq_mod]
  have hle : word.toBitVec.toNat % 2 ^ places ≤ word.toBitVec.toNat := Nat.mod_le _ _
  rw [toInt_of_toNat_lt (by omega), hnat, ← hword]
  push_cast
  rfl

/-- Setting the lowest place of an even word adds one. -/
theorem toInt_or_one (h : 0 ≤ word.toInt) (heven : word.toInt % 2 = 0) :
    (word ||| 1).toInt = word.toInt + 1 := by
  have hword := toNat_toBitVec h
  have hlt := word.toInt_lt
  have hhalf : word.toBitVec.toNat = 2 ^ 1 * (word.toBitVec.toNat / 2) := by omega
  have hnat : (word ||| 1).toBitVec.toNat = word.toBitVec.toNat + 1 := by
    rw [Int64.toBitVec_or, BitVec.toNat_or, hhalf]
    exact (Nat.two_pow_add_eq_or_of_lt (show 1 < 2 ^ 1 by decide) _).symm
  rw [toInt_of_toNat_lt (by omega), hnat, ← hword]
  rfl

/-- The low places of a word as an unsigned one of 32 bits. -/
def lower (word : Int64) : UInt32 := word.toUInt64.toUInt32

theorem toNat_lower (h : 0 ≤ word.toInt) (hlt : word.toInt < 2 ^ 32) :
    ((lower word).toNat : Int) = word.toInt := by
  have hword := toNat_toBitVec h
  rw [lower, UInt64.toNat_toUInt32, ← Int64.toNat_toBitVec]
  omega

end Words

theorem WordOperation.isExact_of_inWord {op : WordOperation} (hword : InWord op.exact)
    (hplaces : op.places < 64) : op.IsExact := by
  refine ⟨hword, hplaces, ?_⟩
  rw [← hword.bmod_eq]
  cases op with
  | add left right => exact Int64.toInt_add left right
  | subtract left right => exact Int64.toInt_sub left right
  | negate word => exact Int64.toInt_neg word
  | shiftLeft word places => exact Words.toInt_shiftLeft word hplaces

end Inlay
