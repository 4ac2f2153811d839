import Inlay.SourceMap.Vlq
import Mathlib.Tactic.Ring

/-!
# Spelled values

`Spells text value` says which texts stand for which integers, without the reader: one to twelve
digits of base 64, of which all but the last announce a further one, with five bits of a magnitude
in each.  The reader takes exactly such a text off the front of what it is given (`read_eq_ok_iff`),
so it never looks behind the value it reads.  The writer spells every integer of 59 bits
(`spells_write`).
-/

namespace Inlay
namespace Vlq

/-! ## Digits -/

theorem digit?_digit {n : Nat} (h : n < 64) : digit? (digit n) = some n := by
  have all : ∀ m : Fin 64, digit? (digit m.val) = some m.val := by decide
  exact all ⟨n, h⟩

theorem digit?_eq_none_of_separator {c : Char} (h : c = ',' ∨ c = ';') : digit? c = none := by
  rcases h with h | h <;> rw [h] <;> rfl

/-! ## Texts of values -/

/-- The number of digits that a value has at most. -/
def maxDigits : Nat := 12

/-- The number that digits spell.  Each carries five bits, the lowest first; the sixth bit of a
digit does not count. -/
def magnitudeOf : List Nat → Nat
  | [] => 0
  | d :: ds => d % 32 + 32 * magnitudeOf ds

/-- A text is the digits of a magnitude when only the last of them has its sixth bit clear. -/
def SpellsMagnitude (text : List Char) (announcing : List Nat) (last : Nat) : Prop :=
  text.map digit? = (announcing ++ [last]).map some ∧ (∀ d ∈ announcing, 32 ≤ d) ∧ last < 32

/-- A text stands for an integer: it is the digits of its magnitude, not too many of them. -/
def Spells (text : List Char) (value : Int) : Prop :=
  ∃ announcing last, SpellsMagnitude text announcing last ∧ announcing.length < maxDigits ∧
    value = toInt (magnitudeOf (announcing ++ [last]))

theorem SpellsMagnitude.ne_nil {text : List Char} {announcing : List Nat} {last : Nat}
    (h : SpellsMagnitude text announcing last) : text ≠ [] := by
  intro hnil
  have hmap := h.1
  rw [hnil] at hmap
  simp at hmap

theorem Spells.ne_nil {text : List Char} {value : Int} (h : Spells text value) : text ≠ [] := by
  obtain ⟨_, _, hm, _⟩ := h
  exact hm.ne_nil

/-- A value holds no separator of mappings. -/
theorem Spells.not_separator {text : List Char} {value : Int} (h : Spells text value)
    {c : Char} (hc : c ∈ text) : ¬(c = ',' ∨ c = ';') := by
  obtain ⟨announcing, last, ⟨hmap, _⟩, _⟩ := h
  have hmem : digit? c ∈ (announcing ++ [last]).map some := hmap ▸ List.mem_map_of_mem hc
  obtain ⟨d, -, hd⟩ := List.mem_map.1 hmem
  intro hsep
  rw [digit?_eq_none_of_separator hsep] at hd
  cases hd

theorem spellsMagnitude_cons {c : Char} {cs : List Char} {d : Nat} {announcing : List Nat}
    {last : Nat} (hc : digit? c = some d) (hd : 32 ≤ d) (h : SpellsMagnitude cs announcing last) :
    SpellsMagnitude (c :: cs) (d :: announcing) last := by
  obtain ⟨hmap, hann, hlast⟩ := h
  refine ⟨by simp [hc, hmap], ?_, hlast⟩
  intro e he
  rcases List.mem_cons.1 he with rfl | he
  · exact hd
  · exact hann e he

/-! ## Reading -/

/-- Reading takes the digits of a magnitude off the front.  The bits read so far stand below
`shift`, so the magnitude of the rest is moved up by it. -/
theorem readMagnitude_append {text : List Char} {announcing : List Nat} {last : Nat}
    (h : SpellsMagnitude text announcing last) {sum shift : Nat}
    (hlen : shift + 5 * announcing.length ≤ shiftLimit) (rest : List Char) :
    readMagnitude sum shift (text ++ rest) =
      .ok (sum + magnitudeOf (announcing ++ [last]) * twoTo shift, rest) := by
  obtain ⟨hmap, hann, hlast⟩ := h
  -- on the announcing digits: each of them leaves the rest five bits higher
  induction announcing generalizing text sum shift with
  | nil =>
    obtain ⟨c, rfl, hc⟩ : ∃ c, text = [c] ∧ digit? c = some last := by
      simpa [List.map_eq_cons_iff] using hmap
    simp [readMagnitude, hc, hlast, magnitudeOf]
  | cons d announcing ih =>
    obtain ⟨c, cs, rfl, hc, hcs⟩ : ∃ c cs, text = c :: cs ∧ digit? c = some d ∧
        cs.map digit? = (announcing ++ [last]).map some := by
      simpa [List.map_eq_cons_iff] using hmap
    have hd : ¬ d < 32 := Nat.not_lt.2 (hann d List.mem_cons_self)
    rw [List.length_cons] at hlen
    have hroom : ¬ shiftLimit < shift + 5 := by omega
    have hstep : readMagnitude (sum + d % 32 * twoTo shift) (shift + 5) (cs ++ rest) =
        .ok (sum + d % 32 * twoTo shift + magnitudeOf (announcing ++ [last]) * twoTo (shift + 5),
          rest) :=
      ih (by omega) hcs (fun e he => hann e (List.mem_cons_of_mem d he))
    have hpow : twoTo (shift + 5) = 32 * twoTo shift := by
      simp only [twoTo, Nat.pow_eq, Nat.pow_add]
      omega
    simp only [List.cons_append, readMagnitude, hc, if_neg hd, if_neg hroom, hstep, hpow,
      magnitudeOf]
    congr 2
    ring

theorem spellsMagnitude_of_readMagnitude {cs rest : List Char} {sum shift total : Nat}
    (hshift : shift ≤ shiftLimit) (h : readMagnitude sum shift cs = .ok (total, rest)) :
    ∃ text announcing last, cs = text ++ rest ∧ SpellsMagnitude text announcing last ∧
      shift + 5 * announcing.length ≤ shiftLimit := by
  induction cs generalizing sum shift with
  | nil => simp [readMagnitude] at h
  | cons c cs ih =>
    rw [readMagnitude] at h
    cases hc : digit? c with
    | none => simp [hc] at h
    | some d =>
      simp only [hc] at h
      by_cases hd : d < 32
      · simp only [if_pos hd, Except.ok.injEq, Prod.mk.injEq] at h
        obtain ⟨-, rfl⟩ := h
        exact ⟨[c], [], d, rfl, ⟨by simp [hc], by simp, hd⟩, by simpa using hshift⟩
      · rw [if_neg hd] at h
        by_cases hroom : shiftLimit < shift + 5
        · simp [hroom] at h
        · rw [if_neg hroom] at h
          obtain ⟨text, announcing, last, rfl, hm, hlen⟩ := ih (Nat.not_lt.1 hroom) h
          refine ⟨c :: text, d :: announcing, last, rfl, ?_, ?_⟩
          · exact spellsMagnitude_cons hc (Nat.not_lt.1 hd) hm
          · rw [List.length_cons]; omega

theorem shift_le_shiftLimit_iff (n : Nat) : 0 + 5 * n ≤ shiftLimit ↔ n < maxDigits := by
  unfold shiftLimit maxDigits
  omega

theorem read_append {text : List Char} {value : Int} (h : Spells text value) (rest : List Char) :
    read (text ++ rest) = .ok (value, rest) := by
  obtain ⟨announcing, last, hm, hlen, rfl⟩ := h
  rw [read, readMagnitude_append hm ((shift_le_shiftLimit_iff _).2 hlen)]
  simp [twoTo]

/-- The reader takes exactly the text of one value off the front. -/
theorem read_eq_ok_iff {cs rest : List Char} {value : Int} :
    read cs = .ok (value, rest) ↔ ∃ text, cs = text ++ rest ∧ Spells text value := by
  constructor
  · intro h
    cases hr : readMagnitude 0 0 cs with
    | error e => simp [read, hr] at h
    | ok result =>
      obtain ⟨total, behind⟩ := result
      have hread := h
      simp only [read, hr, Except.ok.injEq, Prod.mk.injEq] at h
      obtain ⟨rfl, rfl⟩ := h
      obtain ⟨text, announcing, last, rfl, hm, hlen⟩ :=
        spellsMagnitude_of_readMagnitude (Nat.zero_le _) hr
      have hspells : Spells text (toInt (magnitudeOf (announcing ++ [last]))) :=
        ⟨announcing, last, hm, (shift_le_shiftLimit_iff _).1 hlen, rfl⟩
      rw [read_append hspells, Except.ok.injEq, Prod.mk.injEq] at hread
      exact ⟨text, rfl, hread.1 ▸ hspells⟩
  · intro h
    obtain ⟨text, rfl, hs⟩ := h
    exact read_append hs rest

/-! ## Writing -/

theorem spellsMagnitude_singleton {n : Nat} (h : n < 32) : SpellsMagnitude [digit n] [] n := by
  have hdigit : digit? (digit n) = some n := digit?_digit (by omega)
  exact ⟨by simp [hdigit], by simp, h⟩

theorem magnitudeOf_singleton {n : Nat} (h : n < 32) : magnitudeOf [n] = n := by
  show n % 32 + 32 * 0 = n
  omega

/-- The writer spells every magnitude, with no more digits than it needs: the last one is not zero
unless it stands alone. -/
theorem spellsMagnitude_writeMagnitude {k n : Nat} (h : n < 32 ^ (k + 1)) :
    ∃ announcing last, SpellsMagnitude (writeMagnitude n) announcing last ∧
      announcing.length ≤ k ∧ magnitudeOf (announcing ++ [last]) = n ∧
      (last = 0 → announcing = []) := by
  induction k generalizing n with
  | zero =>
    have hn : n < 32 := by simpa using h
    rw [writeMagnitude, if_pos hn]
    exact ⟨[], n, spellsMagnitude_singleton hn, Nat.le_refl 0, magnitudeOf_singleton hn,
      fun _ => rfl⟩
  | succ k ih =>
    rw [writeMagnitude]
    by_cases hn : n < 32
    · rw [if_pos hn]
      exact ⟨[], n, spellsMagnitude_singleton hn, Nat.zero_le _, magnitudeOf_singleton hn,
        fun _ => rfl⟩
    · rw [if_neg hn]
      have hrest : n / 32 < 32 ^ (k + 1) := by
        rw [Nat.div_lt_iff_lt_mul (by decide)]
        exact h
      obtain ⟨announcing, last, hm, hlen, hmag, hshort⟩ := ih hrest
      have hdigit : digit? (digit (32 + n % 32)) = some (32 + n % 32) := digit?_digit (by omega)
      refine ⟨(32 + n % 32) :: announcing, last, ?_, Nat.succ_le_succ hlen, ?_, ?_⟩
      · exact spellsMagnitude_cons hdigit (by omega) hm
      · rw [List.cons_append, magnitudeOf, hmag]
        omega
      · intro hzero
        -- a last digit of zero would be all that is left of the magnitude, which is not zero
        rw [hshort hzero, hzero] at hmag
        have hnone : n / 32 = 0 := hmag.symm
        omega

/-- The bound on the absolute value of an integer that twelve digits hold. -/
def valueLimit : Nat := 2 ^ 59

theorem spells_write {value : Int} (h : value.natAbs < valueLimit) :
    Spells (write value) value := by
  have hmag : ofInt value < 32 ^ (11 + 1) := by
    unfold ofInt valueLimit at *
    split <;> omega
  obtain ⟨announcing, last, hm, hlen, hval, -⟩ := spellsMagnitude_writeMagnitude hmag
  refine ⟨announcing, last, hm, Nat.lt_succ_of_le hlen, ?_⟩
  rw [hval, toInt_ofInt]

end Vlq
end Inlay
