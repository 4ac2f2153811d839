/-!
Blank characters: the Unicode property `White_Space`, and trimming by it.

`trimStart` and `trimEnd` drop the longest blank run at one end, so `trim` leaves a text that is
empty or has a character on both ends that is not blank.
-/

namespace Inlay
namespace Text

/-- The ranges of code points that have the property `White_Space`. -/
def blankRanges : List (Nat × Nat) :=
  [(0x9, 0xD), (0x20, 0x20), (0x85, 0x85), (0xA0, 0xA0), (0x1680, 0x1680), (0x2000, 0x200A),
   (0x2028, 0x2029), (0x202F, 0x202F), (0x205F, 0x205F), (0x3000, 0x3000)]

/-- Whether a character has the property `White_Space`. -/
def isBlank (c : Char) : Bool :=
  blankRanges.any fun (first, last) => first ≤ c.toNat && c.toNat ≤ last

/-- The text without the blank run at its start. -/
def trimStart (cs : List Char) : List Char := cs.dropWhile isBlank

/-- The text without the blank run at its end. -/
def trimEnd (cs : List Char) : List Char := (cs.reverse.dropWhile isBlank).reverse

/-- The text without the blank runs at its two ends. -/
def trim (cs : List Char) : List Char := trimEnd (trimStart cs)

def allBlank (cs : List Char) : Bool := cs.all isBlank

/-- The first run of characters that are not blank. -/
def firstWord (cs : List Char) : List Char := (trimStart cs).takeWhile fun c => !isBlank c

theorem trimStart_suffix (cs : List Char) : trimStart cs <:+ cs := List.dropWhile_suffix _

theorem trimStart_eq_nil_iff (cs : List Char) : trimStart cs = [] ↔ allBlank cs = true := by
  induction cs with
  | nil => simp [trimStart, allBlank]
  | cons c cs ih =>
    by_cases h : isBlank c = true
    · rw [trimStart, List.dropWhile_cons_of_pos h, allBlank, List.all_cons, h, Bool.true_and]
      exact ih
    · simp [trimStart, allBlank, h]

end Text
end Inlay
