/-!
Positions in a text.  Offsets count the bytes of the UTF-8 form, lines and columns count from
zero, and a column counts code points.
-/

namespace Inlay
namespace Text

/-- A place in a text: line feeds before it, and code points since the last of them. -/
structure LineColumn where
  line : Nat
  column : Nat
deriving Repr, DecidableEq, Inhabited

namespace LineColumn

def start : LineColumn := ⟨0, 0⟩

/-- The place behind one more character. -/
def advance (p : LineColumn) (c : Char) : LineColumn :=
  if c = '\n' then ⟨p.line + 1, 0⟩ else ⟨p.line, p.column + 1⟩

/-- The place behind a run of characters. -/
def advanceAll (p : LineColumn) (cs : List Char) : LineColumn := cs.foldl advance p

end LineColumn

/-- The number of bytes of a text in UTF-8. -/
def byteLength : List Char → Nat
  | [] => 0
  | c :: cs => c.utf8Size + byteLength cs

/-- The place `offset` bytes behind `p`, or nothing when the text is shorter.  An offset inside a
character stands for the end of that character. -/
def placeFrom (p : LineColumn) : List Char → Nat → Option LineColumn
  | _, 0 => some p
  | [], _ + 1 => none
  | c :: cs, offset + 1 => placeFrom (p.advance c) cs (offset + 1 - c.utf8Size)

/-- The place of a byte offset in a text, or nothing when the text is shorter than that. -/
def placeOf? (text : String) (offset : Nat) : Option LineColumn :=
  placeFrom .start text.toList offset

theorem utf8ByteSize_eq_byteLength (cs : List Char) :
    (String.ofList cs).utf8ByteSize = byteLength cs := by
  induction cs with
  | nil => rfl
  | cons c cs ih =>
    rw [String.ofList_cons, String.utf8ByteSize_append, String.utf8ByteSize_singleton, ih,
      byteLength]

theorem byteLength_append (a b : List Char) :
    byteLength (a ++ b) = byteLength a + byteLength b := by
  induction a with
  | nil => simp [byteLength]
  | cons c cs ih => simp only [List.cons_append, byteLength, ih]; omega

/-- At the end of a front of the text the place is the one behind that front. -/
theorem placeFrom_byteLength (p : LineColumn) (front rest : List Char) :
    placeFrom p (front ++ rest) (byteLength front) = some (p.advanceAll front) := by
  induction front generalizing p with
  | nil => cases rest <;> simp [byteLength, placeFrom, LineColumn.advanceAll]
  | cons c cs ih =>
    have hpos : 0 < c.utf8Size := Char.utf8Size_pos c
    obtain ⟨k, hk⟩ : ∃ k, byteLength (c :: cs) = k + 1 :=
      ⟨byteLength (c :: cs) - 1, by simp only [byteLength]; omega⟩
    have hrest : k + 1 - c.utf8Size = byteLength cs := by
      rw [← hk]; simp only [byteLength]; omega
    rw [hk]
    simp only [List.cons_append, placeFrom, hrest, ih]
    rfl

end Text
end Inlay
