import Inlay.Proofs.Text.Lines
import Mathlib.Data.List.DropRight

/-!
# The places of offsets

The place of an offset counts what stands in front of it: the line feeds, and the characters behind
the last of them (`advanceAll_start`).  An offset inside a character counts that character too
(`placeOf?_inside`), and an offset past the end of the text has no place (`placeOf?_eq_none_iff`).

A character leads to a later place, on the same line or on the next one.  Of two offsets where
characters start the greater one therefore has the later place (`before_of_isValid`).
-/

namespace Inlay
namespace Text

variable {p q r : LineColumn} {c : Char} {cs front : List Char} {text : String} {offset : Nat}

/-- A place counts line feeds, and the characters behind the last of them. -/
theorem advanceAll_start (cs : List Char) :
    LineColumn.start.advanceAll cs = ⟨cs.count '\n', (cs.rtakeWhile (· ≠ '\n')).length⟩ := by
  induction cs using List.reverseRecOn with
  | nil => rfl
  | append_singleton cs c ih =>
    rw [advanceAll_append, ih]
    show LineColumn.advance _ c = _
    rw [LineColumn.advance, List.count_append, List.rtakeWhile_concat]
    by_cases h : c = '\n'
    · subst h
      rfl
    · rw [if_neg h, if_pos (decide_eq_true h), List.length_append, List.count_singleton,
        if_neg (by simpa using h)]
      rfl

/-! ## Offsets inside a character and past the end -/

theorem utf8ByteSize_eq (text : String) : text.utf8ByteSize = byteLength text.toList := by
  rw [← utf8ByteSize_eq_byteLength, String.ofList_toList]

/-- Behind a front of the text, an offset is counted from the end of the front. -/
theorem placeFrom_append (p : LineColumn) (rest : List Char) (h : byteLength front ≤ offset) :
    placeFrom p (front ++ rest) offset =
      placeFrom (p.advanceAll front) rest (offset - byteLength front) := by
  induction front generalizing p offset with
  | nil => rfl
  | cons c front ih =>
    rw [byteLength] at h ⊢
    have hpos : 1 ≤ offset := Nat.le_trans c.utf8Size_pos (Nat.le_of_add_right_le h)
    obtain ⟨k, rfl⟩ := Nat.exists_eq_add_of_le' hpos
    rw [List.cons_append, placeFrom, ih _ (by omega), Nat.sub_sub]
    rfl

theorem placeFrom_inside (p : LineColumn) (c : Char) (rest : List Char) (hpos : 0 < offset)
    (hle : offset ≤ c.utf8Size) : placeFrom p (c :: rest) offset = some (p.advance c) := by
  obtain ⟨k, rfl⟩ := Nat.exists_eq_add_of_le' hpos
  rw [placeFrom, Nat.sub_eq_zero_of_le hle]
  cases rest <;> rfl

theorem placeFrom_eq_none_iff (p : LineColumn) :
    placeFrom p cs offset = none ↔ byteLength cs < offset := by
  induction cs generalizing p offset with
  | nil => cases offset <;> simp [placeFrom, byteLength]
  | cons c cs ih =>
    cases offset with
    | zero => simp [placeFrom]
    | succ k =>
      rw [placeFrom, ih, byteLength]
      omega

theorem placeOf?_eq_none_iff : placeOf? text offset = none ↔ text.utf8ByteSize < offset := by
  rw [placeOf?, placeFrom_eq_none_iff, utf8ByteSize_eq]

theorem placeOf?_append (front rest : String) :
    placeOf? (front ++ rest) front.utf8ByteSize =
      some (LineColumn.start.advanceAll front.toList) := by
  rw [utf8ByteSize_eq]
  exact placeOf?_front String.toList_append

/-- An offset inside a character has the place behind that character. -/
theorem placeOf?_inside (front rest : String) (c : Char) (h : front.utf8ByteSize < offset)
    (hle : offset ≤ front.utf8ByteSize + c.utf8Size) :
    placeOf? (front ++ String.singleton c ++ rest) offset =
      some (LineColumn.start.advanceAll (front.toList ++ [c])) := by
  rw [utf8ByteSize_eq] at h hle
  rw [placeOf?, String.toList_append, String.toList_append, String.toList_singleton,
    List.append_assoc, placeFrom_append _ _ (Nat.le_of_lt h), List.singleton_append,
    placeFrom_inside _ c _ (by omega) (by omega), advanceAll_append]
  rfl

/-! ## The order of places -/

/-- A place comes before another one: on an earlier line, or on the same line in an earlier
column. -/
def LineColumn.Before (p q : LineColumn) : Prop :=
  p.line < q.line ∨ p.line = q.line ∧ p.column < q.column

theorem LineColumn.Before.trans (h : p.Before q) (h' : q.Before r) : p.Before r := by
  unfold LineColumn.Before at *
  omega

theorem LineColumn.before_advance (p : LineColumn) (c : Char) : p.Before (p.advance c) := by
  rw [LineColumn.advance]
  split
  · exact .inl (Nat.lt_succ_self _)
  · exact .inr ⟨rfl, Nat.lt_succ_self _⟩

theorem LineColumn.before_advanceAll (p : LineColumn) (h : cs ≠ []) :
    p.Before (p.advanceAll cs) := by
  induction cs generalizing p with
  | nil => exact absurd rfl h
  | cons c cs ih =>
    by_cases hcs : cs = []
    · rw [hcs]
      exact p.before_advance c
    · exact (p.before_advance c).trans (ih _ hcs)

/-- Of two fronts of a text the one with fewer bytes is a front of the other one. -/
theorem prefix_of_byteLength_le {a b : List Char} (ha : a <+: cs) (hb : b <+: cs)
    (h : byteLength a ≤ byteLength b) : a <+: b := by
  rcases List.prefix_or_prefix_of_prefix ha hb with hab | ⟨more, rfl⟩
  · exact hab
  · cases more with
    | nil => exact ⟨[], (List.append_nil _).trans (List.append_nil b)⟩
    | cons c more =>
      rw [byteLength_append, byteLength] at h
      have hpos := c.utf8Size_pos
      omega

theorem before_of_isValid {i j : Nat} (hi : String.Pos.Raw.IsValid text ⟨i⟩)
    (hj : String.Pos.Raw.IsValid text ⟨j⟩) (h : i < j) :
    ∃ p q, placeOf? text i = some p ∧ placeOf? text j = some q ∧ p.Before q := by
  obtain ⟨a, behindA, hA, hia⟩ := String.Pos.Raw.isValid_iff_exists_append.1 hi
  obtain ⟨b, behindB, hB, hjb⟩ := String.Pos.Raw.isValid_iff_exists_append.1 hj
  obtain rfl : i = a.utf8ByteSize := congrArg String.Pos.Raw.byteIdx hia
  obtain rfl : j = b.utf8ByteSize := congrArg String.Pos.Raw.byteIdx hjb
  have hlength : byteLength a.toList < byteLength b.toList := by
    rwa [← utf8ByteSize_eq, ← utf8ByteSize_eq]
  have ha : a.toList <+: text.toList := by
    rw [hA, String.toList_append]
    exact List.prefix_append ..
  have hb : b.toList <+: text.toList := by
    rw [hB, String.toList_append]
    exact List.prefix_append ..
  -- What the longer front has more leads from the place of `i` to the place of `j`.
  obtain ⟨more, hmore⟩ := prefix_of_byteLength_le ha hb (Nat.le_of_lt hlength)
  have hne : more ≠ [] := by
    rintro rfl
    rw [← hmore, List.append_nil] at hlength
    exact Nat.lt_irrefl _ hlength
  refine ⟨_, _, ?_, ?_, LineColumn.before_advanceAll (LineColumn.start.advanceAll a.toList) hne⟩
  · rw [hA, placeOf?_append]
  · rw [hB, placeOf?_append, ← hmore, advanceAll_append]

end Text
end Inlay
