import Inlay.Block.Offset
import Inlay.Proofs.Text.Occurrences
import Inlay.Proofs.Text.Places
import Mathlib.Order.Bounds.Basic

/-!
# Where a block is found

A block that is looked for is found at the least byte at which its content occurs
(`isLeast_of_firstOccurrence?`), and every occurrence has a place.  Fewer bytes in front of an
occurrence mean no more line feeds in front of it, so the line that is found is the least of all
occurrences.  `offsets_and_blocks_are_placed` states this together with what a place counts.
-/

namespace Inlay
namespace BlockOffset

open Text (byteLength placeOf?)

variable {markup content : String} {start : Nat}

/-! ## Occurrences -/

/-- The content occurs in the markup at a byte. -/
def OccursAt (markup content : String) (start : Nat) : Prop :=
  ∃ before behind, markup = before ++ content ++ behind ∧ before.utf8ByteSize = start

theorem occursAt_iff :
    OccursAt markup content start ↔
      ∃ before behind, markup.toList = before ++ content.toList ++ behind ∧
        byteLength before = start := by
  constructor
  · rintro ⟨before, behind, rfl, rfl⟩
    refine ⟨before.toList, behind.toList, ?_, (Text.utf8ByteSize_eq before).symm⟩
    rw [String.toList_append, String.toList_append]
  · rintro ⟨before, behind, h, rfl⟩
    refine ⟨String.ofList before, String.ofList behind, ?_, Text.utf8ByteSize_eq_byteLength before⟩
    rw [← String.toList_inj, h, String.toList_append, String.toList_append, String.toList_ofList,
      String.toList_ofList]

theorem isLeast_of_firstOccurrence? (h : firstOccurrence? markup content = some start) :
    IsLeast {n | OccursAt markup content n} start := by
  obtain ⟨⟨before, behind⟩, hcut, rfl⟩ := Option.map_eq_some_iff.1 h
  constructor
  · exact occursAt_iff.2 ⟨before, behind, Text.eq_of_cutAt? hcut, rfl⟩
  · intro other hother
    obtain ⟨front, rest, hmarkup, rfl⟩ := occursAt_iff.1 hother
    obtain ⟨_, _, hfirst, ⟨between, hbetween⟩⟩ := Text.exists_cutAt? content.toList front rest
    rw [← hmarkup, hcut] at hfirst
    obtain ⟨rfl, rfl⟩ := Prod.mk.inj (Option.some.inj hfirst)
    rw [← hbetween, Text.byteLength_append]
    exact Nat.le_add_right _ _

theorem exists_firstOccurrence? (h : OccursAt markup content start) :
    ∃ first, firstOccurrence? markup content = some first := by
  obtain ⟨front, rest, hmarkup, -⟩ := occursAt_iff.1 h
  obtain ⟨before, behind, hcut, -⟩ := Text.exists_cutAt? content.toList front rest
  exact ⟨byteLength before, by rw [firstOccurrence?, hmarkup, hcut]; rfl⟩

/-! ## The line of a block -/

theorem exists_at?_of_occursAt (h : OccursAt markup content start) :
    ∃ place, at? markup start content = some place := by
  obtain ⟨before, behind, hmarkup, rfl⟩ := occursAt_iff.1 h
  rw [List.append_assoc] at hmarkup
  exact ⟨_, by rw [at?, Text.placeOf?_front hmarkup]; rfl⟩

theorem line_of_at? {before behind : List Char} {place : BlockOffset}
    (hmarkup : markup.toList = before ++ content.toList ++ behind)
    (h : at? markup (byteLength before) content = some place) :
    place.line = before.count '\n' := by
  rw [List.append_assoc] at hmarkup
  obtain ⟨p, hp, rfl⟩ := Option.map_eq_some_iff.1 h
  have hline := Text.line_placeOf? hmarkup
  rw [hp] at hline
  exact Option.some.inj hline

theorem line_le_of_at? {first : Nat} {p q : BlockOffset} (hfirst : OccursAt markup content first)
    (hstart : OccursAt markup content start) (hle : first ≤ start)
    (hp : at? markup first content = some p) (hq : at? markup start content = some q) :
    p.line ≤ q.line := by
  obtain ⟨a, behindA, hA, rfl⟩ := occursAt_iff.1 hfirst
  obtain ⟨b, behindB, hB, rfl⟩ := occursAt_iff.1 hstart
  rw [line_of_at? hA hp, line_of_at? hB hq]
  have ha : a <+: markup.toList := ⟨content.toList ++ behindA, by rw [hA, List.append_assoc]⟩
  have hb : b <+: markup.toList := ⟨content.toList ++ behindB, by rw [hB, List.append_assoc]⟩
  exact (Text.prefix_of_byteLength_le ha hb hle).sublist.count_le _

/-! ## Looking for a block -/

theorem locate?_eq_none_iff :
    locate? markup content = none ↔ ∀ start, ¬ OccursAt markup content start := by
  constructor
  · intro h start hstart
    obtain ⟨first, hfirst⟩ := exists_firstOccurrence? hstart
    obtain ⟨place, hplace⟩ := exists_at?_of_occursAt (isLeast_of_firstOccurrence? hfirst).1
    rw [locate?, hfirst, Option.bind_some, hplace] at h
    cases h
  · intro h
    rw [locate?, Option.bind_eq_none_iff]
    exact fun first hfirst => absurd (isLeast_of_firstOccurrence? hfirst).1 (h first)

theorem locate?_eq_at? (h : IsLeast {n | OccursAt markup content n} start) :
    locate? markup content = at? markup start content := by
  obtain ⟨first, hfirst⟩ := exists_firstOccurrence? h.1
  rw [locate?, hfirst, Option.bind_some, (isLeast_of_firstOccurrence? hfirst).unique h]

theorem isLeast_line_of_locate? {found : BlockOffset} (h : locate? markup content = some found) :
    IsLeast {line | ∃ start place, OccursAt markup content start ∧
      at? markup start content = some place ∧ place.line = line} found.line := by
  obtain ⟨first, hfirst, hfound⟩ := Option.bind_eq_some_iff.1 h
  obtain ⟨hoccurs, hleast⟩ := isLeast_of_firstOccurrence? hfirst
  constructor
  · exact ⟨first, found, hoccurs, hfound, rfl⟩
  · rintro _ ⟨start, place, hstart, hplace, rfl⟩
    exact line_le_of_at? hoccurs hstart (hleast hstart) hfound hplace

/-- An offset has a place unless it is past the end of the text.  Where a character starts, the
place counts the line feeds in front of it and the characters behind the last of these; inside a
character it is the place behind that character; and the places where characters start come in the
order of their offsets.

A block is found unless its content does not occur.  Its line is the least of all occurrences, and
if there is only one occurrence the block is found there. -/
theorem offsets_and_blocks_are_placed (markup : String) :
    (∀ offset, placeOf? markup offset = none ↔ markup.utf8ByteSize < offset) ∧
    (∀ front rest, markup = front ++ rest →
      placeOf? markup front.utf8ByteSize =
        some ⟨front.toList.count '\n', (front.toList.rtakeWhile (· ≠ '\n')).length⟩) ∧
    (∀ front c rest offset, markup = front ++ String.singleton c ++ rest →
      front.utf8ByteSize < offset → offset < front.utf8ByteSize + c.utf8Size →
      placeOf? markup offset = placeOf? markup (front.utf8ByteSize + c.utf8Size)) ∧
    (∀ i j, String.Pos.Raw.IsValid markup ⟨i⟩ → String.Pos.Raw.IsValid markup ⟨j⟩ → i < j →
      ∃ p q, placeOf? markup i = some p ∧ placeOf? markup j = some q ∧ p.Before q) ∧
    ∀ content,
      (locate? markup content = none ↔ ∀ start, ¬ OccursAt markup content start) ∧
      (∀ found, locate? markup content = some found →
        IsLeast {line | ∃ start place, OccursAt markup content start ∧
          at? markup start content = some place ∧ place.line = line} found.line) ∧
      (∀ start, OccursAt markup content start →
        (∀ other, OccursAt markup content other → other = start) →
        locate? markup content = at? markup start content) := by
  refine ⟨fun _ => Text.placeOf?_eq_none_iff, ?_, ?_, fun _ _ => Text.before_of_isValid, ?_⟩
  · rintro front rest rfl
    rw [Text.placeOf?_append, Text.advanceAll_start]
  · rintro front c rest offset rfl hlt hle
    rw [Text.placeOf?_inside front rest c hlt (Nat.le_of_lt hle),
      Text.placeOf?_inside front rest c (Nat.lt_add_of_pos_right c.utf8Size_pos) (Nat.le_refl _)]
  · intro content
    refine ⟨locate?_eq_none_iff, fun _ => isLeast_line_of_locate?, ?_⟩
    intro start hstart honly
    exact locate?_eq_at? ⟨hstart, fun other hother => Nat.le_of_eq (honly other hother).symm⟩

theorem eq_of_occursAt_emoji (h : OccursAt "é\n😀x" "x" start) : start = 7 := by
  obtain ⟨before, behind, hmarkup, rfl⟩ := occursAt_iff.1 h
  have hsplit : before ++ 'x' :: behind = ['é', '\n', '😀', 'x'] := by
    simpa [eq_comm] using hmarkup
  rcases before with _ | ⟨a, _ | ⟨b, _ | ⟨c, _ | ⟨d, before⟩⟩⟩⟩ <;> simp at hsplit
  obtain ⟨rfl, rfl, rfl, -⟩ := hsplit
  rfl

/-- An offset inside `😀` has the place of the `x` behind it, where the only `x` is found. -/
theorem offsets_and_blocks_are_placed_emoji :
    let markup := "é\n😀x"
    OccursAt markup "x" 7 ∧ (∀ other, OccursAt markup "x" other → other = 7) ∧
      locate? markup "x" = at? markup 7 "x" ∧
      placeOf? markup 3 = some ⟨1, 0⟩ ∧
      placeOf? markup 5 = placeOf? markup 7 ∧
      ∃ p q, placeOf? markup 3 = some p ∧ placeOf? markup 7 = some q ∧ p.Before q := by
  intro markup
  obtain ⟨-, hboundary, hinside, horder, hblocks⟩ := offsets_and_blocks_are_placed markup
  have hoccurs : OccursAt markup "x" 7 := ⟨"é\n😀", "", rfl, by decide⟩
  have honly : ∀ other, OccursAt markup "x" other → other = 7 := fun _ => eq_of_occursAt_emoji
  have hthree : String.Pos.Raw.IsValid markup ⟨3⟩ :=
    String.Pos.Raw.isValid_iff_exists_append.2 ⟨"é\n", "😀x", rfl, by decide⟩
  have hseven : String.Pos.Raw.IsValid markup ⟨7⟩ :=
    String.Pos.Raw.isValid_iff_exists_append.2 ⟨"é\n😀", "x", rfl, by decide⟩
  refine ⟨hoccurs, honly, (hblocks "x").2.2 7 hoccurs honly, ?_, ?_, ?_⟩
  · exact hboundary "é\n" "😀x" rfl
  · exact hinside "é\n" '😀' "x" 5 rfl (by decide) (by decide)
  · exact horder 3 7 hthree hseven (by decide)

/-- The second of two equal blocks is found on the line of the first one. -/
example :
    locate? "<b>\n x</b>\n<b>\n x</b>" "\n x" = some ⟨0, 1⟩ ∧
      at? "<b>\n x</b>\n<b>\n x</b>" 14 "\n x" = some ⟨2, 1⟩ ∧
      placeOf? "\né😀" 5 = some ⟨1, 2⟩ := by decide

end BlockOffset
end Inlay
