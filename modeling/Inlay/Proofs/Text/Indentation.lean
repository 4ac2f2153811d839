import Inlay.Proofs.Text.Lines
import Mathlib.Data.List.Forall2
import Mathlib.Data.List.Infix
import Mathlib.Data.List.TakeWhile
import Mathlib.Order.Bounds.Defs

/-!
# The common indentation

Taking the indentation off a text keeps its lines and their endings.  A line loses the whole width,
or it is blank, does not have that width and stays as it is; `Unindented` says so for one line.  The
width is the greatest that all lines have which are not blank, so it is zero for the text that is
left, and a second removal changes nothing.  `strip_takes_common_indentation` has all of this.

The width is a minimum over lines without their endings and it is taken off chunks that have them.
What both have to do with the lines between line feeds is in `map_indentOf_lines` and
`pieces_flatMap_chunks`; nothing below looks at endings but `ending_unindent`.
-/

namespace Inlay
namespace Text

variable {width : Nat} {cs line : List Char}

/-! ## What is claimed of lines -/

/-- A line starts with `width` spaces or tabs. -/
def IndentedBy (width : Nat) (line : List Char) : Prop :=
  ∃ front, front <+: line ∧ front.length = width ∧ ∀ c ∈ front, indents c = true

/-- What a line may become when a width is taken off its text. -/
inductive Unindented (width : Nat) : List Char → List Char → Prop
  /-- A line loses its first bytes, which are spaces and tabs. -/
  | moved (front rest : List Char) (hwidth : byteLength front = width)
      (hfront : ∀ c ∈ front, indents c = true) : Unindented width (front ++ rest) rest
  /-- A blank line that has less stays as it is. -/
  | kept (line : List Char) (hblank : allBlank line = true) (hshort : ¬ IndentedBy width line) :
      Unindented width line line

/-- The ending of a line that a line feed ends. -/
def endingOf (line : List Char) : List Char :=
  if line.getLast? = some '\r' then ['\r', '\n'] else ['\n']

/-- The endings of the lines of a text, one for every line feed. -/
def endings (cs : List Char) : List (List Char) := (pieces '\n' cs).dropLast.map endingOf

/-! ## One line -/

theorem indentedBy_iff : IndentedBy width line ↔ width ≤ indentOf line := by
  constructor
  · intro h
    obtain ⟨front, ⟨rest, rfl⟩, rfl, hfront⟩ := h
    rw [indentOf, List.takeWhile_append_of_pos hfront, List.length_append]
    exact Nat.le_add_right _ _
  · intro h
    obtain ⟨rest, hrest⟩ := List.takeWhile_prefix indents (l := line)
    refine ⟨(line.takeWhile indents).take width, ?_, List.length_take_of_le h, ?_⟩
    · exact (List.take_prefix _ _).trans ⟨rest, hrest⟩
    · intro c hc
      exact List.mem_takeWhile_imp (List.mem_of_mem_take hc)

theorem byteLength_of_indents (h : ∀ c ∈ cs, indents c = true) : byteLength cs = cs.length := by
  induction cs with
  | nil => rfl
  | cons c cs ih =>
    have hsize : c.utf8Size = 1 := by
      have hc := h c List.mem_cons_self
      simp only [indents, Bool.or_eq_true, decide_eq_true_eq] at hc
      rcases hc with rfl | rfl <;> rfl
    rw [byteLength, hsize, ih fun d hd => h d (List.mem_cons_of_mem c hd), List.length_cons]
    omega

/-- The bytes that a line loses end where a character starts. -/
theorem isValid_of_indentedBy (h : IndentedBy width line) :
    String.Pos.Raw.IsValid (String.ofList line) ⟨width⟩ := by
  obtain ⟨front, ⟨rest, rfl⟩, rfl, hfront⟩ := h
  refine String.Pos.Raw.isValid_iff_exists_append.2
    ⟨String.ofList front, String.ofList rest, ?_, ?_⟩
  · exact String.ofList_append
  · rw [String.rawEndPos, utf8ByteSize_eq_byteLength, byteLength_of_indents hfront]

theorem unindented_unindent (h : allBlank line = false → width ≤ indentOf line) :
    Unindented width line (unindent width line) := by
  by_cases hwidth : width ≤ indentOf line
  · rw [unindent_eq_drop hwidth]
    obtain ⟨front, ⟨rest, rfl⟩, rfl, hfront⟩ := indentedBy_iff.2 hwidth
    rw [List.drop_left]
    exact .moved front rest (byteLength_of_indents hfront) hfront
  · rw [unindent, if_neg hwidth]
    refine .kept line (Bool.of_not_eq_false ?_) ?_
    · intro hblank
      exact hwidth (h hblank)
    · intro hindented
      exact hwidth (indentedBy_iff.1 hindented)

theorem isBlank_of_indents {c : Char} (h : indents c = true) : isBlank c = true := by
  simp only [indents, Bool.or_eq_true, decide_eq_true_eq] at h
  rcases h with rfl | rfl <;> rfl

theorem Unindented.allBlank_eq {rest : List Char} (h : Unindented width line rest) :
    allBlank rest = allBlank line := by
  cases h with
  | moved front _ _ hfront =>
    have hblank : front.all isBlank = true :=
      List.all_eq_true.2 fun c hc => isBlank_of_indents (hfront c hc)
    rw [allBlank, allBlank, List.all_append, hblank, Bool.true_and]
  | kept => rfl

/-- A carriage return in front of a line feed is no indentation. -/
theorem Unindented.endingOf_eq {rest : List Char} (h : Unindented width line rest) :
    endingOf rest = endingOf line := by
  cases h with
  | moved front _ _ hfront =>
    cases hrest : rest.getLast? with
    | some c => rw [endingOf, endingOf, List.getLast?_append, hrest, Option.some_or]
    | none =>
      rw [List.getLast?_eq_none_iff.1 hrest, List.append_nil]
      have hreturn : front.getLast? ≠ some '\r' := by
        intro hlast
        have hindents := hfront '\r' (List.mem_of_getLast? hlast)
        rw [indents_return] at hindents
        cases hindents
      rw [endingOf, endingOf, if_neg hreturn, if_neg (by simp)]
  | kept => rfl

theorem indentOf_unindent (h : width ≤ indentOf line) :
    indentOf (unindent width line) = indentOf line - width := by
  rw [unindent_eq_drop h]
  obtain ⟨front, ⟨rest, rfl⟩, rfl, hfront⟩ := indentedBy_iff.2 h
  rw [List.drop_left, indentOf, indentOf, List.takeWhile_append_of_pos hfront, List.length_append]
  omega

/-! ## Whole texts -/

/-- Some line that is not blank has no more indentation than all of them. -/
theorem exists_indentOf_eq (h : ∃ line ∈ pieces '\n' cs, allBlank line = false) :
    ∃ line ∈ pieces '\n' cs, allBlank line = false ∧ indentOf line = indentationOf cs := by
  obtain ⟨some, hsome, hblank⟩ := h
  have hmem := mem_map_indentOf hsome hblank
  obtain ⟨least, hleast⟩ := Option.isSome_iff_exists.1 (List.isSome_min?_of_mem hmem)
  obtain ⟨line, hline, hindent⟩ := List.mem_map.1 (List.min?_mem hleast)
  obtain ⟨hline, hnot⟩ := List.mem_filter.1 hline
  refine ⟨line, hline, by simpa using hnot, ?_⟩
  rw [indentationOf_eq, hleast, hindent, Option.getD_some]

theorem indentationOf_eq_zero (h : ∀ line ∈ pieces '\n' cs, allBlank line = true) :
    indentationOf cs = 0 := by
  have hnone : (pieces '\n' cs).filter (fun line => !allBlank line) = [] := by
    rw [List.filter_eq_nil_iff]
    intro line hline
    simp [h line hline]
  rw [indentationOf_eq, hnone]
  rfl

theorem isGreatest_indentationOf (h : ∃ line ∈ pieces '\n' cs, allBlank line = false) :
    IsGreatest {n | ∀ line ∈ pieces '\n' cs, allBlank line = false → IndentedBy n line}
      (indentationOf cs) := by
  constructor
  · intro line hline hblank
    exact indentedBy_iff.2 (indentationOf_le hline hblank)
  · intro n hn
    obtain ⟨line, hline, hblank, hindent⟩ := exists_indentOf_eq h
    rw [← hindent]
    exact indentedBy_iff.1 (hn line hline hblank)

theorem width_strip (text : String) : (strip text).width = indentationOf text.toList := by
  rw [strip_eq]

theorem pieces_strip (text : String) :
    pieces '\n' (strip text).content.toList =
      (pieces '\n' text.toList).map (unindent (strip text).width) := by
  rw [strip_eq, String.toList_ofList, pieces_flatMap_chunks]

theorem unindented_of_mem {text : String} (h : line ∈ pieces '\n' text.toList) :
    Unindented (strip text).width line (unindent (strip text).width line) := by
  rw [width_strip]
  exact unindented_unindent (indentationOf_le h)

/-- The text that is left has a line without indentation, unless all its lines are blank. -/
theorem indentationOf_strip (text : String) : indentationOf (strip text).content.toList = 0 := by
  by_cases h : ∃ line ∈ pieces '\n' text.toList, allBlank line = false
  · obtain ⟨line, hline, hblank, hindent⟩ := exists_indentOf_eq h
    have hmem : unindent (strip text).width line ∈ pieces '\n' (strip text).content.toList := by
      rw [pieces_strip]
      exact List.mem_map_of_mem hline
    have hleft : indentOf (unindent (strip text).width line) = 0 := by
      have hwidth : (strip text).width = indentOf line := (width_strip text).trans hindent.symm
      rw [indentOf_unindent (Nat.le_of_eq hwidth), hwidth, Nat.sub_self]
    rw [← (unindented_of_mem hline).allBlank_eq] at hblank
    exact Nat.le_zero.1 (hleft ▸ indentationOf_le hmem hblank)
  · refine indentationOf_eq_zero ?_
    intro left hleft
    rw [pieces_strip, List.mem_map] at hleft
    obtain ⟨line, hline, rfl⟩ := hleft
    rw [(unindented_of_mem hline).allBlank_eq]
    exact Bool.of_not_eq_false fun hblank => h ⟨line, hline, hblank⟩

theorem endings_strip (text : String) :
    endings (strip text).content.toList = endings text.toList := by
  rw [endings, endings, pieces_strip, ← List.map_dropLast, List.map_map]
  refine List.map_congr_left ?_
  intro line hline
  exact (unindented_of_mem (List.mem_of_mem_dropLast hline)).endingOf_eq

/-- Taking the common indentation off a text keeps the endings of its lines.  It takes the greatest
width that all lines have which are not blank, off these and off the blank lines that have it, and
cuts no character.  Of the text that is left nothing more is taken off. -/
theorem strip_takes_common_indentation (text : String) :
    endings (strip text).content.toList = endings text.toList ∧
    List.Forall₂ (Unindented (strip text).width) (pieces '\n' text.toList)
      (pieces '\n' (strip text).content.toList) ∧
    ((∃ line ∈ pieces '\n' text.toList, allBlank line = false) →
      IsGreatest
        {n | ∀ line ∈ pieces '\n' text.toList, allBlank line = false → IndentedBy n line}
        (strip text).width) ∧
    ((∀ line ∈ pieces '\n' text.toList, allBlank line = true) → (strip text).width = 0) ∧
    (∀ chunk ∈ chunks text.toList, IndentedBy (strip text).width chunk →
      String.Pos.Raw.IsValid (String.ofList chunk) ⟨(strip text).width⟩) ∧
    strip (strip text).content = ⟨(strip text).content, 0⟩ := by
  refine ⟨endings_strip text, ?_, ?_, ?_, fun _ _ => isValid_of_indentedBy, ?_⟩
  · rw [pieces_strip, List.forall₂_map_right_iff, List.forall₂_same]
    exact fun line hline => unindented_of_mem hline
  · rw [width_strip]
    exact isGreatest_indentationOf
  · rw [width_strip]
    exact indentationOf_eq_zero
  · rw [strip, indentationOf_strip]
    rfl

/-- Blank lines with more, with less and with a carriage return, and a last line without an end. -/
example : strip "\t if\r\n \r\n   \u00A0\n\n\t\t\tx" = ⟨"if\r\n \r\n \u00A0\n\n\tx", 2⟩ := by decide

end Text
end Inlay
