import Inlay.Proofs.Text.Pieces
import Inlay.Text.Indentation
import Inlay.Text.Position

/-!
# Lines by number

`line?` gives the line of a number, counted from one, where every line feed ends a line and a
carriage return in front of it belongs to the line.  The second and all further lines of a text
keep their content when the text is put behind another one, with a number that is as much higher
as that one has line feeds (`line?_append_left`); what follows a text can only make its last line
longer (`exists_line?_append_right`).  The first line of a text moves right by the columns of what
stands in front of it (`exists_line?_behind`).

Taking the indentation off a text does so line by line and keeps their numbers (`line?_strip`).
A line that is not blank loses the whole width (`indentationOf_le`), so its columns move left by
that width.
-/

namespace Inlay
namespace Text

variable {sep : Char} {cs line rest : List Char}

/-- The line of a text with a number, counted from one. -/
def line? : Nat → List Char → Option (List Char)
  | 0, _ => none
  | i + 1, cs => (pieces '\n' cs)[i]?

/-! ## Cutting a text into a line and the rest -/

theorem pieces_append_cons (a b : List Char) :
    pieces sep (a ++ sep :: b) = pieces sep a ++ pieces sep b := by
  rw [pieces_eq_splitOn, pieces_eq_splitOn, pieces_eq_splitOn, List.splitOn_append_cons_self]

theorem pieces_of_notMem (h : sep ∉ cs) : pieces sep cs = [cs] := by
  rw [pieces_eq_splitOn, List.splitOn_eq_singleton h]

theorem pieces_line (h : sep ∉ line) : pieces sep (line ++ sep :: rest) = line :: pieces sep rest
    := by
  rw [pieces_append_cons, pieces_of_notMem h, List.singleton_append]

theorem length_pieces (cs : List Char) : (pieces sep cs).length = cs.count sep + 1 := by
  induction cs with
  | nil => rfl
  | cons c cs ih =>
    by_cases h : c = sep
    · subst h
      rw [pieces, if_pos rfl, List.length_cons, ih, List.count_cons_self]
    · rw [pieces, if_neg h, List.count_cons_of_ne h, ← ih]
      cases hp : pieces sep cs with
      | nil => exact absurd hp (pieces_ne_nil sep cs)
      | cons p ps => rfl

/-- A property of all texts holds if it holds of a last line, and of a line in front of a text that
has it. -/
@[elab_as_elim] theorem line_induction {motive : List Char → Prop}
    (last : ∀ line, '\n' ∉ line → motive line)
    (line : ∀ line rest, '\n' ∉ line → motive rest → motive (line ++ '\n' :: rest))
    (cs : List Char) : motive cs := by
  induction hlength : cs.length using Nat.strongRecOn generalizing cs with
  | _ length ih =>
    by_cases h : '\n' ∈ cs
    · obtain ⟨front, rest, rfl, hfront⟩ := List.eq_append_cons_of_mem h
      refine line front rest hfront (ih rest.length ?_ rest rfl)
      rw [← hlength, List.length_append, List.length_cons]
      omega
    · exact last cs h

theorem chunks_of_notMem (h : '\n' ∉ cs) : chunks cs = if cs = [] then [] else [cs] := by
  induction cs with
  | nil => rfl
  | cons c cs ih =>
    rw [List.mem_cons, not_or] at h
    rw [chunks, if_neg (Ne.symm h.1), ih h.2]
    cases cs <;> rfl

theorem chunks_line (h : '\n' ∉ line) :
    chunks (line ++ '\n' :: rest) = (line ++ ['\n']) :: chunks rest := by
  induction line with
  | nil => rw [List.nil_append, chunks, if_pos rfl, List.nil_append]
  | cons c line ih =>
    rw [List.mem_cons, not_or] at h
    rw [List.cons_append, chunks, if_neg (Ne.symm h.1), ih h.2]
    rfl

/-! ## Numbers of lines -/

theorem line?_one_line (h : '\n' ∉ line) : line? 1 (line ++ '\n' :: rest) = some line := by
  rw [line?, pieces_line h]
  rfl

theorem line?_succ_line (h : '\n' ∉ line) (i : Nat) :
    line? (i + 2) (line ++ '\n' :: rest) = line? (i + 1) rest := by
  rw [line?, pieces_line h]
  rfl

theorem line?_behind (front cs : List Char) {k : Nat} (hk : 1 ≤ k) :
    line? (front.count '\n' + 1 + k) (front ++ '\n' :: cs) = line? k cs := by
  obtain ⟨i, rfl⟩ := Nat.exists_eq_add_of_le' hk
  rw [← Nat.add_assoc, line?, line?, pieces_append_cons, ← length_pieces,
    List.getElem?_append_right (Nat.le_add_right _ _), Nat.add_sub_cancel_left]

theorem mem_pieces_of_line? {k : Nat} (h : line? k cs = some line) : line ∈ pieces '\n' cs := by
  match k, h with
  | i + 1, h => exact List.mem_of_getElem? h

/-- A line behind the first one has a line feed in front of it. -/
theorem mem_of_line? {k : Nat} (hk : 2 ≤ k) (h : line? k cs = some line) : '\n' ∈ cs := by
  obtain ⟨i, rfl⟩ := Nat.exists_eq_add_of_le' hk
  by_cases hmem : '\n' ∈ cs
  · exact hmem
  · rw [line?, pieces_of_notMem hmem] at h
    simp at h

/-- What stands in front of a text joins its first line only. -/
theorem line?_append_left (before : List Char) {k : Nat} (hk : 2 ≤ k)
    (h : line? k cs = some line) : line? (before.count '\n' + k) (before ++ cs) = some line := by
  -- The first line feed of the text, not its start, is what both numbers are counted from.
  obtain ⟨first, rest, rfl, hfirst⟩ := List.eq_append_cons_of_mem (mem_of_line? hk h)
  obtain ⟨i, rfl⟩ := Nat.exists_eq_add_of_le' hk
  rw [line?_succ_line hfirst] at h
  have hcount : (before ++ first).count '\n' = before.count '\n' := by
    rw [List.count_append, List.count_eq_zero.2 hfirst, Nat.add_zero]
  have hnumber : before.count '\n' + (i + 2) = (before ++ first).count '\n' + 1 + (i + 1) := by
    omega
  rw [hnumber, ← List.append_assoc, line?_behind _ _ (Nat.le_add_left 1 i), h]

theorem exists_line?_one (h : '\n' ∉ line) (rest : List Char) :
    ∃ whole, line? 1 (line ++ rest) = some whole ∧ line <+: whole := by
  by_cases hrest : '\n' ∈ rest
  · obtain ⟨first, behind, rfl, hfirst⟩ := List.eq_append_cons_of_mem hrest
    refine ⟨line ++ first, ?_, List.prefix_append _ _⟩
    rw [← List.append_assoc]
    exact line?_one_line (by simp [h, hfirst])
  · refine ⟨line ++ rest, ?_, List.prefix_append _ _⟩
    rw [line?, pieces_of_notMem (by simp [h, hrest])]
    rfl

/-- What stands behind a text joins its last line only. -/
theorem exists_line?_append_right (after : List Char) {k : Nat} (h : line? k cs = some line) :
    ∃ whole, line? k (cs ++ after) = some whole ∧ line <+: whole := by
  induction cs using line_induction generalizing k with
  | last cs hcs =>
    match k, h with
    | 1, h =>
      rw [line?, pieces_of_notMem hcs] at h
      obtain rfl : cs = line := Option.some.inj h
      exact exists_line?_one hcs after
    | i + 2, h =>
      rw [line?, pieces_of_notMem hcs] at h
      simp at h
  | line first rest hfirst ih =>
    rw [List.append_assoc, List.cons_append]
    match k, h with
    | 1, h =>
      rw [line?_one_line hfirst] at h
      obtain rfl : first = line := Option.some.inj h
      exact ⟨first, line?_one_line hfirst, List.prefix_rfl⟩
    | i + 2, h =>
      rw [line?_succ_line hfirst] at h ⊢
      exact ih h

/-- A text is its first line and what is behind it. -/
theorem exists_eq_append_of_line?_one (h : line? 1 cs = some line) :
    '\n' ∉ line ∧ ∃ rest, cs = line ++ rest := by
  by_cases hmem : '\n' ∈ cs
  · obtain ⟨first, rest, rfl, hfirst⟩ := List.eq_append_cons_of_mem hmem
    rw [line?_one_line hfirst] at h
    obtain rfl : first = line := Option.some.inj h
    exact ⟨hfirst, _, rfl⟩
  · rw [line?, pieces_of_notMem hmem] at h
    obtain rfl : cs = line := Option.some.inj h
    exact ⟨hmem, [], (List.append_nil cs).symm⟩

/-! ## Indentation -/

theorem indents_newline : indents '\n' = false := by decide

theorem indents_return : indents '\r' = false := by decide

theorem indentOf_append {c : Char} (hc : indents c = false) (line rest : List Char) :
    indentOf (line ++ c :: rest) = indentOf line := by
  induction line with
  | nil => simp [indentOf, hc]
  | cons d line ih =>
    simp only [indentOf, List.cons_append, List.takeWhile_cons] at ih ⊢
    split
    · rw [List.length_cons, List.length_cons, ih]
    · rfl

theorem indentOf_le_length (line : List Char) : indentOf line ≤ line.length :=
  (List.takeWhile_sublist indents).length_le

theorem unindent_append {c : Char} (hc : indents c = false) (width : Nat)
    (line rest : List Char) :
    unindent width (line ++ c :: rest) = unindent width line ++ c :: rest := by
  rw [unindent, unindent, indentOf_append hc]
  split
  case isTrue h =>
    rw [List.drop_append_of_le_length (Nat.le_trans h (indentOf_le_length line))]
  case isFalse => rfl

/-- What is taken off a line that has the whole width moves its columns left by that width. -/
theorem prefix_drop_unindent {width : Nat} {whole : List Char} (hwidth : width ≤ indentOf line)
    (hstart : line <+: whole) (column : Nat) :
    (unindent width line).drop column <+: whole.drop (width + column) := by
  obtain ⟨rest, rfl⟩ := hstart
  rw [unindent_eq_drop hwidth, List.drop_drop, List.drop_append]
  exact List.prefix_append _ _

theorem notMem_unindent {c : Char} {width : Nat} (h : c ∉ line) : c ∉ unindent width line := by
  rw [unindent]
  split
  · exact fun hmem => h (List.mem_of_mem_drop hmem)
  · exact h

theorem pieces_flatMap_chunks (width : Nat) (cs : List Char) :
    pieces '\n' ((chunks cs).flatMap (unindent width)) =
      (pieces '\n' cs).map (unindent width) := by
  induction cs using line_induction with
  | last line h =>
    rw [chunks_of_notMem h, pieces_of_notMem h, List.map_singleton]
    split
    case isTrue hnil =>
      -- A text that ends in a line feed has a last piece and no last chunk; that piece is empty.
      subst hnil
      simp [pieces, unindent]
    case isFalse => rw [List.flatMap_singleton, pieces_of_notMem (notMem_unindent h)]
  | line line rest h ih =>
    rw [chunks_line h, pieces_line h, List.flatMap_cons, unindent_append indents_newline,
      List.append_assoc, List.singleton_append, pieces_line (notMem_unindent h), ih, List.map_cons]

theorem unindent_zero_eq : unindent 0 = id := funext unindent_zero

/-- The width of the indentation is taken off every chunk, also when it is zero. -/
theorem strip_eq (text : String) :
    strip text =
      ⟨String.ofList ((chunks text.toList).flatMap (unindent (indentationOf text.toList))),
        indentationOf text.toList⟩ := by
  simp only [strip]
  split
  case isTrue h =>
    rw [h, unindent_zero_eq, List.flatMap_id, flatten_chunks, String.ofList_toList]
  case isFalse => rfl

theorem line?_strip (k : Nat) (text : String) :
    line? k (strip text).content.toList =
      (line? k text.toList).map (unindent (strip text).width) := by
  rw [strip_eq, String.toList_ofList]
  cases k with
  | zero => rfl
  | succ i => rw [line?, line?, pieces_flatMap_chunks, List.getElem?_map]

theorem dropEnding_of_notMem (h : '\n' ∉ line) : dropEnding line = line := by
  unfold dropEnding
  split
  case h_1 rest hrest =>
    exact absurd (List.mem_reverse.1 (hrest ▸ List.mem_cons_self)) h
  case h_2 rest _ hrest =>
    exact absurd (List.mem_reverse.1 (hrest ▸ List.mem_cons_self)) h
  case h_3 => rfl

/-- The ending of a line is a line feed, and a carriage return in front of it. -/
theorem dropEnding_line (line : List Char) :
    dropEnding (line ++ ['\n']) = line ∨ line = dropEnding (line ++ ['\n']) ++ ['\r'] := by
  rw [dropEnding, List.reverse_append, List.reverse_singleton, List.singleton_append]
  split
  case h_1 rest hrest =>
    right
    have h := congrArg List.reverse (List.cons.inj hrest).2
    rwa [List.reverse_reverse, List.reverse_cons] at h
  case h_2 rest _ hrest =>
    left
    rw [← (List.cons.inj hrest).2, List.reverse_reverse]
  case h_3 h => exact absurd rfl (h _)

/-- The ending of a line counts neither for its indentation nor as a character that is not
blank. -/
theorem dropEnding_line_same (line : List Char) :
    indentOf (dropEnding (line ++ ['\n'])) = indentOf line ∧
      allBlank (dropEnding (line ++ ['\n'])) = allBlank line := by
  have hblank : isBlank '\r' = true := by decide
  rcases dropEnding_line line with h | h
  · rw [h]
    exact ⟨rfl, rfl⟩
  · generalize dropEnding (line ++ ['\n']) = text at h ⊢
    subst h
    refine ⟨(indentOf_append indents_return text []).symm, ?_⟩
    rw [allBlank, allBlank, List.all_append, List.all_cons, hblank, List.all_nil, Bool.and_self,
      Bool.and_true]

/-- The lines without their endings are indented as those between line feeds, of which only the last
may be one more, an empty one. -/
theorem map_indentOf_lines (cs : List Char) :
    ((lines cs).filter fun line => !allBlank line).map indentOf =
      ((pieces '\n' cs).filter fun line => !allBlank line).map indentOf := by
  induction cs using line_induction with
  | last cs h =>
    rw [lines, chunks_of_notMem h, pieces_of_notMem h]
    split
    case isTrue hnil =>
      rw [hnil]
      rfl
    case isFalse => rw [List.map_singleton, dropEnding_of_notMem h]
  | line line rest h ih =>
    obtain ⟨hindent, hblank⟩ := dropEnding_line_same line
    rw [lines] at ih
    rw [lines, chunks_line h, List.map_cons, pieces_line h, List.filter_cons, List.filter_cons,
      hblank]
    split
    · rw [List.map_cons, List.map_cons, hindent, ih]
    · exact ih

theorem indentationOf_eq (cs : List Char) :
    indentationOf cs =
      ((((pieces '\n' cs).filter fun line => !allBlank line).map indentOf).min?).getD 0 := by
  rw [indentationOf, map_indentOf_lines]

theorem mem_map_indentOf (hline : line ∈ pieces '\n' cs) (hblank : allBlank line = false) :
    indentOf line ∈ ((pieces '\n' cs).filter fun line => !allBlank line).map indentOf := by
  refine List.mem_map_of_mem (List.mem_filter.2 ⟨hline, ?_⟩)
  rw [hblank]
  rfl

/-- The common indentation is found on every line that is not blank. -/
theorem indentationOf_le (hline : line ∈ pieces '\n' cs) (hblank : allBlank line = false) :
    indentationOf cs ≤ indentOf line := by
  have hmem := mem_map_indentOf hline hblank
  obtain ⟨least, hleast⟩ := Option.isSome_iff_exists.1 (List.isSome_min?_of_mem hmem)
  rw [indentationOf_eq, hleast, Option.getD_some]
  exact (List.min?_eq_some_iff.1 hleast).2 _ hmem

/-! ## Places -/

theorem line_advanceAll (p : LineColumn) (cs : List Char) :
    (p.advanceAll cs).line = p.line + cs.count '\n' := by
  induction cs generalizing p with
  | nil => rfl
  | cons c cs ih =>
    show ((p.advance c).advanceAll cs).line = _
    rw [ih, LineColumn.advance]
    by_cases h : c = '\n'
    · rw [if_pos h, h, List.count_cons_self]
      show p.line + 1 + _ = _
      omega
    · rw [if_neg h, List.count_cons_of_ne h]

theorem advanceAll_append (p : LineColumn) (a b : List Char) :
    p.advanceAll (a ++ b) = (p.advanceAll a).advanceAll b := List.foldl_append

theorem advanceAll_of_notMem (p : LineColumn) (h : '\n' ∉ cs) :
    p.advanceAll cs = ⟨p.line, p.column + cs.length⟩ := by
  induction cs generalizing p with
  | nil => rfl
  | cons c cs ih =>
    rw [List.mem_cons, not_or] at h
    have hadvance : p.advance c = ⟨p.line, p.column + 1⟩ := if_neg (Ne.symm h.1)
    show (p.advance c).advanceAll cs = _
    rw [hadvance, ih _ h.2, List.length_cons, Nat.add_assoc, Nat.add_comm 1]

/-- The number of a line does not matter for the columns behind it. -/
theorem column_advanceAll_congr {p q : LineColumn} (h : p.column = q.column) (cs : List Char) :
    (p.advanceAll cs).column = (q.advanceAll cs).column := by
  induction cs generalizing p q with
  | nil => exact h
  | cons c cs ih =>
    refine ih ?_
    by_cases hc : c = '\n'
    · simp only [LineColumn.advance, if_pos hc]
    · simp only [LineColumn.advance, if_neg hc, h]

/-- Columns start again behind a line feed. -/
theorem column_advanceAll_line (p : LineColumn) (front cs : List Char) :
    (p.advanceAll (front ++ '\n' :: cs)).column = (LineColumn.start.advanceAll cs).column := by
  rw [advanceAll_append]
  show (((p.advanceAll front).advance '\n').advanceAll cs).column = _
  exact column_advanceAll_congr (by rw [LineColumn.advance, if_pos rfl]; rfl) cs

/-- What stands in front of a text without line feeds takes up the columns of its line up to the
place behind it. -/
theorem exists_line?_behind (before : List Char) (h : '\n' ∉ line) (rest : List Char) :
    ∃ whole, line? (before.count '\n' + 1) (before ++ (line ++ rest)) = some whole ∧
      line <+: whole.drop (LineColumn.start.advanceAll before).column := by
  induction before using line_induction with
  | last front hfront =>
    have hline : '\n' ∉ front ++ line := by simp [hfront, h]
    obtain ⟨whole, hwhole, behind, rfl⟩ := exists_line?_one hline rest
    refine ⟨front ++ line ++ behind, ?_, ?_⟩
    · rw [List.count_eq_zero.2 hfront, ← List.append_assoc]
      exact hwhole
    · rw [advanceAll_of_notMem _ hfront, List.append_assoc]
      show _ <+: (front ++ (line ++ behind)).drop (0 + front.length)
      rw [Nat.zero_add, List.drop_left]
      exact List.prefix_append _ _
  | line front before _ ih =>
    obtain ⟨whole, hwhole, hstart⟩ := ih
    refine ⟨whole, ?_, ?_⟩
    · rw [List.append_assoc, List.cons_append, List.count_append, List.count_cons_self]
      have hnumber : front.count '\n' + (before.count '\n' + 1) + 1 =
          front.count '\n' + 1 + (before.count '\n' + 1) := by omega
      rw [hnumber, line?_behind _ _ (Nat.le_add_left 1 _), hwhole]
    · rw [column_advanceAll_line]
      exact hstart

theorem placeOf?_front {text : String} {front rest : List Char} (h : text.toList = front ++ rest) :
    placeOf? text (byteLength front) = some (LineColumn.start.advanceAll front) := by
  rw [placeOf?, h, placeFrom_byteLength]

/-- The line of the place behind a front of a text counts the line feeds of the front. -/
theorem line_placeOf? {text : String} {before rest : List Char} (h : text.toList = before ++ rest) :
    (placeOf? text (byteLength before)).map (·.line) = some (before.count '\n') := by
  rw [placeOf?_front h, Option.map_some, line_advanceAll]
  show some (0 + before.count '\n') = _
  rw [Nat.zero_add]

end Text
end Inlay
