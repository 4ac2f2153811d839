import Inlay.Proofs.Pipeline.ParseErrors

/-!
# Parse errors on the first line of a block

The first line of a block need not start a line of the file: the tag that opens the block stands in
front of it.  The place of a block keeps its line and no column, so an error on the first line is
reported in the columns of the block and not of the file.  It lands to the left of the character
that the compiler pointed at, by as many columns as stand in front of the block on its line
(`process_omits_opening_column`), and on that character where the block starts a line.
`process_misplaces_first_line_error` is a block on the line of its tag.
-/

namespace Inlay

open Text.LineColumn (start)

variable {block : Block} {before after line : List Char}

theorem Block.Placed.placeOf?_opening (h : block.Placed before after) :
    Text.placeOf? block.markup (Text.byteLength before) = some (start.advanceAll before) := by
  have hmarkup : block.markup.toList = before ++ (block.content.toList ++ after) := by
    rw [h.markup, List.append_assoc]
  exact Text.placeOf?_front hmarkup

/-- The first line of a block stands in a line of the file, from the column on at which the block
starts. -/
theorem Block.Placed.exists_first_line? (h : block.Placed before after)
    (hline : Text.line? 1 block.content.toList = some line) :
    ∃ whole, Text.line? (before.count '\n' + 1) block.markup.toList = some whole ∧
      line <+: whole.drop (start.advanceAll before).column := by
  obtain ⟨hfeed, rest, hcontent⟩ := Text.exists_eq_append_of_line?_one hline
  rw [h.markup, hcontent, List.append_assoc, List.append_assoc]
  exact Text.exists_line?_behind before hfeed (rest ++ after)

/-- A character of the first line of a block stands as many columns behind the start of the block as
there are characters of the line in front of it. -/
theorem Block.Placed.placeOf?_first_line {front back : List Char} (h : block.Placed before after)
    (hline : Text.line? 1 block.content.toList = some (front ++ back)) :
    Text.placeOf? block.markup (Text.byteLength (before ++ front)) =
      some ⟨before.count '\n', (start.advanceAll before).column + front.length⟩ := by
  obtain ⟨hfeed, rest, hcontent⟩ := Text.exists_eq_append_of_line?_one hline
  have hfront : '\n' ∉ front := fun hmem => hfeed (List.mem_append_left _ hmem)
  have hmarkup : block.markup.toList = (before ++ front) ++ (back ++ rest ++ after) := by
    rw [h.markup, hcontent]
    simp only [List.append_assoc]
  rw [Text.placeOf?_front hmarkup, Text.advanceAll_append, Text.advanceAll_of_notMem _ hfront,
    Text.line_advanceAll]
  show some (⟨0 + before.count '\n', _⟩ : Text.LineColumn) = _
  rw [Nat.zero_add]

namespace Preprocessor

variable {p : Preprocessor} {kind : BlockKind} {fields : Json.Fields} {compile : Civet.Compiler}
  {files : FileTree} {error : ParseError}

/-- A parse error on the first line of a block, if that is not blank, lands on the line of the file
that holds the first line of the block, and to the left of the character that the compiler pointed
at by the column at which the block starts. -/
theorem process_omits_opening_column (hcivet : p.RunsCivet kind block fields compile files)
    (hplaced : block.Placed before after)
    (hreplaced : kind = .markup → (p.replaced block).outcome = .ok block)
    (hreports : Reports fields) (hprepended : Prepared.prependedText? fields = none)
    (hrejects : Rejects compile files fields block error)
    (hline : Text.line? 1 block.content.toList = some line)
    (hblank : Text.allBlank line = false) (hfirst : error.line = 1) (hcolumn : 1 ≤ error.column)
    (hwide : (Prepared.withOptions fields block.content).indentation + error.column <
      word32Limit) :
    ∃ located prepared whole opening,
      (p.process kind block).outcome = .error (.located located) ∧
      Text.line? 1 (Prepared.withOptions fields block.content).content.toList = some prepared ∧
      Text.placeOf? block.markup (Text.byteLength before) = some opening ∧
      located.start.line = opening.line + 1 ∧
      Text.line? located.start.line block.markup.toList = some whole ∧
      line <+: whole.drop opening.column ∧
      prepared.drop (error.column - 1) <+: whole.drop (opening.column + located.start.column) ∧
      (∀ front character, line = front ++ prepared.drop (error.column - 1) →
        error.column ≤ prepared.length →
        Text.placeOf? block.markup (Text.byteLength (before ++ front)) = some character →
        character.line = opening.line ∧
          character.column = opening.column + located.start.column ∧
          (located.start.column = character.column ↔ opening.column = 0)) ∧
      located.stop = ⟨located.start.line, located.start.column + 1⟩ ∧
      located.stop.column < word32Limit := by
  have houtcome := process_of_primary_error hreplaced
    (primary_rejects hcivet hplaced hreports hrejects)
  obtain ⟨whole, hwhole, hstart⟩ := hplaced.exists_first_line? hline
  have hprepared := Prepared.line?_of_unprepended hprepended (Nat.le_refl 1) hline
  have hwidth : (Prepared.withOptions fields block.content).indentation ≤ Text.indentOf line :=
    Prepared.indentation_le hline hblank
  have hopening : (start.advanceAll before).line = before.count '\n' := by
    rw [Text.line_advanceAll]
    exact Nat.zero_add _
  refine ⟨(Civet.reporting _ _).locate error block.filename, _, whole, _, houtcome, hprepared,
    hplaced.placeOf?_opening, ?_, ?_, hstart, ?_, ?_, rfl, ErrorReporting.column_stop_lt hwide _⟩
  · show before.count '\n' + error.line = _
    rw [hopening, hfirst]
  · show Text.line? (before.count '\n' + error.line) _ = _
    rw [hfirst, hwhole]
  · show _ <+: whole.drop (_ + ((Prepared.withOptions fields block.content).indentation +
      error.column - 1))
    rw [← List.drop_drop, Nat.add_sub_assoc hcolumn]
    exact Text.prefix_drop_unindent hwidth hstart _
  · intro front character hfront hinside hcharacter
    -- In front of the character are the indentation and the columns that the compiler counted.
    have hlength : front.length =
        (Prepared.withOptions fields block.content).indentation + (error.column - 1) := by
      have hwhole := congrArg List.length hfront
      have hfits := Text.indentOf_le_length line
      rw [Text.unindent_eq_drop hwidth] at hwhole hinside
      simp only [List.length_append, List.length_drop] at hwhole hinside
      omega
    have hplace := hplaced.placeOf?_first_line (hfront ▸ hline)
    obtain rfl := Option.some.inj (hcharacter.symm.trans hplace)
    have hreported : ((Civet.reporting
        ⟨before.count '\n', (Prepared.withOptions fields block.content).indentation⟩
        (some (.object fields))).locate error block.filename).start.column = front.length := by
      show (Prepared.withOptions fields block.content).indentation + error.column - 1 = _
      rw [hlength, Nat.add_sub_assoc hcolumn]
    rw [hreported]
    refine ⟨hopening.symm, rfl, ?_⟩
    show front.length = (start.advanceAll before).column + front.length ↔ _
    omega

/-- A script that starts on the line of its tag, behind 21 columns. -/
def inlineScript : Block :=
  { content := "  x := (", markup := "<script lang=\"civet\">" ++ "  x := (" ++ "</script>"
    attributes := Table.ofList [("lang", .text "civet")], contentOffset := some 21 }

theorem placed_inlineScript :
    inlineScript.Placed "<script lang=\"civet\">".toList "</script>".toList where
  markup := by
    show ("<script lang=\"civet\">" ++ "  x := (" ++ "</script>").toList = _
    rw [String.toList_append, String.toList_append]
    rfl
  offset := rfl

theorem first_line_inlineScript :
    Text.line? 1 inlineScript.content.toList = some "  x := (".toList := by decide

theorem process_omits_opening_column_of_inline_script :
    ∃ located whole,
      ((rejecting [] ⟨"unclosed bracket", 1, 6⟩).process .script inlineScript).outcome =
        .error (.located located) ∧
      located.start.line = 1 ∧ located.start.column = 7 ∧
      Text.line? 1 inlineScript.markup.toList = some whole ∧
      ['('] <+: whole.drop (21 + located.start.column) := by
  have hcivet : (rejecting [] ⟨"unclosed bracket", 1, 6⟩).RunsCivet .script inlineScript
      [("stripIndent", .bool true)] (fun _ _ => .error (.parse ⟨"unclosed bracket", 1, 6⟩))
      ⟨[], []⟩ := ⟨⟨⟨"civet", "civet", some "civet"⟩, rfl, rfl, rfl⟩, rfl⟩
  obtain ⟨located, prepared, whole, opening, houtcome, hprepared, hopening, hnumber, hwhole, -,
      hreported, hcharacter, -⟩ :=
    process_omits_opening_column hcivet placed_inlineScript (fun h => nomatch h) (by decide) rfl rfl
      first_line_inlineScript (by decide) rfl (by decide) (by decide)
  obtain rfl : "x := (".toList = prepared := Option.some.inj hprepared
  obtain rfl : (⟨0, 21⟩ : Text.LineColumn) = opening := Option.some.inj hopening
  have hplace : Text.placeOf? inlineScript.markup (Text.byteLength
      ("<script lang=\"civet\">".toList ++ "  x := ".toList)) = some ⟨0, 28⟩ := by decide
  obtain ⟨-, hcolumn, -⟩ := hcharacter "  x := ".toList _ rfl (by decide) hplace
  have hcolumn : 28 = 21 + located.start.column := hcolumn
  have hfirst : located.start.line = 1 := hnumber
  rw [hfirst] at hwhole
  exact ⟨located, whole, houtcome, hfirst, by omega, hwhole, hreported⟩

/-- The bracket of the script stands in column 28 of the file, and the error is reported where the
tag stands. -/
theorem process_misplaces_first_line_error :
    ∃ located prepared whole,
      Text.line? 1 inlineScript.content.toList = some "  x := (".toList ∧
      Text.line? 1 (Prepared.withOptions [("stripIndent", .bool true)]
        inlineScript.content).content.toList = some prepared ∧
      ((rejecting [] ⟨"unclosed bracket", 1, 6⟩).process .script inlineScript).outcome =
        .error (.located located) ∧
      Text.line? located.start.line inlineScript.markup.toList = some whole ∧
      ¬ prepared.drop 5 <+: whole.drop located.start.column :=
  ⟨_, _, _, first_line_inlineScript, rfl, rfl, rfl, by decide⟩

end Preprocessor
end Inlay
