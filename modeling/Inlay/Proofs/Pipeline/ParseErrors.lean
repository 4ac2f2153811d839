import Inlay.Proofs.Civet.Transformer
import Inlay.Proofs.Pipeline.Folding
import Inlay.Proofs.Text.Lines

/-!
# Where parse errors of a Civet block land in its file

The compiler of a Civet block reports a parse error at a line and a column of the content that the
first stage prepared.  That content carries the lines of the block without their indentation,
behind the lines that the options prepend (`line?_prepared`).  The pipeline adds the lines of the
file in front of the block and the width of the indentation (`primary_rejects`).

Without prepended text the error lands on the very character of the file that the compiler pointed
at (`process_places_parse_errors`).  Prepended lines are not taken away again, so behind a
prepended text the error lands too far down by the lines of that text
(`process_counts_prepended_lines`); `process_misplaces_parse_error` is such a block.  Columns are
words of 32 bits, so the column of the error must fit one together with the indentation.
-/

namespace Inlay

/-! ## Prepared content -/

/-- The text that options prepend. -/
def Prepared.prependedText? (fields : Json.Fields) : Option String :=
  ((Json.object fields).field? "prependData").bind Json.string?

/-- The number of lines that options put in front of a block. -/
def Prepared.prependedLines (fields : Json.Fields) : Nat :=
  match prependedText? fields with
  | some data => data.toList.count '\n' + 1
  | none => 0

/-- A block prepared with options. -/
def Prepared.withOptions (fields : Json.Fields) (content : String) : Prepared :=
  Prepared.of (some (.options (.object fields))) content

namespace Prepared

variable {fields : Json.Fields} {content : String} {line : List Char} {k : Nat}

theorem withOptions_eq (fields : Json.Fields) (content : String) :
    withOptions fields content = prepend (.object fields) (stripped (.object fields) content) :=
  rfl

theorem indentation_withOptions :
    (withOptions fields content).indentation = (stripped (.object fields) content).indentation := by
  rw [withOptions_eq, prepend]
  split <;> rfl

/-- A line that is not blank has the indentation that is taken off. -/
theorem indentation_le (hline : Text.line? k content.toList = some line)
    (hblank : Text.allBlank line = false) :
    (withOptions fields content).indentation ≤ Text.indentOf line := by
  rw [indentation_withOptions, stripped]
  split
  case isTrue =>
    show (Text.strip content).width ≤ _
    rw [Text.strip_eq]
    exact Text.indentationOf_le (Text.mem_pieces_of_line? hline) hblank
  case isFalse => exact Nat.zero_le _

theorem line?_stripped (fields : Json.Fields) (content : String) (k : Nat) :
    Text.line? k (stripped (.object fields) content).content.toList =
      (Text.line? k content.toList).map
        (Text.unindent (stripped (.object fields) content).indentation) := by
  unfold stripped
  split
  case isTrue => exact Text.line?_strip k content
  case isFalse => rw [Text.unindent_zero_eq, Option.map_id, id]

/-- The lines of a block stand without their indentation behind those that are prepended. -/
theorem line?_prepared (fields : Json.Fields) (hk : 1 ≤ k)
    (hline : Text.line? k content.toList = some line) :
    Text.line? (prependedLines fields + k) (withOptions fields content).content.toList =
      some (Text.unindent (withOptions fields content).indentation line) := by
  have hstripped := line?_stripped fields content k
  rw [hline, Option.map_some] at hstripped
  rw [indentation_withOptions, ← hstripped, withOptions_eq, prepend, prependedLines,
    prependedText?]
  cases hdata : ((Json.object fields).field? "prependData").bind Json.string? with
  | none => rw [Nat.zero_add]
  | some data =>
    simp only [String.toList_append]
    rw [List.append_assoc]
    exact Text.line?_behind _ _ hk

theorem line?_of_unprepended (hprepended : prependedText? fields = none) (hk : 1 ≤ k)
    (hline : Text.line? k content.toList = some line) :
    Text.line? k (withOptions fields content).content.toList =
      some (Text.unindent (withOptions fields content).indentation line) := by
  have h := line?_prepared fields hk hline
  rwa [prependedLines, hprepended, Nat.zero_add] at h

end Prepared

/-! ## The first stage -/

/-- If the column of an error and the indentation that is added to it fit a word together, then so
do the columns of the error in the file, the one behind it too. -/
theorem ErrorReporting.column_stop_lt {r : ErrorReporting} {e : ParseError}
    (h : r.offset.indentation + e.column < word32Limit) (filename : Option String) :
    (r.locate e filename).stop.column < word32Limit := by
  show r.offset.indentation + e.column - 1 + 1 < word32Limit
  unfold word32Limit at h ⊢
  omega

/-- The content of a block stands in its file where the host says. -/
structure Block.Placed (block : Block) (before after : List Char) : Prop where
  markup : block.markup.toList = before ++ block.content.toList ++ after
  offset : block.contentOffset = some (Text.byteLength before)

/-- A line of a block behind its first one starts the line of the file that is as much further
down as the block is. -/
theorem Block.Placed.exists_line? {block : Block} {before after line : List Char} {k : Nat}
    (h : block.Placed before after) (hk : 2 ≤ k)
    (hline : Text.line? k block.content.toList = some line) :
    ∃ whole, Text.line? (before.count '\n' + k) block.markup.toList = some whole ∧
      line <+: whole := by
  obtain ⟨whole, hwhole, hstart⟩ := Text.exists_line?_append_right after hline
  refine ⟨whole, ?_, hstart⟩
  rw [h.markup, List.append_assoc]
  exact Text.line?_append_left before hk hwhole

namespace Preprocessor

variable {p : Preprocessor} {kind : BlockKind} {block : Block} {fields : Json.Fields}
  {compile : Civet.Compiler} {files : FileTree} {before after line : List Char}
  {error : ParseError} {data : String} {k : Nat}

/-- The first stage of a block runs a Civet compiler with some options. -/
structure RunsCivet (p : Preprocessor) (kind : BlockKind) (block : Block) (fields : Json.Fields)
    (compile : Civet.Compiler) (files : FileTree) : Prop where
  language : ∃ found, p.languageOf kind block.attributes = .ok found ∧ found.language = "civet" ∧
    p.resolver.resolve "civet" (some found.written) false = .options (.object fields)
  transformer : p.workshop.transformer? .civet = some (Civet.transformer compile files)

/-- The compiler rejects the block as the first stage prepares it. -/
def Rejects (compile : Civet.Compiler) (files : FileTree) (fields : Json.Fields) (block : Block)
    (error : ParseError) : Prop :=
  compile (Prepared.withOptions fields block.content).content
    (Civet.optionsFor files block.filename (some (.object fields))) = .error (.parse error)

/-- Options that do not ask for silence about parse errors. -/
def Reports (fields : Json.Fields) : Prop :=
  ((Json.object fields).field? "reportErrors").bind Json.bool? ≠ some false

instance (fields : Json.Fields) : Decidable (Reports fields) :=
  inferInstanceAs (Decidable (_ ≠ _))

theorem offsetOf_placed (hplaced : block.Placed before after) (indentation : Nat) :
    offsetOf block indentation = ⟨before.count '\n', indentation⟩ := by
  have hmarkup : block.markup.toList = before ++ (block.content.toList ++ after) := by
    rw [hplaced.markup, List.append_assoc]
  have hline := Text.line_placeOf? hmarkup
  obtain ⟨place, hplace, hcount⟩ := Option.map_eq_some_iff.1 hline
  simp only [offsetOf, hplaced.offset, BlockOffset.at?, hplace, Option.map_some, Option.getD_some,
    hcount]

theorem reports_reporting (h : Reports fields) (offset : BlockOffset) :
    (Civet.reporting offset (some (.object fields))).reports = true := by
  show (((Json.object fields).field? "reportErrors").bind Json.bool?).getD true = true
  cases hvalue : ((Json.object fields).field? "reportErrors").bind Json.bool? with
  | none => rfl
  | some value =>
    cases value with
    | false => exact absurd hvalue h
    | true => rfl

theorem find?_civet {t : Transformer} (h : p.workshop.transformer? .civet = some t) :
    p.workshop.find? "civet" = some (.civet, t) := by
  have hname : TransformerKind.ofName? "civet" = some .civet := TransformerKind.ofName?_name .civet
  simp only [Workshop.find?, hname, h, Option.bind_eq_bind, Option.bind_some]
  rfl

theorem primary_rejects (hcivet : p.RunsCivet kind block fields compile files)
    (hplaced : block.Placed before after) (hreports : Reports fields)
    (hrejects : Rejects compile files fields block error) :
    (p.primary kind block).outcome = .error (.located
      ((Civet.reporting
        ⟨before.count '\n', (Prepared.withOptions fields block.content).indentation⟩
        (some (.object fields))).locate error block.filename)) := by
  obtain ⟨found, hfound, hlanguage, hoptions⟩ := hcivet.language
  have htarget : "civet" ≠ kind.targetLanguage := by cases kind <;> decide
  rw [primary_of_languageOf hfound]
  simp only [hlanguage, hoptions, if_neg htarget]
  refine Run.outcome_andThen_of_error ?_
  rw [runStage_of_find? (find?_civet hcivet.transformer)]
  show (Civet.transformer compile files _).outcome = _
  rw [Civet.outcome_transformer]
  have hanswer : compile (Prepared.of (some (.options (.object fields))) block.content).content
      (Civet.optionsFor files block.filename (some (.object fields))) = .error (.parse error) :=
    hrejects
  simp only [primaryInput, hanswer, Civet.outcomeOf, ErrorReporting.outcome,
    reports_reporting hreports, if_true, offsetOf_placed hplaced]
  rfl

theorem process_of_primary_error {cause : Failure}
    (hreplaced : kind = .markup → (p.replaced block).outcome = .ok block)
    (h : (p.primary kind block).outcome = .error cause) :
    (p.process kind block).outcome = .error cause := by
  cases kind with
  | markup =>
    show (p.markup block).outcome = _
    simp only [markup, Run.bind_eq]
    rw [Run.outcome_andThen_of_ok (hreplaced rfl), Run.outcome_andThen_of_error h]
  | script =>
    show (p.script block).outcome = _
    rw [script_eq, Run.outcome_andThen_of_error h]
  | style =>
    show (p.style block).outcome = _
    rw [style_eq, Run.outcome_andThen_of_error h]

/-! ## Lines of the file -/

/-- A parse error behind the first line of a block, on a line that is not blank, lands on the line
of the file that holds that line of the block, and on the character that the compiler pointed at.
The same text may stand elsewhere in the file too. -/
theorem process_places_parse_errors (hcivet : p.RunsCivet kind block fields compile files)
    (hplaced : block.Placed before after)
    (hreplaced : kind = .markup → (p.replaced block).outcome = .ok block)
    (hreports : Reports fields) (hprepended : Prepared.prependedText? fields = none)
    (hrejects : Rejects compile files fields block error)
    (hline : Text.line? error.line block.content.toList = some line)
    (hblank : Text.allBlank line = false) (hsecond : 2 ≤ error.line)
    (hcolumn : 1 ≤ error.column)
    (hwide : (Prepared.withOptions fields block.content).indentation + error.column <
      word32Limit) :
    ∃ located prepared whole,
      (p.process kind block).outcome = .error (.located located) ∧
      Text.line? error.line (Prepared.withOptions fields block.content).content.toList =
        some prepared ∧
      located.start.line = before.count '\n' + error.line ∧
      Text.line? located.start.line block.markup.toList = some whole ∧ line <+: whole ∧
      prepared.drop (error.column - 1) <+: whole.drop located.start.column ∧
      located.stop = ⟨located.start.line, located.start.column + 1⟩ ∧
      located.stop.column < word32Limit := by
  have houtcome := process_of_primary_error hreplaced
    (primary_rejects hcivet hplaced hreports hrejects)
  obtain ⟨whole, hwhole, hstart⟩ := hplaced.exists_line? hsecond hline
  have hprepared :=
    Prepared.line?_of_unprepended hprepended (Nat.le_of_succ_le hsecond) hline
  refine ⟨(Civet.reporting _ _).locate error block.filename, _, whole, houtcome, hprepared, rfl,
    hwhole, hstart, ?_, rfl, ErrorReporting.column_stop_lt hwide _⟩
  show _ <+: whole.drop ((Prepared.withOptions fields block.content).indentation + error.column - 1)
  rw [Nat.add_sub_assoc hcolumn]
  exact Text.prefix_drop_unindent (Prepared.indentation_le hline hblank) hstart _

/-- A preprocessor with a Civet compiler that rejects everything with one error. -/
def rejecting (settings : List (String × Setting)) (error : ParseError) : Preprocessor where
  resolver := { registry := .builtin, settings := Table.ofList settings, sourceMap := false }
  workshop := Workshop.empty.register .civet
    (Civet.transformer (fun _ _ => .error (.parse error)) ⟨[], []⟩)
  installed := fun _ => false

/-- A script with an open bracket on its third line. -/
def bracketScript : String := "\n  x := 1\n  y := (\n"

def frontOfSecond : String :=
  "<script context=\"module\">" ++ bracketScript ++ "</script>\n\n<script lang=\"civet\">"

/-- The second of two scripts with the same text. -/
def secondScript : Block :=
  { content := bracketScript, markup := frontOfSecond ++ bracketScript ++ "</script>"
    attributes := Table.ofList [("lang", .text "civet")]
    contentOffset := some (Text.byteLength frontOfSecond.toList) }

theorem placed_secondScript : secondScript.Placed frontOfSecond.toList "</script>".toList where
  markup := by
    show (frontOfSecond ++ bracketScript ++ "</script>").toList = _
    rw [String.toList_append, String.toList_append]
    rfl
  offset := rfl

theorem runsCivet_rejecting {settings : List (String × Setting)}
    (h : (rejecting settings error).resolver.resolve "civet" (some "civet") false =
      .options (.object fields)) :
    (rejecting settings error).RunsCivet .script secondScript fields
      (fun _ _ => .error (.parse error)) ⟨[], []⟩ :=
  ⟨⟨⟨"civet", "civet", some "civet"⟩, rfl, rfl, h⟩, rfl⟩

theorem third_line_secondScript :
    Text.line? 3 secondScript.content.toList = some "  y := (".toList := by decide

theorem process_places_parse_error_in_second_script :
    ∃ located whole,
      ((rejecting [] ⟨"unclosed bracket", 3, 6⟩).process .script secondScript).outcome =
        .error (.located located) ∧
      located.start.line = 8 ∧
      Text.line? 8 secondScript.markup.toList = some whole ∧
      ['('] <+: whole.drop located.start.column := by
  have hcivet : (rejecting [] ⟨"unclosed bracket", 3, 6⟩).RunsCivet .script secondScript
      [("stripIndent", .bool true)] _ _ := runsCivet_rejecting rfl
  obtain ⟨located, prepared, whole, houtcome, hprepared, hnumber, hwhole, -, hcharacter, -⟩ :=
    process_places_parse_errors hcivet placed_secondScript (fun h => nomatch h) (by decide) rfl rfl
      third_line_secondScript (by decide) (by decide) (by decide) (by decide)
  have height : located.start.line = 8 := hnumber
  rw [height] at hwhole
  obtain rfl : "y := (".toList = prepared := Option.some.inj hprepared
  exact ⟨located, whole, houtcome, height, hwhole, hcharacter⟩

/-- A parse error on the line that carries a line of the block behind its first one lands below the
line of the file that holds that line, by the lines that are prepended. -/
theorem process_counts_prepended_lines (hcivet : p.RunsCivet kind block fields compile files)
    (hplaced : block.Placed before after)
    (hreplaced : kind = .markup → (p.replaced block).outcome = .ok block)
    (hreports : Reports fields) (hprepended : Prepared.prependedText? fields = some data)
    (hrejects : Rejects compile files fields block error)
    (hline : Text.line? k block.content.toList = some line) (hsecond : 2 ≤ k)
    (hnumber : error.line = data.toList.count '\n' + 1 + k)
    (hwide : (Prepared.withOptions fields block.content).indentation + error.column <
      word32Limit) :
    ∃ located whole,
      (p.process kind block).outcome = .error (.located located) ∧
      Text.line? error.line (Prepared.withOptions fields block.content).content.toList =
        some (Text.unindent (Prepared.withOptions fields block.content).indentation line) ∧
      Text.line? (before.count '\n' + k) block.markup.toList = some whole ∧ line <+: whole ∧
      located.start.line = before.count '\n' + k + (data.toList.count '\n' + 1) ∧
      located.stop.column < word32Limit := by
  have houtcome := process_of_primary_error hreplaced
    (primary_rejects hcivet hplaced hreports hrejects)
  obtain ⟨whole, hwhole, hstart⟩ := hplaced.exists_line? hsecond hline
  have hprepared := Prepared.line?_prepared fields (Nat.le_of_succ_le hsecond) hline
  rw [Prepared.prependedLines, hprepended] at hprepared
  refine ⟨(Civet.reporting _ _).locate error block.filename, whole, houtcome, ?_, hwhole, hstart,
    ?_, ErrorReporting.column_stop_lt hwide _⟩
  · rw [hnumber]
    exact hprepared
  · show before.count '\n' + error.line = _
    omega

/-- Settings that put one line in front of Civet blocks. -/
def strictSettings : List (String × Setting) :=
  [("civet", .options (.object [("prependData", .string "'use strict'")]))]

/-- The options that a Civet block has with these settings. -/
def strictOptions : Json.Fields :=
  [("prependData", .string "'use strict'"), ("stripIndent", .bool true)]

theorem process_counts_one_prepended_line :
    ∃ located,
      ((rejecting strictSettings ⟨"unclosed bracket", 4, 6⟩).process .script secondScript).outcome =
        .error (.located located) ∧
      located.start.line = 9 := by
  have hcivet : (rejecting strictSettings ⟨"unclosed bracket", 4, 6⟩).RunsCivet .script
      secondScript strictOptions _ _ := runsCivet_rejecting rfl
  obtain ⟨located, whole, houtcome, -, -, -, hnumber, -⟩ :=
    process_counts_prepended_lines hcivet placed_secondScript (fun h => nomatch h) (by decide) rfl
      rfl third_line_secondScript (by decide) rfl (by decide)
  exact ⟨located, houtcome, hnumber⟩

/-- The third line of the script stands on line 8 and reaches the compiler as line 4; an error
there is not reported on line 8. -/
theorem process_misplaces_parse_error :
    ∃ located,
      Text.line? 3 secondScript.content.toList = some "  y := (".toList ∧
      Text.line? 8 secondScript.markup.toList = some "  y := (".toList ∧
      Text.line? 4 (Prepared.withOptions strictOptions secondScript.content).content.toList =
        some "y := (".toList ∧
      ((rejecting strictSettings ⟨"unclosed bracket", 4, 6⟩).process .script secondScript).outcome =
        .error (.located located) ∧
      located.start.line ≠ 8 :=
  ⟨_, third_line_secondScript, by decide, by decide, rfl, by decide⟩

end Preprocessor
end Inlay
