import Inlay.CommandLine.Command
import Inlay.Proofs.Files.Writing
import Inlay.Proofs.SourceMap.ChainOutcomes
import Inlay.Proofs.SourceMap.Document
import Inlay.Proofs.Text.Occurrences

/-!
# The command that chains two files

If two files hold maps whose mappings decode, the command chains these maps and delivers the text of
the result, either to the output or to a file.  In every other case it fails, and then neither the
output nor any file shows that it ran (`chain_command_composes_or_changes_nothing`).

Everything that can fail comes before the report, and a command without a report has no effect.  So
what has to be shown is when there is one (`chainFiles?_eq_some_iff`): the text of the later map
must count as the map that the file holds, and a chain with two maps is never a map that is handed
on.

Every pair of paths, every indentation and every path for the result can be asked for, whatever the
paths look like (`readCommand_chainArguments`).
-/

namespace Inlay
namespace CommandLine

/-! ## Arguments -/

namespace CommandSpec

variable {spec : CommandSpec} {o : OptionSpec} {g : Given} {value : String}

theorem addOption_of_accepts (hnew : ∀ entry ∈ g.options, entry.1 ≠ o.long)
    (haccepts : o.accepts value = true) :
    addOption g o value = some { g with options := g.options ++ [(o.long, value)] } := by
  have hany : (g.options.any fun entry => entry.1 = o.long) = false := by simpa using hnew
  rw [addOption, hany, haccepts]
  rfl

theorem toList_long (name value : String) :
    ("--" ++ name ++ "=" ++ value).toList = '-' :: '-' :: (name.toList ++ '=' :: value.toList) := by
  simp

theorem request_long (hname : '=' ∉ o.long.toList) (hfind : spec.ofLong? o.long = some o) :
    spec.request ("--" ++ o.long ++ "=" ++ value) = .option o (some value) := by
  have hcut : Text.cutAtFirst? '=' (o.long.toList ++ '=' :: value.toList) =
      some (o.long.toList, value.toList) := Text.cutAtFirst?_eq_some_iff.2 ⟨rfl, hname⟩
  rw [request, toList_long]
  simp [splitLong, hcut, hfind]

/-- A long option with its value behind an equals sign is added to those that were given before. -/
theorem readWithin_long {fuel : Nat} {rest : List String} (hname : '=' ∉ o.long.toList)
    (hfind : spec.ofLong? o.long = some o) (hnew : ∀ entry ∈ g.options, entry.1 ≠ o.long)
    (haccepts : o.accepts value = true) :
    spec.readWithin g (fuel + 1) (("--" ++ o.long ++ "=" ++ value) :: rest) =
      spec.readWithin { g with options := g.options ++ [(o.long, value)] } fuel rest := by
  have hdistinct : "--" ++ o.long ++ "=" ++ value ≠ "--" := by
    intro heq
    have hlist := congrArg String.toList heq
    rw [toList_long] at hlist
    simp at hlist
  have hlooks : looksLikeOption ("--" ++ o.long ++ "=" ++ value) = true := by
    rw [looksLikeOption, toList_long]
    cases o.long.toList <;> rfl
  rw [readWithin, if_neg hdistinct, if_pos hlooks, request_long hname hfind]
  dsimp only
  rw [addOption_of_accepts hnew haccepts]

theorem read_of_readWithin {args : List String}
    (h : spec.readWithin {} (args.length + 1) args = .command g)
    (hall : g.operands.length = spec.operands.length) : spec.read args = .command g := by
  rw [read, h]
  exact if_pos hall

end CommandSpec

/-- A natural number below the limit of a word is read back from its decimal digits. -/
theorem word32?_toString {n : Nat} (h : n < word32Limit) : word32? (toString n) = some n := by
  have hdigit : ∀ c ∈ Nat.toDigits 10 n, ('0' ≤ c && c ≤ '9') = true := by
    intro c hc
    have hc := Nat.isDigit_of_mem_toDigits (by decide) (by decide) hc
    simpa [Char.isDigit, Char.le_def] using hc
  have hsign : ∀ c rest, Nat.toDigits 10 n = c :: rest → c ≠ '+' ∧ c ≠ '-' := by
    intro c rest hcons
    have hc := hdigit c (hcons ▸ List.mem_cons_self)
    constructor <;> rintro rfl <;> exact absurd hc (by decide)
  have hvalue : (Nat.toDigits 10 n).foldl (fun sum c => sum * 10 + (c.toNat - 0x30)) 0 = n := by
    have hdigits := @Nat.ofDigitChars_ten_toDigits n
    simp only [Nat.ofDigitChars, Nat.mul_comm 10] at hdigits
    exact hdigits
  have hempty : (Nat.toDigits 10 n).isEmpty = false := by
    rw [List.isEmpty_eq_false_iff]
    exact Nat.toDigits_ne_nil
  rw [word32?, Nat.toString_eq_ofList_toDigits, String.toList_ofList]
  split
  rename_i negative digits hparts
  split at hparts
  case h_1 hcons => exact absurd rfl (hsign _ _ hcons).1
  case h_2 hcons => exact absurd rfl (hsign _ _ hcons).2
  case h_3 =>
    cases hparts
    rw [hempty, List.all_eq_true.2 hdigit, hvalue]
    exact if_pos h

variable {first second value path text : String} {indentation fuel : Nat} {rest : List String}
  {output : Option String}

theorem readWithin_indentation (h : word32? value = some indentation) :
    chainSpec.readWithin {} (fuel + 1) (("--indentation=" ++ value) :: rest) =
      chainSpec.readWithin ⟨[("indentation", value)], []⟩ fuel rest :=
  @CommandSpec.readWithin_long chainSpec
    ⟨"indentation", none, fun value => (word32? value).isSome⟩ {} value fuel rest (by decide) rfl
    (by simp) (by simp [h])

theorem readWithin_output (hpath : path ≠ "") :
    chainSpec.readWithin ⟨[("indentation", value)], []⟩ (fuel + 1) (("--output=" ++ path) :: rest) =
      chainSpec.readWithin ⟨[("indentation", value), ("output", path)], []⟩ fuel rest :=
  @CommandSpec.readWithin_long chainSpec ⟨"output", 'o', isPath⟩ ⟨[("indentation", value)], []⟩ path
    fuel rest (by decide) rfl (by simp) (by simpa [isPath] using hpath)

theorem readWithin_paths (hfirst : first ≠ "") (hsecond : second ≠ "")
    (options : List (String × String)) :
    chainSpec.readWithin ⟨options, []⟩ (fuel + 1) ["--", first, second] =
      .command ⟨options, [first, second]⟩ := by
  simp [CommandSpec.readWithin, CommandSpec.addOperands, CommandSpec.addOperand, chainSpec, isPath,
    hfirst, hsecond]

/-- Arguments that ask for the chain of two files.  Behind `--` a path is a path, also if it looks
like an option. -/
def chainArguments (first second : String) (indentation : Nat) (output : Option String) :
    List String :=
  "chain" :: ("--indentation=" ++ toString indentation) ::
    ((output.map fun path => "--output=" ++ path).toList ++ ["--", first, second])

theorem readCommand_chainArguments (hfirst : first ≠ "") (hsecond : second ≠ "")
    (hindentation : indentation < word32Limit) (houtput : ∀ path, output = some path → path ≠ "") :
    readCommand (chainArguments first second indentation output) =
      some (.chain first second indentation output) := by
  have hword := word32?_toString hindentation
  rw [chainArguments]
  generalize toString indentation = value at hword
  cases output with
  | none =>
    have hread : chainSpec.read ["--indentation=" ++ value, "--", first, second] =
        .command ⟨[("indentation", value)], [first, second]⟩ :=
      CommandSpec.read_of_readWithin
        ((readWithin_indentation hword).trans (readWithin_paths hfirst hsecond _)) rfl
    show readChain ["--indentation=" ++ value, "--", first, second] = _
    rw [readChain, hread]
    simp [Parsed.toCommand, Given.option?, hword]
  | some path =>
    have hread : chainSpec.read
        ["--indentation=" ++ value, "--output=" ++ path, "--", first, second] =
        .command ⟨[("indentation", value), ("output", path)], [first, second]⟩ :=
      CommandSpec.read_of_readWithin
        ((readWithin_indentation hword).trans
          ((readWithin_output (houtput path rfl)).trans (readWithin_paths hfirst hsecond _))) rfl
    show readChain ["--indentation=" ++ value, "--output=" ++ path, "--", first, second] = _
    rw [readChain, hread]
    simp [Parsed.toCommand, Given.option?, hword]

/-! ## Two files -/

/-- A file holds a map whose mappings decode. -/
def HoldsMap (files : FileTree) (path : String) (map : SourceMap) : Prop :=
  ∃ text, files.read? path = some text ∧ SourceMap.ofText text = .ok map ∧
    ∃ mappings, map.decode = .ok mappings

variable {files : FileTree} {map : SourceMap}

theorem HoldsMap.decodes (h : HoldsMap files path map) : ∃ mappings, map.decode = .ok mappings := by
  obtain ⟨_, _, _, hdecodes⟩ := h
  exact hdecodes

/-- A chain of two maps that succeeds has decoded the mappings of both. -/
theorem decodes_of_chain {a b : SourceMap} {result : Option SourceMap}
    (h : SourceMap.chain (some a) (some (.map b)) indentation = .ok result) :
    (∃ m, a.decode = .ok m) ∧ (∃ m, b.decode = .ok m) ∧ ∃ chained, result = some chained := by
  cases ha : a.decode with
  | error cause =>
    rw [SourceMap.chain_eq_error_iff.2 (.inl ha)] at h
    cases h
  | ok ma =>
    cases hb : b.decode with
    | error cause =>
      rw [SourceMap.chain_eq_error_iff.2 (.inr ⟨ma, ha, hb⟩)] at h
      cases h
    | ok mb =>
      rw [SourceMap.chain_eq_ok indentation ha hb] at h
      cases h
      exact ⟨⟨ma, rfl⟩, ⟨mb, rfl⟩, _, rfl⟩

theorem toOption_eq_some_iff {α : Type} {r : Except MapError α} {value : α} :
    r.toOption = some value ↔ r = .ok value := by
  cases r <;> simp [Except.toOption]

theorem chainFiles?_eq_some_iff : chainFiles? files first second indentation = some text ↔
    ∃ a b chained, HoldsMap files first a ∧ HoldsMap files second b ∧
      SourceMap.chain (some a) (some (.map b)) indentation = .ok (some chained) ∧
      chained.toText = text := by
  constructor
  · intro h
    obtain ⟨firstText, hfirst, h⟩ := Option.bind_eq_some_iff.1 h
    obtain ⟨a, ha, h⟩ := Option.bind_eq_some_iff.1 h
    obtain ⟨secondText, hsecond, h⟩ := Option.bind_eq_some_iff.1 h
    obtain ⟨result, hchain, h⟩ := Option.bind_eq_some_iff.1 h
    rw [toOption_eq_some_iff] at ha hchain
    rcases SourceMap.unreadable_or_standsFor (some (.text secondText)) with hunreadable | ⟨_, hread⟩
    · rw [SourceMap.chain_of_unreadable hunreadable] at hchain
      cases hchain
    · rw [SourceMap.chain_of_standsFor hread] at hchain
      cases hread with
      | @text _ b hb =>
        obtain ⟨hadecodes, hbdecodes, chained, rfl⟩ := decodes_of_chain hchain
        exact ⟨a, b, chained, ⟨firstText, hfirst, ha, hadecodes⟩,
          ⟨secondText, hsecond, hb, hbdecodes⟩, hchain, Option.some.inj h⟩
  · rintro ⟨a, b, chained, ⟨firstText, hfirst, ha, -⟩, ⟨secondText, hsecond, hb, -⟩, hchain, rfl⟩
    have htext : SourceMap.chain (some a) (some (.text secondText)) indentation =
        .ok (some chained) := (SourceMap.chain_of_standsFor (.text hb) _ _).trans hchain
    simp [chainFiles?, hfirst, ha, hsecond, htext, Except.toOption]

/-! ## Runs -/

theorem run_of_report {args : List String} {command : Command} {report : Report}
    (hargs : readCommand args = some command) (h : command.report? files = some report) :
    run args files = report.carryOut files := by
  rw [run, hargs]
  dsimp only
  rw [h]

theorem run_of_no_report {args : List String} {command : Command}
    (hargs : readCommand args = some command) (h : command.report? files = none) :
    run args files = ⟨failure, "", files⟩ := by
  rw [run, hargs]
  dsimp only
  rw [h]

theorem report?_chain_of_text (output : Option String)
    (h : chainFiles? files first second indentation = some text) :
    (Command.chain first second indentation output).report? files =
      some (match output with
        | none => .printed text
        | some path => .saved path text) := by
  rw [Command.report?, h]
  cases output <;> rfl

/-- When both files hold maps whose mappings decode, the command succeeds and delivers the text of
their chain, to the output or to the file at a path that can be written.  Nothing else changes.  If
one of them does not, the command fails, prints nothing, and leaves all files as they are. -/
theorem chain_command_composes_or_changes_nothing {args : List String}
    (hargs : readCommand args = some (.chain first second indentation output)) (files : FileTree) :
    (∀ a b, HoldsMap files first a → HoldsMap files second b →
      ∃ chained, SourceMap.chain (some a) (some (.map b)) indentation = .ok (some chained) ∧
        (output = none → run args files = ⟨success, chained.toText ++ "\n", files⟩) ∧
        ∀ path, output = some path → files.IsWritable path →
          ∃ after, run args files = ⟨success, "", after⟩ ∧
            files.Written path chained.toText after) ∧
    ((¬ ∃ a b, HoldsMap files first a ∧ HoldsMap files second b) →
      run args files = ⟨failure, "", files⟩) := by
  constructor
  · intro a b ha hb
    obtain ⟨ma, hma⟩ := ha.decodes
    obtain ⟨mb, hmb⟩ := hb.decodes
    have hchain := SourceMap.chain_eq_ok indentation hma hmb
    have hreport := report?_chain_of_text output
      (chainFiles?_eq_some_iff.2 ⟨a, b, _, ha, hb, hchain, rfl⟩)
    refine ⟨_, hchain, ?_, ?_⟩
    · rintro rfl
      exact run_of_report hargs hreport
    · rintro path rfl hwritable
      obtain ⟨after, hwrite, hwritten⟩ := FileTree.written_of_isWritable hwritable _
      refine ⟨after, ?_, hwritten⟩
      rw [run_of_report hargs hreport]
      simp only [Report.carryOut, hwrite]
  · intro hnone
    refine run_of_no_report hargs ?_
    have hfails : chainFiles? files first second indentation = none := by
      rw [Option.eq_none_iff_forall_ne_some]
      intro text htext
      obtain ⟨a, b, -, ha, hb, -⟩ := chainFiles?_eq_some_iff.1 htext
      exact hnone ⟨a, b, ha, hb⟩
    rw [Command.report?, hfails]
    rfl

/-- A tree with nothing but two files, which hold maps. -/
def mapFiles (first second : SourceMap) : FileTree :=
  { workingDirectory := []
    nodes := [(["a.map"], .file (.text first.toText)), (["b.map"], .file (.text second.toText))] }

theorem placeOf?_mapFiles (first second : SourceMap) :
    (mapFiles first second).placeOf? "/a.map" = some ["a.map"] ∧
      (mapFiles first second).placeOf? "/b.map" = some ["b.map"] := by
  have hfirst : Path.parts "/a.map" = ["", "a.map"] := by simp [Path.parts, Text.pieces]
  have hsecond : Path.parts "/b.map" = ["", "b.map"] := by simp [Path.parts, Text.pieces]
  simp [FileTree.placeOf?, FileTree.walk, FileTree.isDirectoryAt, FileTree.nodeAt?, hfirst, hsecond,
    Path.isAbsolute]

/-- The result may go to the file that holds the earlier map, which was read before. -/
theorem chain_command_replaces_earlier_map :
    let first : SourceMap := ⟨3, none, none, ["App.civet"], [], [], "KAEG"⟩
    let second : SourceMap := ⟨3, none, none, ["App.ts"], [], [], "KAAK"⟩
    let chained := SourceMap.ofMappings ["App.civet"] [] [] [[⟨5, some ⟨0, 2, 5, none⟩⟩]]
    ∃ after,
      run (chainArguments "/a.map" "/b.map" 2 (some "/a.map")) (mapFiles first second) =
        ⟨success, "", after⟩ ∧
      after.read? "/a.map" = some chained.toText ∧
      after.node? "/b.map" = (mapFiles first second).node? "/b.map" := by
  intro first second chained
  obtain ⟨hfirst, hsecond⟩ := placeOf?_mapFiles first second
  have hargs : readCommand (chainArguments "/a.map" "/b.map" 2 (some "/a.map")) =
      some (.chain "/a.map" "/b.map" 2 (some "/a.map")) :=
    readCommand_chainArguments (by decide) (by decide) (by decide) (by simp)
  have hdecodeFirst : first.decode = .ok [[⟨5, some ⟨0, 2, 3, none⟩⟩]] := by decide
  have hdecodeSecond : second.decode = .ok [[⟨5, some ⟨0, 0, 5, none⟩⟩]] := by decide
  have ha : HoldsMap (mapFiles first second) "/a.map" first := by
    refine ⟨first.toText, ?_, SourceMap.ofText_toText first, _, hdecodeFirst⟩
    rw [FileTree.read?, FileTree.node?, hfirst]
    rfl
  have hb : HoldsMap (mapFiles first second) "/b.map" second := by
    refine ⟨second.toText, ?_, SourceMap.ofText_toText second, _, hdecodeSecond⟩
    rw [FileTree.read?, FileTree.node?, hsecond]
    rfl
  have hwritable : (mapFiles first second).IsWritable "/a.map" :=
    ⟨_, hfirst, rfl, by simp [FileTree.isDirectoryAt, FileTree.nodeAt?, mapFiles]⟩
  have hchained : SourceMap.chain (some first) (some (.map second)) 2 = .ok (some chained) := by
    rw [SourceMap.chain_eq_ok 2 hdecodeFirst hdecodeSecond, Lookup.ofMappings_of_sorted (by decide)]
    rfl
  obtain ⟨result, hresult, -, hsaved⟩ :=
    (chain_command_composes_or_changes_nothing hargs (mapFiles first second)).1 _ _ ha hb
  obtain rfl : chained = result := by
    rw [hchained] at hresult
    exact Option.some.inj (Except.ok.inj hresult)
  obtain ⟨after, hrun, hwritten⟩ := hsaved _ rfl hwritable
  refine ⟨after, hrun, hwritten.read, hwritten.others _ ?_⟩
  rw [hfirst, hsecond]
  decide

end CommandLine
end Inlay
