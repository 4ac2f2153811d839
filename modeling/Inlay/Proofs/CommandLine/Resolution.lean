import Inlay.CommandLine.Command
import Inlay.Proofs.Entries
import Inlay.Proofs.Json.Values
import Inlay.Proofs.Options.Resolution
import Inlay.Proofs.Pipeline.Folding

/-!
# What `resolve` reports is what a pipeline does

The report on a name shows the language that the name stands for and the options of its stage.  A
block that is written in that name, in a pipeline with the same configuration, goes through a first
stage with exactly these options, or through none where the report says `false`
(`resolution_reports_first_stage`).

Both look up the same settings.  What has to be shown is that the report shows all that they can
say: a configuration that is read from a file names no functions (`isPlain_of_configFor?`), so what
it resolves to is an options object or nothing at all (`resolve_of_isPlain`).
-/

namespace Inlay

/-! ## Configurations without functions -/

/-- A configuration in which no function stands in for a transformer. -/
def Config.IsPlain (config : Config) : Prop := ∀ name, ¬ config.resolver.IsOverridden name

/-- The values of a table that is read are all read from members of the text. -/
theorem Json.Tree.exists_of_get?_table? {α : Type} {read : Json.Tree → Option α} {t : Json.Tree}
    {table : Table α} {key : String} {value : α} (h : t.table? read = some table)
    (hget : table.get? key = some value) : ∃ item, read item = some value := by
  cases t with
  | object members =>
    obtain ⟨entries, hentries, heq⟩ := Option.bind_eq_some_iff.1 h
    obtain rfl : Table.ofList entries = table := Option.some.inj heq
    rw [Table.get?_ofList] at hget
    have hmem : (key, value) ∈ entries := Entries.mem_of_get?_insertAll hget
    obtain ⟨i, hi, hentry⟩ := List.getElem_of_mem hmem
    have hread := mapM_eq_some_iff.1 hentries
    have hmember := hread.get (hread.length_eq ▸ hi) hi
    obtain ⟨_, -, hmember⟩ := Option.bind_eq_some_iff.1 hmember
    obtain ⟨v, hv, hpair⟩ := Option.bind_eq_some_iff.1 hmember
    refine ⟨_, hv.trans ?_⟩
    rw [List.get_eq_getElem, hentry] at hpair
    cases hpair
    rfl
  | _ => cases h

namespace Config

theorem isPlain_of_ofTree? {t : Json.Tree} {config : Config} (h : ofTree? t = some config) :
    config.IsPlain := by
  obtain ⟨r, -, h⟩ := Option.bind_eq_some_iff.1 h
  obtain ⟨schema, -, h⟩ := Option.bind_eq_some_iff.1 h
  obtain ⟨aliases, -, h⟩ := Option.bind_eq_some_iff.1 h
  obtain ⟨sourceMap, -, h⟩ := Option.bind_eq_some_iff.1 h
  obtain ⟨settings, hsettings, h⟩ := Option.bind_eq_some_iff.1 h
  obtain rfl := Option.some.inj h
  intro name hoverridden
  obtain ⟨function, hset⟩ := hoverridden
  change settings.get? name = some (.override function) at hset
  rw [Json.Record.orElse?] at hsettings
  split at hsettings
  · obtain rfl := Option.some.inj hsettings
    cases hset
  · obtain ⟨item, hitem⟩ := Json.Tree.exists_of_get?_table? hsettings hset
    obtain ⟨value, -, hvalue⟩ := Option.map_eq_some_iff.1 hitem
    cases value <;> cases hvalue

theorem isPlain_empty : ({} : Config).IsPlain := by
  intro name hoverridden
  obtain ⟨function, hset⟩ := hoverridden
  cases hset

theorem isPlain_of_load? {files : FileTree} {path : String} {config : Config}
    (h : load? files path = some config) : config.IsPlain := by
  obtain ⟨text, -, htext⟩ := Option.bind_eq_some_iff.1 h
  obtain ⟨t, -, ht⟩ := Option.bind_eq_some_iff.1 htext
  exact isPlain_of_ofTree? ht

end Config

/-! ## First stages -/

namespace Preprocessor

variable {p : Preprocessor} {kind : BlockKind} {block : Block} {name language : String}

/-- The first stage of a block is called with the options object that its language and the written
name are resolved to. -/
theorem primary_calls_with_options {fields : Json.Fields} {slot : TransformerKind}
    {t : Transformer} (hlang : block.attributes.get? "lang" = some (.text name))
    (hcanonical : p.resolver.registry.canonical name = language)
    (htarget : kind.targetLanguage ≠ language)
    (hoptions : p.resolver.resolve language (some name) false = .options (.object fields))
    (hfind : p.workshop.find? language = some (slot, t)) :
    ∃ call, (p.primary kind block).events = [.called call] ∧ call.callee = .transformer slot ∧
      call.input.options = some (.object fields) ∧ call.result = t call.input := by
  subst hcanonical
  rw [primary_of_languageOf (languageOf_of_lang hlang kind)]
  simp only [if_neg htarget.symm, hoptions, runStage_of_find? hfind, Run.events_andThen_done]
  exact ⟨_, rfl, rfl, rfl, rfl⟩

/-- A first stage that is turned off hands the content on as it is, also its indentation. -/
theorem primary_of_disabled (hlang : block.attributes.get? "lang" = some (.text name))
    (hcanonical : p.resolver.registry.canonical name = language)
    (htarget : kind.targetLanguage ≠ language)
    (hoptions : p.resolver.resolve language (some name) false = .disabled) :
    p.primary kind block =
      .done ⟨{ code := block.content, dependencies := block.dependencies }, some language, 0⟩ := by
  subst hcanonical
  rw [primary_of_languageOf (languageOf_of_lang hlang kind)]
  simp only [if_neg htarget.symm, hoptions, runStage, Run.done_andThen]
  simp only [primaryInput, Prepared.of, Output.ofCode, List.append_nil]
  rfl

end Preprocessor

/-! ## Reports -/

namespace CommandLine

variable {files : FileTree} {path : Option String} {config : Config}

/-- A configuration that a command works with names no functions: it is read from a file, or it is
empty. -/
theorem isPlain_of_configFor? (h : configFor? files path = some config) : config.IsPlain := by
  cases path with
  | some path => exact Config.isPlain_of_load? h
  | none =>
    obtain rfl := Option.some.inj h
    unfold Config.discover
    split
    · exact Config.isPlain_empty
    · split
      · exact Config.isPlain_of_load? ‹_›
      · exact Config.isPlain_empty

theorem resolve_of_isPlain (h : config.IsPlain) (language : String) (written : Option String) :
    config.resolver.resolve language written false = .disabled ∨
      ∃ fields, config.resolver.resolve language written false = .options (.object fields) := by
  have hfor : config.resolver.overrideFor? language written false = none := by
    rw [Resolver.overrideFor?_of_unheard (.inr fun name _ => h name),
      Resolver.override?_eq_none_iff.2 (h language), Option.map_none]
  rw [Resolver.resolve_of_no_override hfor]
  split
  · exact .inl rfl
  · exact .inr ⟨_, rfl⟩

/-- The report on a name shows the options object of its stage, or `false`.  A block that is written
in that name, and not in the target language, has its first stage called with exactly that object,
or its content handed on where the report shows `false`. -/
theorem resolution_reports_first_stage (hplain : config.IsPlain) (name : String) :
    ∃ language options,
      resolution config name =
        .object [("alias", .string name), ("lang", .string language), ("options", options)] ∧
      (∀ files path, configFor? files path = some config →
        (Command.resolve name path).report? files =
          some (.printed (resolution config name).pretty)) ∧
      ((∃ fields, options = .object fields) ∨ options = .bool false) ∧
      ∀ (p : Preprocessor) (kind : BlockKind) (block : Block), p.resolver = config.resolver →
        kind.targetLanguage ≠ language → block.attributes.get? "lang" = some (.text name) →
        (∀ fields slot t, options = .object fields →
          p.workshop.find? language = some (slot, t) →
          ∃ call, (p.primary kind block).events = [.called call] ∧
            call.callee = .transformer slot ∧ call.input.options = some options ∧
            call.result = t call.input) ∧
        (options = .bool false →
          p.primary kind block =
            .done ⟨{ code := block.content, dependencies := block.dependencies }, some language,
              0⟩) := by
  have hreport : ∀ files path, configFor? files path = some config →
      (Command.resolve name path).report? files =
        some (.printed (resolution config name).pretty) := by
    intro files path hconfig
    rw [Command.report?, hconfig]
    rfl
  refine ⟨config.resolver.registry.canonical name, _, rfl, hreport, ?_, ?_⟩
  · rcases resolve_of_isPlain hplain (config.resolver.registry.canonical name) (some name) with
      hoff | ⟨fields, hoptions⟩
    · exact .inr (by rw [hoff]; rfl)
    · exact .inl ⟨fields, by rw [hoptions]; rfl⟩
  · intro p kind block hp htarget hlang
    have hcanonical : p.resolver.registry.canonical name =
        config.resolver.registry.canonical name := by rw [hp]
    rcases resolve_of_isPlain hplain (config.resolver.registry.canonical name) (some name) with
      hoff | ⟨fields, hoptions⟩
    · rw [hoff]
      constructor
      · intro _ _ _ hobject
        cases hobject
      · intro _
        exact Preprocessor.primary_of_disabled hlang hcanonical htarget (hp ▸ hoff)
    · rw [hoptions]
      constructor
      · intro _ slot t _ hfind
        exact Preprocessor.primary_calls_with_options hlang hcanonical htarget (hp ▸ hoptions)
          hfind
      · intro hfalse
        cases hfalse

/-- A configuration file with an alias, options for the alias, and a language that is turned off. -/
def projectValue : Json := .object [
  ("aliases", .array [.array [.string "tsx", .string "typescript"]]),
  ("sourceMap", .bool true),
  ("transformers", .object [("tsx", .object [("jsx", .bool true)]), ("less", .bool false)])]

def projectFiles : FileTree where
  nodes := [(["vernis.config.json"], .file (.text projectValue.compact))]
  workingDirectory := []

def projectConfig : Config where
  aliases := [("tsx", "typescript")]
  sourceMap := true
  transformers := Table.ofList
    [("tsx", .options (.object [("jsx", .bool true)])), ("less", .enabled false)]

def projectPreprocessor : Preprocessor where
  resolver := projectConfig.resolver
  workshop := Workshop.empty.register .typescript fun _ => .done (.ofCode "var x = 1")
  installed := fun _ => false

def tsxScript : Block :=
  { content := "let x = 1", attributes := Table.ofList [("lang", .text "tsx")] }

theorem read?_projectFiles :
    projectFiles.read? "vernis.config.json" = some projectValue.compact := by
  have hparts : Path.parts "vernis.config.json" = ["vernis.config.json"] := rfl
  rw [FileTree.read?, FileTree.node?, FileTree.placeOf?, hparts]
  simp [projectFiles, FileTree.walk, FileTree.isDirectoryAt, FileTree.nodeAt?]

theorem isWhole_projectValue : projectValue.IsWhole := by
  refine .object (List.forall_mem_cons.2 ⟨.array ?_, List.forall_mem_cons.2 ⟨.bool true,
    List.forall_mem_singleton.2 (.object ?_)⟩⟩)
  · refine List.forall_mem_singleton.2 (.array ?_)
    exact List.forall_mem_cons.2 ⟨.string _, List.forall_mem_singleton.2 (.string _)⟩
  · refine List.forall_mem_cons.2 ⟨.object ?_, List.forall_mem_singleton.2 (.bool false)⟩
    exact List.forall_mem_singleton.2 (.bool true)

theorem configFor?_projectFiles :
    configFor? projectFiles (some "vernis.config.json") = some projectConfig := by
  show (projectFiles.read? "vernis.config.json").bind Config.ofText? = _
  rw [read?_projectFiles, Option.bind_some, Config.ofText?,
    Json.parseTree?_compact isWhole_projectValue]
  rfl

theorem resolution_reports_first_stage_tsx :
    configFor? projectFiles (some "vernis.config.json") = some projectConfig ∧
    projectConfig.IsPlain ∧
    (Command.resolve "tsx" (some "vernis.config.json")).report? projectFiles =
      some (.printed (resolution projectConfig "tsx").pretty) ∧
    resolution projectConfig "tsx" = .object [("alias", .string "tsx"),
      ("lang", .string "typescript"),
      ("options", .object [("jsx", .bool true), ("sourceMap", .bool true)])] ∧
    ∃ call, (projectPreprocessor.primary .script tsxScript).events = [.called call] ∧
      call.callee = .transformer .typescript ∧
      call.input.options = some (.object [("jsx", .bool true), ("sourceMap", .bool true)]) := by
  have hplain : projectConfig.IsPlain := isPlain_of_configFor? configFor?_projectFiles
  have hresolution : resolution projectConfig "tsx" = .object [("alias", .string "tsx"),
      ("lang", .string "typescript"),
      ("options", .object [("jsx", .bool true), ("sourceMap", .bool true)])] := rfl
  obtain ⟨language, options, hshown, hreport, -, hfirst⟩ :=
    resolution_reports_first_stage hplain "tsx"
  cases hresolution.symm.trans hshown
  obtain ⟨call, hevents, hcallee, hoptions, -⟩ :=
    (hfirst projectPreprocessor .script tsxScript rfl (by decide) rfl).1 _ .typescript _ rfl rfl
  exact ⟨configFor?_projectFiles, hplain, hreport _ _ configFor?_projectFiles, hresolution, call,
    hevents, hcallee, hoptions⟩

end CommandLine
end Inlay
