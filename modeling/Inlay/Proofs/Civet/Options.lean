import Inlay.Proofs.Civet.Transformer
import Inlay.Proofs.Json.Merging

/-!
# What the Civet compiler is told

Every call of the transformer calls the compiler once (`compilations_transformer`).  Four keys are
for the transformer and never get there, and the compiler is always to work synchronously.  Under
all other keys the user is heard first and a few defaults stand behind (`get?_compilerOptions`).
`transformer_hands_options` states this together with the language that the result announces.
-/

namespace Inlay
namespace Civet

variable {input : StageInput} {options : Json.Fields}

/-! ## The options -/

/-- What the compiler is told under a key if the user says nothing. -/
def defaultFor (filename : Option String) (parseOptions : Option Json) (key : String) :
    Option Json :=
  if key = "filename" then some (Json.stringOrNull filename)
  else if key = "js" then some (.bool false)
  else if key = "parseOptions" then parseOptions
  else none

theorem get?_baseOptions (filename : Option String) (parseOptions : Option Json) (key : String) :
    Entries.get? key (baseOptions filename parseOptions) =
      defaultFor filename parseOptions key := by
  have hfixed : Entries.get? key
      (Entries.insert "js" (.bool false)
        (Entries.insert "filename" (Json.stringOrNull filename) [])) =
      if key = "filename" then some (Json.stringOrNull filename)
      else if key = "js" then some (.bool false) else none := by
    by_cases hjs : key = "js"
    · subst hjs
      rw [Entries.get?_insert_self]
      rfl
    · rw [Entries.get?_insert_of_ne hjs, if_neg hjs]
      by_cases hfilename : key = "filename"
      · rw [hfilename, Entries.get?_insert_self, if_pos rfl]
      · rw [Entries.get?_insert_of_ne hfilename, if_neg hfilename]
        rfl
  unfold baseOptions defaultFor
  cases parseOptions with
  | none => simpa using hfixed
  | some value =>
    by_cases hparse : key = "parseOptions"
    · subst hparse
      rw [Entries.get?_insert_self]
      rfl
    · rw [Entries.get?_insert_of_ne hparse, hfixed, if_neg hparse]

theorem increasing_baseOptions (filename : Option String) (parseOptions : Option Json) :
    Entries.Increasing (baseOptions filename parseOptions) := by
  have hnil : Entries.Increasing ([] : Json.Fields) := List.Pairwise.nil
  unfold baseOptions
  cases parseOptions with
  | none => exact (hnil.insert _ _).insert _ _
  | some value => exact ((hnil.insert _ _).insert _ _).insert _ _

theorem get?_compilerOptions (filename : Option String) (parseOptions user : Option Json)
    (key : String) :
    Entries.get? key (compilerOptions filename parseOptions user) =
      if key = "sync" then some (.bool true)
      else if key ∈ adapterOptions then none
      else (Json.said user key).or (defaultFor filename parseOptions key) := by
  unfold compilerOptions
  by_cases h : key = "sync"
  · rw [h, Entries.get?_insert_self, if_pos rfl]
  · rw [Entries.get?_insert_of_ne h, if_neg h, Entries.get?_eraseAll, Json.get?_merge,
      get?_baseOptions]

theorem increasing_compilerOptions (filename : Option String) (parseOptions user : Option Json) :
    Entries.Increasing (compilerOptions filename parseOptions user) :=
  ((Json.increasing_merge (increasing_baseOptions filename parseOptions) user).eraseAll _).insert
    _ _

/-! ## Calls of the compiler -/

/-- The calls of a compiler among notices: the source and the options of each. -/
def compilations (notices : List Notice) : List (String × Json.Fields) :=
  notices.filterMap fun
    | .compiled source options => some (source, options)
    | .warned _ => none

theorem compilations_append (a b : List Notice) :
    compilations (a ++ b) = compilations a ++ compilations b := List.filterMap_append

/-- Looking for configuration calls no compiler. -/
theorem compilations_parseOptions (files : FileTree) (filename : String) :
    compilations (Civet.parseOptions files filename).events = [] := by
  unfold Civet.parseOptions
  split
  · rfl
  · split
    · rfl
    · split <;> rfl

theorem compilations_discovery (files : FileTree) (filename : Option String) :
    compilations (discovery files filename).events = [] := by
  cases filename with
  | none => rfl
  | some name => exact compilations_parseOptions files name

theorem compilations_answered (input : StageInput) (options : Json.Fields)
    (answer : Except CompileError Compiled) :
    compilations (answered input options answer).events = [] := by
  rcases answer with (error | message) | compiled
  · rfl
  · rfl
  · show compilations (resultOf options input _).events = []
    unfold resultOf
    cases (normalize options input.content compiled).warning <;> rfl

theorem compilations_transformer (compile : Compiler) (files : FileTree) (input : StageInput) :
    compilations (transformer compile files input).events =
      [(input.content, optionsFor files input.filename input.options)] := by
  rw [transformer_eq, compilations_append, compilations_discovery, List.nil_append]
  exact congrArg (_ :: ·) (compilations_answered input _ _)

/-! ## What the result announces -/

theorem isSet_eq_true_iff {key : String} :
    isSet options key = true ↔ Entries.get? key options = some (.bool true) := by
  unfold isSet Json.flag
  show ((Entries.get? key options).bind Json.bool?).getD false = true ↔ _
  cases Entries.get? key options with
  | none => simp
  | some value => cases value <;> simp [Json.bool?]

theorem outputLanguage_eq_js_iff :
    outputLanguage options = "js" ↔ Entries.get? "js" options = some (.bool true) := by
  rw [← isSet_eq_true_iff, outputLanguage]
  cases isSet options "js" <;> decide

theorem outputLanguage_eq_ts_iff :
    outputLanguage options = "ts" ↔ Entries.get? "js" options ≠ some (.bool true) := by
  rw [ne_eq, ← isSet_eq_true_iff, outputLanguage]
  cases isSet options "js" <;> decide

/-- The output for what the compiler gave. -/
def outputOf (options : Json.Fields) (input : StageInput) (n : Normalized) : Output :=
  { code := n.code, map := n.map,
    attributes := some (input.attributes.insert "lang" (.text (outputLanguage options))) }

theorem outcomeOf_compiled (input : StageInput) (options : Json.Fields) (compiled : Compiled) :
    outcomeOf input options (.ok compiled) =
      .ok (outputOf options input (normalize options input.content compiled)) := by
  show (resultOf options input _).outcome = _
  unfold resultOf
  cases (normalize options input.content compiled).warning <;> rfl

/-- A parse error that is not reported leaves a result that announces nothing. -/
theorem attributes_of_error {error : CompileError} {output : Output}
    (h : outcomeOf input options (.error error) = .ok output) : output.attributes = none := by
  cases error with
  | other message => cases h
  | parse error =>
    simp only [outcomeOf, ErrorReporting.outcome] at h
    split at h
    · cases h
    · obtain rfl := Except.ok.inj h
      rfl

/-- Every call hands the compiler one object of options, which is synchronous and without what is
for the transformer; under any other key the user is heard before the defaults.  A result of the
compiler announces JavaScript exactly if the options ask for it, else TypeScript, and all other
attributes of the block.  Without such a result nothing is announced. -/
theorem transformer_hands_options (compile : Compiler) (files : FileTree) (input : StageInput) :
    ∃ options : Json.Fields,
      compilations (transformer compile files input).events = [(input.content, options)] ∧
      Entries.Increasing options ∧
      Entries.get? "sync" options = some (.bool true) ∧
      (∀ key ∈ ["reportErrors", "summarizeErrors", "stripIndent", "prependData"],
        Entries.get? key options = none) ∧
      (∀ key ∉ ["sync", "reportErrors", "summarizeErrors", "stripIndent", "prependData"],
        Entries.get? key options =
          (Json.said input.options key).or
            (defaultFor input.filename (discovered files input.filename) key)) ∧
      (∀ compiled, compile input.content options = .ok compiled → ∃ output attributes language,
        (transformer compile files input).outcome = .ok output ∧
        output.attributes = some attributes ∧
        attributes.get? "lang" = some (.text language) ∧
        (language = "js" ↔ Entries.get? "js" options = some (.bool true)) ∧
        (language = "ts" ↔ Entries.get? "js" options ≠ some (.bool true)) ∧
        ∀ name ≠ "lang", attributes.get? name = input.attributes.get? name) ∧
      ∀ error output, compile input.content options = .error error →
        (transformer compile files input).outcome = .ok output → output.attributes = none := by
  have hget := get?_compilerOptions input.filename (discovered files input.filename) input.options
  refine ⟨optionsFor files input.filename input.options,
    compilations_transformer compile files input, increasing_compilerOptions _ _ _, ?_, ?_, ?_, ?_,
    ?_⟩
  · rw [optionsFor, hget, if_pos rfl]
  · intro key hkey
    have hsync : key ≠ "sync" := by
      rintro rfl
      exact absurd hkey (by decide)
    rw [optionsFor, hget, if_neg hsync]
    exact if_pos hkey
  · intro key hkey
    rw [List.mem_cons, not_or] at hkey
    rw [optionsFor, hget, if_neg hkey.1]
    exact if_neg hkey.2
  · intro compiled hcompiled
    have houtcome := @outcome_transformer compile files input
    rw [hcompiled, outcomeOf_compiled] at houtcome
    refine ⟨_, _, _, houtcome, rfl, Table.get?_insert_self _ _ _, outputLanguage_eq_js_iff,
      outputLanguage_eq_ts_iff, ?_⟩
    intro name hname
    exact Table.get?_insert_of_ne _ hname _
  · intro error output herror houtcome
    rw [outcome_transformer, herror] at houtcome
    exact attributes_of_error houtcome

/-- A user who asks for JavaScript and for no waiting gets JavaScript, and waits. -/
theorem transformer_hands_options_javascript :
    let input : StageInput :=
      { content := "x := 1", attributes := Table.ofList [("global", .flag true)],
        options := some (.object [("js", .bool true), ("prependData", .null),
          ("sync", .bool false)]) }
    let run := transformer (fun source _ => .ok (.code source)) ⟨[], []⟩ input
    ∃ options output attributes,
      compilations run.events = [("x := 1", options)] ∧
      Entries.get? "sync" options = some (.bool true) ∧
      Entries.get? "prependData" options = none ∧
      Entries.get? "js" options = some (.bool true) ∧
      run.outcome = .ok output ∧ output.attributes = some attributes ∧
      attributes.get? "lang" = some (.text "js") ∧
      attributes.get? "global" = some (.flag true) := by
  intro input run
  obtain ⟨options, hcall, -, hsync, hout, hkept, hannounced, -⟩ :=
    transformer_hands_options (fun source _ => .ok (.code source)) ⟨[], []⟩ input
  obtain ⟨output, attributes, language, houtcome, hattributes, hlang, hjs, -, hothers⟩ :=
    hannounced (.code "x := 1") rfl
  have hasked : Entries.get? "js" options = some (.bool true) := hkept "js" (by decide)
  rw [hjs.2 hasked] at hlang
  exact ⟨options, output, attributes, hcall, hsync, hout "prependData" (by decide), hasked,
    houtcome, hattributes, hlang, hothers "global" (by decide)⟩

end Civet
end Inlay
