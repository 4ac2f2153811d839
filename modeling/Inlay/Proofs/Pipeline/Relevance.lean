import Inlay.Proofs.Options.Resolution
import Inlay.Proofs.Pipeline.Folding

/-!
# Settings that a block has nothing to do with

A pipeline looks for settings under few names: the language of its block, the name that the language
is written as, and the names of the other stages that blocks of the kind go through (`namesRead`).
Preprocessors whose settings agree on these names, and that have all else in common, do the same
with the block (`process_of_agree`): they make the same calls with the same inputs, report the same
warnings, and come to the same result or failure.

The options of a stage are resolved from the settings of its language and of the written name alone
(`Resolver.AgreeOn.resolve`); a stage then runs without the settings.  So it is shown stage by stage
that the names it resolves are among those that are read.  The written name that postcss resolves is
one of the block's own (`mem_ownNames_of_properAlias?`).
-/

namespace Inlay

/-! ## Resolvers that agree on names -/

/-- Resolvers for the same languages whose settings are the same under some names. -/
structure Resolver.AgreeOn (r s : Resolver) (names : List String) : Prop where
  registry : r.registry = s.registry
  sourceMap : r.sourceMap = s.sourceMap
  settings : ∀ name ∈ names, r.settings.get? name = s.settings.get? name

namespace Resolver

variable {r s : Resolver} {names : List String} {name language : String} {written : Option String}

theorem AgreeOn.isConfigured (h : r.AgreeOn s names) (hname : name ∈ names) :
    r.isConfigured name = s.isConfigured name := by
  rw [Resolver.isConfigured, Resolver.isConfigured, h.settings name hname]

theorem AgreeOn.override? (h : r.AgreeOn s names) (hname : name ∈ names) :
    r.override? name = s.override? name := by
  rw [Resolver.override?, Resolver.override?, h.settings name hname]

theorem AgreeOn.isOff (h : r.AgreeOn s names) (hname : name ∈ names) :
    r.isOff name = s.isOff name := by
  rw [Resolver.isOff, Resolver.isOff, h.settings name hname]

theorem AgreeOn.configured (h : r.AgreeOn s names) (hname : name ∈ names) :
    r.configured name = s.configured name := by
  rw [Resolver.configured, Resolver.configured, h.settings name hname]

theorem AgreeOn.overrideFor? (h : r.AgreeOn s names) (hlanguage : language ∈ names)
    (hwritten : ∀ name ∈ written, name ∈ names) (ignoreWritten : Bool) :
    r.overrideFor? language written ignoreWritten =
      s.overrideFor? language written ignoreWritten := by
  have hown : r.override? language = s.override? language := h.override? hlanguage
  cases written with
  | none => simp only [Resolver.overrideFor?, hown]
  | some name =>
    have hname : r.override? name = s.override? name := h.override? (hwritten name rfl)
    simp only [Resolver.overrideFor?, hown, hname]

theorem AgreeOn.merged (h : r.AgreeOn s names) (hlanguage : language ∈ names)
    (hwritten : ∀ name ∈ written, name ∈ names) :
    r.merged language written = s.merged language written := by
  have hown : r.configured language = s.configured language := h.configured hlanguage
  have hmap : r.withSourceMap language = s.withSourceMap language := by
    funext fields
    rw [withSourceMap, withSourceMap, h.sourceMap]
  cases written with
  | none => simp only [Resolver.merged, hown, h.registry, hmap]
  | some name =>
    have hname : r.configured name = s.configured name := h.configured (hwritten name rfl)
    simp only [Resolver.merged, hown, hname, h.registry, hmap]

/-- The options of a stage come from the settings of its language and of the written name alone. -/
theorem AgreeOn.resolve (h : r.AgreeOn s names) (hlanguage : language ∈ names)
    (hwritten : ∀ name ∈ written, name ∈ names) (ignoreWritten : Bool) :
    r.resolve language written ignoreWritten = s.resolve language written ignoreWritten := by
  have hoff : r.isOff language = s.isOff language := h.isOff hlanguage
  have hoffWritten : written.map r.isOff = written.map s.isOff := by
    cases written with
    | none => rfl
    | some name => rw [Option.map_some, Option.map_some, h.isOff (hwritten name rfl)]
  rw [Resolver.resolve, Resolver.resolve, h.overrideFor? hlanguage hwritten,
    h.merged hlanguage hwritten, hoff, hoffWritten]

theorem AgreeOn.resolveStage (h : r.AgreeOn s names) (hname : name ∈ names) :
    r.resolveStage name = s.resolveStage name :=
  h.resolve hname (fun _ hnone => by cases hnone) false

end Resolver

/-! ## Preprocessors that agree on names -/

/-- The names of the stages that blocks of a kind can go through apart from their first one. -/
def BlockKind.stageNames : BlockKind → List String
  | .markup => ["replace"]
  | .script => ["typescript", "babel"]
  | .style => ["postcss", "globalStyle"]

namespace Preprocessor

/-- The names that the first stage of a block looks for: its language, and how that is written.  A
block that declares no language is written in the target language. -/
def ownNames (p : Preprocessor) (kind : BlockKind) (block : Block) : List String :=
  match p.languageOf kind block.attributes with
  | .ok language => [language.language, language.written]
  | .error _ => []

/-- The names that the pipeline of a block looks for. -/
def namesRead (p : Preprocessor) (kind : BlockKind) (block : Block) : List String :=
  p.ownNames kind block ++ kind.stageNames

/-- Preprocessors that are the same up to settings under other names than some. -/
structure AgreeOn (p q : Preprocessor) (names : List String) : Prop where
  resolver : p.resolver.AgreeOn q.resolver names
  workshop : p.workshop = q.workshop
  installed : p.installed = q.installed

variable {p q : Preprocessor} {kind : BlockKind} {block : Block} {names : List String}

/-! ## Stages -/

theorem AgreeOn.runStage (h : p.AgreeOn q names) : p.runStage = q.runStage := by
  funext name options input
  cases options <;> simp only [Preprocessor.runStage, h.workshop]

theorem AgreeOn.laterStage (h : p.AgreeOn q names) : p.laterStage = q.laterStage := by
  funext name options block acc attributes
  simp only [Preprocessor.laterStage, h.runStage]

theorem AgreeOn.languageOf (h : p.AgreeOn q names) : p.languageOf = q.languageOf := by
  funext kind attributes
  simp only [Preprocessor.languageOf, h.resolver.registry]

theorem AgreeOn.primary (h : p.AgreeOn q names) (hown : p.ownNames kind block ⊆ names) :
    p.primary kind block = q.primary kind block := by
  cases declared : p.languageOf kind block.attributes with
  | error cause =>
    simp only [Preprocessor.primary, ← h.languageOf, declared, Run.bind_eq]
    rfl
  | ok language =>
    rw [ownNames, declared] at hown
    have hresolve : p.resolver.resolve language.language (some language.written) false =
        q.resolver.resolve language.language (some language.written) false := by
      refine h.resolver.resolve (hown List.mem_cons_self) ?_ false
      intro name hname
      obtain rfl : language.written = name := Option.some.inj hname
      exact hown (List.mem_cons_of_mem _ List.mem_cons_self)
    rw [primary_of_languageOf declared, primary_of_languageOf (h.languageOf ▸ declared), hresolve,
      h.runStage]

theorem AgreeOn.typescriptStage (h : p.AgreeOn q names) (hname : "typescript" ∈ names) :
    p.typescriptStage = q.typescriptStage := by
  have hpromoted : p.isPromoted = q.isPromoted := by
    funext acc declared
    rw [isPromoted, isPromoted, h.resolver.isConfigured hname]
  funext block acc declared
  simp only [Preprocessor.typescriptStage, hpromoted, h.resolver.resolveStage hname, h.laterStage]

theorem AgreeOn.babelStage (h : p.AgreeOn q names) (hname : "babel" ∈ names) :
    p.babelStage = q.babelStage := by
  funext block acc
  simp only [Preprocessor.babelStage, h.resolver.isConfigured hname,
    h.resolver.resolveStage hname, h.laterStage]

theorem AgreeOn.globalStage (h : p.AgreeOn q names) (hname : "globalStyle" ∈ names) :
    p.globalStage = q.globalStage := by
  funext block acc
  simp only [Preprocessor.globalStage, h.resolver.resolveStage hname, h.laterStage]

theorem AgreeOn.properAlias? (h : p.AgreeOn q names) : p.properAlias? = q.properAlias? := by
  funext attributes
  simp only [Preprocessor.properAlias?, h.resolver.registry]

/-- The alias that postcss takes options from is the name that the block is written as. -/
theorem mem_ownNames_of_properAlias? {name : String}
    (h : p.properAlias? block.attributes = .ok (some name)) : name ∈ p.ownNames kind block := by
  obtain ⟨found, declared, halias⟩ := bind_eq_ok_iff.1 h
  cases found with
  | none => cases halias
  | some found =>
    have hwritten : found.written = name := by
      have halias := Except.ok.inj halias
      split at halias
      · exact Option.some.inj halias
      · cases halias
    have hlanguage : p.languageOf kind block.attributes =
        .ok ⟨found.language, found.written, some found.language⟩ := by
      rw [Preprocessor.languageOf, declared]
      rfl
    rw [ownNames, hlanguage, ← hwritten]
    exact List.mem_cons_of_mem _ List.mem_cons_self

theorem AgreeOn.postcssStage (h : p.AgreeOn q names) (hname : "postcss" ∈ names)
    (hown : p.ownNames kind block ⊆ names) :
    p.postcssStage block = q.postcssStage block := by
  funext acc
  simp only [Preprocessor.postcssStage, h.resolver.isConfigured hname, ← h.properAlias?]
  cases halias : p.properAlias? block.attributes with
  | error cause => rfl
  | ok written =>
    have hwritten : ∀ name ∈ written, name ∈ names := by
      intro name hmem
      obtain rfl : written = some name := hmem
      exact hown (mem_ownNames_of_properAlias? halias)
    simp only [Run.bind_eq, Run.ofExcept_ok, Run.done_andThen,
      h.resolver.resolve hname hwritten, h.laterStage]

/-! ## Whole pipelines -/

/-- The replacement pass changes the content only, so the block behind it has the same names. -/
theorem AgreeOn.markup (h : p.AgreeOn q names) (hname : "replace" ∈ names)
    (hown : p.ownNames .markup block ⊆ names) : p.markup block = q.markup block := by
  have hfirst (content : String) : p.primary .markup { block with content } =
      q.primary .markup { block with content } := h.primary hown
  simp only [Preprocessor.markup, replaced, ← h.resolver.settings _ hname, ← h.runStage]
  cases p.resolver.settings.get? "replace" with
  | none => simp only [Run.bind_eq, Run.done_andThen, h.primary hown]
  | some setting =>
    by_cases henabled : setting.isEnabled
    · simp only [if_pos henabled, Run.bind_eq, Run.pure_eq, Run.andThen_assoc, Run.done_andThen,
        hfirst]
    · simp only [if_neg henabled, Run.bind_eq, Run.done_andThen, h.primary hown]

theorem AgreeOn.script (h : p.AgreeOn q names) (htypescript : "typescript" ∈ names)
    (hbabel : "babel" ∈ names) (hown : p.ownNames .script block ⊆ names) :
    p.script block = q.script block := by
  simp only [Preprocessor.script, h.primary hown, h.typescriptStage htypescript,
    h.babelStage hbabel]

theorem AgreeOn.style (h : p.AgreeOn q names) (hpostcss : "postcss" ∈ names)
    (hglobal : "globalStyle" ∈ names) (hown : p.ownNames .style block ⊆ names) :
    p.style block = q.style block := by
  simp only [Preprocessor.style, h.primary hown, h.installed, h.postcssStage hpostcss hown,
    h.globalStage hglobal]

/-- Settings under names that are not read do not influence a block: preprocessors that agree on the
names that are read run it with the same calls, warnings and result. -/
theorem process_of_agree (h : p.AgreeOn q (p.namesRead kind block)) :
    p.process kind block = q.process kind block := by
  have hown : p.ownNames kind block ⊆ p.namesRead kind block := List.subset_append_left _ _
  have hstages : kind.stageNames ⊆ p.namesRead kind block := List.subset_append_right _ _
  cases kind with
  | markup => exact h.markup (hstages (by decide)) hown
  | script => exact h.script (hstages (by decide)) (hstages (by decide)) hown
  | style => exact h.style (hstages (by decide)) (hstages (by decide)) hown

/-- A script in Civet whose result announces TypeScript, and goes through typescript and babel. -/
def numbersThroughBabel (others : List (String × Setting)) : Preprocessor :=
  ofResults ([("typescript", .enabled true), ("babel", .options (.object []))] ++ others)
    [(.civet,
        { code := "let x: number", attributes := some (Table.ofList [("lang", .text "ts")]) }),
     (.typescript, .ofCode "let x"), (.babel, .ofCode "var x")]

def countingScript : Block :=
  { content := "x .= 1", attributes := Table.ofList [("lang", .text "civet")] }

/-- What is set for CoffeeScript and for style sheets makes no difference for the three calls of a
script in Civet. -/
theorem process_of_agree_three_calls :
    let others := [("coffeescript", Setting.enabled false), ("scss", .override fun _ =>
      .done (.ofCode ""))]
    (numbersThroughBabel []).AgreeOn (numbersThroughBabel others)
      ((numbersThroughBabel []).namesRead .script countingScript) ∧
    (numbersThroughBabel []).resolver.settings ≠ (numbersThroughBabel others).resolver.settings ∧
    ((Event.calls ((numbersThroughBabel []).process .script countingScript).events).map
      fun call => call.callee) =
        [.transformer .civet, .transformer .typescript, .transformer .babel] ∧
    (numbersThroughBabel []).process .script countingScript =
      (numbersThroughBabel others).process .script countingScript := by
  intro others
  have hagree : (numbersThroughBabel []).AgreeOn (numbersThroughBabel others)
      ((numbersThroughBabel []).namesRead .script countingScript) := by
    refine ⟨⟨rfl, rfl, fun name hname => ?_⟩, rfl, rfl⟩
    have hread : (numbersThroughBabel []).namesRead .script countingScript =
        ["civet", "civet", "typescript", "babel"] := rfl
    simp only [hread, List.mem_cons, List.not_mem_nil, or_false] at hname
    rcases hname with rfl | rfl | rfl | rfl <;> rfl
  refine ⟨hagree, fun hsame => ?_, rfl, process_of_agree hagree⟩
  have hcoffee := congrArg (fun settings => settings.contains "coffeescript") hsame
  exact absurd hcoffee (by decide)

end Preprocessor
end Inlay
