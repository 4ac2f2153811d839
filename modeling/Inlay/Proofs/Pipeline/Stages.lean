import Inlay.Proofs.Pipeline.Folding
import Inlay.Proofs.Stage.Course

/-!
# What a stage can do

A stage makes at most one call.  `RunsStage` lists all that a single stage can do: pass its content
on, find nobody to call, or make a call and give what came of it.  From it follow the same lists for
the first stage of a block (`FirstStage`) and for a stage behind it, whose result is folded into
what was accumulated (`LaterStage`).

A function that takes the place of a transformer sees neither options nor the file, wherever it is
called (`Call.Serves.hidden`).  The first stage is given the prepared content, and a stage behind it
what was accumulated (`FirstStage.handsOn`, `LaterStage.handsOn`).
-/

namespace Inlay

/-! ## Calls -/

/-- A call that a stage makes with its options: of the function that takes the place of its
transformer, or of the transformer that is registered under its name. -/
inductive Call.Serves (p : Preprocessor) (stage : String) (options : ResolvedOptions)
    (call : Call) : Prop
  | function {setting : String} {function : Transformer}
      (resolved : options = .override setting function) (callee : call.callee = .override setting)
      (result : call.result = function call.input) (options : call.input.options = none)
      (markup : call.input.markup = none)
  | registered {value : Json} {kind : TransformerKind} {t : Transformer}
      (resolved : options = .options value) (found : p.workshop.find? stage = some (kind, t))
      (callee : call.callee = .transformer kind) (result : call.result = t call.input)
      (options : call.input.options = options.value?)

/-- A call that is given some content, map and attributes. -/
structure Call.Sees (call : Call) (content : String) (map : Option SourceMap)
    (attributes : Attributes) : Prop where
  content : call.input.content = content
  map : call.input.map = map
  attributes : call.input.attributes = attributes

theorem Call.Serves.ne_disabled {p : Preprocessor} {stage : String} {options : ResolvedOptions}
    {call : Call} (h : call.Serves p stage options) : options ≠ .disabled := by
  cases h with
  | function resolved => simp [resolved]
  | registered resolved => simp [resolved]

theorem Call.Serves.hidden {p : Preprocessor} {stage : String} {options : ResolvedOptions}
    {call : Call} (h : call.Serves p stage options) {setting : String}
    (hcallee : call.callee = .override setting) :
    call.input.options = none ∧ call.input.markup = none := by
  cases h with
  | function _ _ _ hoptions hmarkup => exact ⟨hoptions, hmarkup⟩
  | registered _ _ htransformer => rw [htransformer] at hcallee; cases hcallee

/-- The name of a slot, or of the setting that a function was put under. -/
def Callee.name : Callee → String
  | .transformer kind => kind.name
  | .override setting => setting

theorem Workshop.name_of_find? {w : Workshop} {name : String} {kind : TransformerKind}
    {t : Transformer} (h : w.find? name = some (kind, t)) : kind.name = name := by
  obtain ⟨found, hfound, hrest⟩ := Option.bind_eq_some_iff.1 h
  obtain ⟨_, -, heq⟩ := Option.bind_eq_some_iff.1 hrest
  cases heq
  exact TransformerKind.name_of_ofName? hfound

/-- A stage calls someone of its own name, if no function of another name takes over. -/
theorem Call.Serves.name_callee {p : Preprocessor} {stage : String} {options : ResolvedOptions}
    {call : Call} (h : call.Serves p stage options)
    (hown : ∀ setting function, options = .override setting function → setting = stage) :
    call.callee.name = stage := by
  cases h with
  | function resolved callee =>
    rw [callee]
    exact hown _ _ resolved
  | registered _ found callee =>
    rw [callee]
    exact Workshop.name_of_find? found

/-- What is accumulated after a stage that may have failed; a map that cannot be chained is a
failure, too. -/
def Accumulator.after (acc : Accumulator) (stage : Except Failure Output) :
    Except Failure Accumulator :=
  stage.bind fun output => (acc.absorb output).mapError Failure.sourceMap

theorem Accumulator.after_ofCode (acc : Accumulator) :
    acc.after (.ok (.ofCode acc.code)) = .ok acc := by
  show (acc.absorb (.ofCode acc.code)).mapError Failure.sourceMap = .ok acc
  rw [absorb_ofCode]
  rfl

namespace Preprocessor

variable {p : Preprocessor} {kind : BlockKind} {block : Block}

/-! ## One stage -/

/-- What a stage with some options does with what it is given: the calls it makes and what comes of
it. -/
inductive RunsStage (p : Preprocessor) (stage : String) (options : ResolvedOptions)
    (input : StageInput) : Course Output
  | disabled (resolved : options = .disabled) :
      RunsStage p stage options input [] (.ok (.ofCode input.content))
  | missing {value : Json} (resolved : options = .options value)
      (unregistered : p.workshop.find? stage = none) :
      RunsStage p stage options input [] (.error (.missingTransformer stage))
  | called {call : Call} (serves : call.Serves p stage options)
      (sees : call.Sees input.content input.map input.attributes) :
      RunsStage p stage options input [call] call.result.outcome

theorem runsStage (p : Preprocessor) (stage : String) (options : ResolvedOptions)
    (input : StageInput) :
    (p.runStage stage options input).Takes (p.RunsStage stage options input) := by
  cases options with
  | disabled => exact .disabled rfl
  | override setting function => exact .called (.function rfl rfl rfl rfl rfl) ⟨rfl, rfl, rfl⟩
  | options value =>
    cases hfind : p.workshop.find? stage with
    | none =>
      simp only [runStage, hfind]
      exact .missing rfl hfind
    | some found =>
      simp only [runStage, hfind]
      exact .called (.registered rfl hfind rfl rfl rfl) ⟨rfl, rfl, rfl⟩

/-! ## The first stage -/

/-- The options of the first stage of a block in some language. -/
def firstOptions (p : Preprocessor) (language : BlockLanguage) : ResolvedOptions :=
  p.resolver.resolve language.language (some language.written) false

/-- The content of a block as its first stage sees it. -/
def prepared (p : Preprocessor) (language : BlockLanguage) (block : Block) : Prepared :=
  Prepared.of (some (p.firstOptions language)) block.content

/-- A block that is in the target language already, and whose author wrote no alias that a function
takes over. -/
def IsFinished (p : Preprocessor) (kind : BlockKind) (language : BlockLanguage) : Prop :=
  language.language = kind.targetLanguage ∧
    ((p.firstOptions language).isOverride = true → language.written = language.language)

/-- What the first stage of a block does. -/
inductive FirstStage (p : Preprocessor) (kind : BlockKind) (block : Block) : Course Primary
  | undeclared {cause : Failure} (declared : p.languageOf kind block.attributes = .error cause) :
      FirstStage p kind block [] (.error cause)
  | passed {language : BlockLanguage} (declared : p.languageOf kind block.attributes = .ok language)
      (idle : p.IsFinished kind language ∨ p.firstOptions language = .disabled) :
      FirstStage p kind block [] (.ok
        ⟨{ code := (p.prepared language block).content, dependencies := block.dependencies },
          language.declared, (p.prepared language block).indentation⟩)
  | missing {language : BlockLanguage} {value : Json}
      (declared : p.languageOf kind block.attributes = .ok language)
      (busy : ¬ p.IsFinished kind language) (resolved : p.firstOptions language = .options value)
      (unregistered : p.workshop.find? language.language = none) :
      FirstStage p kind block [] (.error (.missingTransformer language.language))
  | called {language : BlockLanguage} {call : Call}
      (declared : p.languageOf kind block.attributes = .ok language)
      (busy : ¬ p.IsFinished kind language)
      (serves : call.Serves p language.language (p.firstOptions language))
      (sees : call.Sees (p.prepared language block).content none block.attributes) :
      FirstStage p kind block [call] (call.result.outcome.map fun output =>
        ⟨{ output with dependencies := p.keptDependencies kind block ++ output.dependencies },
          language.declared, (p.prepared language block).indentation⟩)

/-- A first stage with the dependencies of the block in front. -/
theorem FirstStage.called_eq {language : BlockLanguage} {call : Call} {dependencies : List String}
    (declared : p.languageOf kind block.attributes = .ok language)
    (busy : ¬ p.IsFinished kind language)
    (serves : call.Serves p language.language (p.firstOptions language))
    (sees : call.Sees (p.prepared language block).content none block.attributes)
    (kept : p.keptDependencies kind block = dependencies) :
    p.FirstStage kind block [call] (call.result.outcome.map fun output =>
      ⟨{ output with dependencies := dependencies ++ output.dependencies },
        language.declared, (p.prepared language block).indentation⟩) := by
  subst kept
  exact .called declared busy serves sees

theorem firstStage_of_target {language : BlockLanguage}
    (declared : p.languageOf kind block.attributes = .ok language)
    (target : language.language = kind.targetLanguage) :
    (p.primary kind block).Takes (p.FirstStage kind block) := by
  have hprimary : p.primary kind block =
      (passTarget language (p.firstOptions language) block (p.prepared language block)).andThen
        fun output =>
          .done ⟨output, language.declared, (p.prepared language block).indentation⟩ := by
    rw [primary_of_languageOf declared]
    exact if_pos target
  have hpassed : p.IsFinished kind language →
      p.FirstStage kind block [] (.ok
        ⟨{ code := (p.prepared language block).content, dependencies := block.dependencies },
          language.declared, (p.prepared language block).indentation⟩) :=
    fun finished => .passed declared (.inl finished)
  rw [hprimary, Run.Takes, Run.events_andThen_done, Run.outcome_andThen_done]
  -- Only a function under another name makes the first stage of such a block do anything.
  cases hoptions : p.firstOptions language with
  | disabled => exact hpassed ⟨target, by simp [hoptions, ResolvedOptions.isOverride]⟩
  | options value => exact hpassed ⟨target, by simp [hoptions, ResolvedOptions.isOverride]⟩
  | override setting function =>
    by_cases hwritten : language.written = language.language
    · simp only [passTarget, if_neg (not_not_intro hwritten)]
      exact hpassed ⟨target, fun _ => hwritten⟩
    · have hkept : p.keptDependencies kind block = [] := by
        refine if_pos ?_
        rw [overridesTarget, declared]
        show (_ && _ && (p.firstOptions language).isOverride) = true
        simp [target, target ▸ hwritten, hoptions, ResolvedOptions.isOverride]
      have hbusy : ¬ p.IsFinished kind language := by
        intro finished
        exact hwritten (finished.2 (by rw [hoptions]; rfl))
      simp only [passTarget, if_pos hwritten]
      exact FirstStage.called_eq declared hbusy (.function hoptions rfl rfl rfl rfl)
        ⟨rfl, rfl, rfl⟩ hkept

theorem firstStage_of_ne_target {language : BlockLanguage}
    (declared : p.languageOf kind block.attributes = .ok language)
    (target : language.language ≠ kind.targetLanguage) :
    (p.primary kind block).Takes (p.FirstStage kind block) := by
  have hprimary : p.primary kind block =
      (p.runStage language.language (p.firstOptions language)
        (primaryInput block (p.prepared language block))).andThen fun output =>
          .done ⟨{ output with dependencies := block.dependencies ++ output.dependencies },
            language.declared, (p.prepared language block).indentation⟩ := by
    rw [primary_of_languageOf declared]
    exact if_neg target
  have hbusy : ¬ p.IsFinished kind language := fun finished => target finished.1
  have hkept : p.keptDependencies kind block = block.dependencies := by
    refine if_neg ?_
    simp [overridesTarget, declared, target]
  rw [hprimary]
  refine (p.runsStage _ _ _).map fun calls outcome hstage => ?_
  cases hstage with
  | disabled resolved =>
    -- A disabled stage passes on what a finished block passes on, with the same dependencies.
    simpa [Except.map, Output.ofCode, primaryInput] using
      (FirstStage.passed declared (.inr resolved) : p.FirstStage kind block _ _)
  | missing resolved unregistered => exact .missing declared hbusy resolved unregistered
  | called serves sees => exact FirstStage.called_eq declared hbusy serves sees hkept

theorem firstStage (p : Preprocessor) (kind : BlockKind) (block : Block) :
    (p.primary kind block).Takes (p.FirstStage kind block) := by
  cases declared : p.languageOf kind block.attributes with
  | error cause =>
    simp only [Run.Takes, primary, declared, Run.bind_eq, Run.ofExcept, Run.andThen]
    exact .undeclared declared
  | ok language =>
    by_cases target : language.language = kind.targetLanguage
    · exact firstStage_of_target declared target
    · exact firstStage_of_ne_target declared target

section FirstStage

variable {calls : List Call} {outcome : Except Failure Primary}

theorem FirstStage.length_le_one
    (h : p.FirstStage kind block calls outcome) : calls.length ≤ 1 := by
  cases h <;> simp

theorem FirstStage.serves
    (h : p.FirstStage kind block calls outcome) :
    ∀ call ∈ calls, ∃ stage options, call.Serves p stage options := by
  cases h with
  | undeclared | passed | missing => simp
  | called _ _ serves => simpa using ⟨_, _, serves⟩

/-- The first stage is given the prepared content, and no map. -/
theorem FirstStage.handsOn {language : BlockLanguage}
    (declared : p.languageOf kind block.attributes = .ok language)
    (h : p.FirstStage kind block calls outcome) :
    HandsOn (p.prepared language block).content none calls
      (outcome.map fun first => (first.output.code, first.output.map)) := by
  cases h with
  | undeclared rejected => simp [declared] at rejected
  | passed declared' =>
    obtain rfl := Except.ok.inj (declared.symm.trans declared')
    exact .reached _ none
  | missing _ _ _ _ => exact .missing _
  | @called _ call declared' _ _ sees =>
    obtain rfl := Except.ok.inj (declared.symm.trans declared')
    cases hgave : call.result.outcome with
    | error cause => exact .failed sees.content sees.map hgave
    | ok output =>
      have hchain : SourceMap.chain none (output.map.map .map) 0 = .ok output.map := by
        cases output.map <;> rfl
      exact .called sees.content sees.map hgave hchain (.reached output.code output.map)

end FirstStage

/-! ## A stage behind the first one -/

/-- What a stage that runs if it is wanted does with what was accumulated before it. -/
inductive LaterStage (p : Preprocessor) (stage : String) (wanted : Prop) (options : ResolvedOptions)
    (attributes : Attributes) (acc : Accumulator) : Course Accumulator
  | leftOut (unwanted : ¬ wanted) : LaterStage p stage wanted options attributes acc [] (.ok acc)
  | missing {value : Json} (asked : wanted) (resolved : options = .options value)
      (unregistered : p.workshop.find? stage = none) :
      LaterStage p stage wanted options attributes acc [] (.error (.missingTransformer stage))
  | called {call : Call} (asked : wanted) (serves : call.Serves p stage options)
      (sees : call.Sees acc.code acc.map attributes) :
      LaterStage p stage wanted options attributes acc [call] (acc.after call.result.outcome)

theorem laterStage_eq (stage : String) (options : ResolvedOptions) (acc : Accumulator)
    (attributes : Attributes) :
    p.laterStage stage options block acc attributes =
      (p.runStage stage options (laterInput block acc attributes)).andThen fun output =>
        .ofExcept ((acc.absorb output).mapError Failure.sourceMap) := by
  simp only [laterStage, Run.bind_eq]
  congr 1
  funext output
  rw [absorb]
  cases acc.absorb output <;> rfl

/-- A stage behind the first one is left out where its options turn it off. -/
theorem laterStage_runs (p : Preprocessor) (block : Block) (stage : String)
    (options : ResolvedOptions) (acc : Accumulator) (attributes : Attributes) :
    (p.laterStage stage options block acc attributes).Takes
      (p.LaterStage stage (options ≠ .disabled) options attributes acc) := by
  rw [laterStage_eq]
  refine (p.runsStage _ _ _).thenExcept fun calls outcome hstage => ?_
  cases hstage with
  | disabled resolved =>
    show p.LaterStage stage _ options attributes acc [] (acc.after (.ok (.ofCode acc.code)))
    rw [Accumulator.after_ofCode]
    exact .leftOut (not_not_intro resolved)
  | missing resolved unregistered => exact .missing (by simp [resolved]) resolved unregistered
  | called serves sees => exact .called serves.ne_disabled serves sees

section LaterStage

variable {stage : String} {wanted : Prop} {options : ResolvedOptions} {attributes : Attributes}
  {acc : Accumulator} {calls : List Call} {outcome : Except Failure Accumulator}

theorem LaterStage.congr {wanted' : Prop} (hwanted : wanted ↔ wanted')
    (h : p.LaterStage stage wanted options attributes acc calls outcome) :
    p.LaterStage stage wanted' options attributes acc calls outcome := by
  rwa [propext hwanted] at h

theorem LaterStage.length_le_one
    (h : p.LaterStage stage wanted options attributes acc calls outcome) : calls.length ≤ 1 := by
  cases h <;> simp

theorem LaterStage.serves (h : p.LaterStage stage wanted options attributes acc calls outcome) :
    ∀ call ∈ calls, ∃ stage options, call.Serves p stage options := by
  cases h with
  | leftOut | missing => simp
  | called _ serves => simpa using ⟨_, _, serves⟩

theorem LaterStage.name_callee
    (h : p.LaterStage stage wanted options attributes acc calls outcome)
    (hown : ∀ setting function, options = .override setting function → setting = stage) :
    ∀ call ∈ calls, call.callee.name = stage := by
  cases h with
  | leftOut | missing => simp
  | called _ serves => simpa using serves.name_callee hown

/-- A stage behind the first one is given what was accumulated. -/
theorem LaterStage.handsOn (h : p.LaterStage stage wanted options attributes acc calls outcome) :
    HandsOn acc.code acc.map calls (outcome.map fun acc => (acc.code, acc.map)) := by
  cases h with
  | leftOut _ => exact .reached _ _
  | missing _ _ _ => exact .missing _
  | @called call _ _ sees =>
    cases hgave : call.result.outcome with
    | error cause => exact .failed sees.content sees.map hgave
    | ok output =>
      cases habsorb : acc.absorb output with
      | error cause =>
        simp only [Accumulator.after, Except.bind, habsorb]
        exact .unchained sees.content sees.map hgave (Accumulator.absorb_eq_error_iff.1 habsorb)
      | ok next =>
        simp only [Accumulator.after, Except.bind, habsorb]
        obtain ⟨map, hchain, rfl⟩ := Accumulator.absorb_eq_ok_iff.1 habsorb
        exact .called sees.content sees.map hgave hchain (.reached output.code map)

end LaterStage

end Preprocessor
end Inlay
