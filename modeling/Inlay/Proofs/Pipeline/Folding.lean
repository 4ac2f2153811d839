import Inlay.Pipeline.Blocks
import Inlay.Proofs.Pipeline.Accumulator
import Inlay.Proofs.Stage.Run

/-!
# A pipeline as a fold of its stages

A script or a style that succeeds runs its first stage and folds the results of some further stages
into it: `process_eq_ok` says so once for both pipelines, whichever stages are configured.  What
the stages gave is what the calls in the trace returned, where a stage that is turned off gives its
code back without a call (`Gave`).

`primary_eq_ok` says what the first stage can be.  The dependencies of the block stand in front of
those of the stage, except when a function override runs although the block is in the target
language already; then they are not there (`keptDependencies`).
-/

namespace Inlay

/-! ## Calls and what they gave -/

/-- The result of a call that did not fail. -/
def Call.output? (call : Call) : Option Output := call.result.outcome.toOption

theorem Call.output?_eq_some {call : Call} {stage : Output} (h : call.result.outcome = .ok stage) :
    call.output? = some stage := by
  rw [output?, h]
  rfl

/-- Stages that gave their results one after the other, and the calls that were made for them. -/
inductive Gave : List Call → List Output → Prop
  | nil : Gave [] []
  | called {call : Call} {stage : Output} {calls : List Call} {stages : List Output}
      (h : call.output? = some stage) (rest : Gave calls stages) :
      Gave (call :: calls) (stage :: stages)
  | passed {calls : List Call} {stages : List Output} (code : String) (rest : Gave calls stages) :
      Gave calls (.ofCode code :: stages)

theorem Gave.append {calls calls' : List Call} {stages stages' : List Output}
    (h : Gave calls stages) (h' : Gave calls' stages') : Gave (calls ++ calls') (stages ++ stages')
    := by
  induction h with
  | nil => exact h'
  | called hcall _ ih => exact .called hcall ih
  | passed code _ ih => exact .passed code ih

theorem gave_call {callee : Callee} {t : Transformer} {input : StageInput} {events : List Event}
    {stage : Output} (h : Run.call callee t input = ⟨events, .ok stage⟩) :
    Gave (Event.calls events) [stage] := by
  simp only [Run.call, Run.mk.injEq] at h
  obtain ⟨rfl, houtcome⟩ := h
  exact .called (Call.output?_eq_some houtcome) .nil

/-- Whether a function takes the place of the transformer. -/
def ResolvedOptions.isOverride : ResolvedOptions → Bool
  | .override _ _ => true
  | _ => false

namespace Preprocessor

variable {p : Preprocessor} {kind : BlockKind} {block : Block}

/-- A stage calls a transformer or a function, or passes its content on. -/
theorem gave_runStage {name : String} {options : ResolvedOptions} {input : StageInput}
    {events : List Event} {stage : Output}
    (h : p.runStage name options input = ⟨events, .ok stage⟩) :
    Gave (Event.calls events) [stage] := by
  cases options with
  | disabled =>
    obtain ⟨rfl, rfl⟩ := Run.done_eq_ok_iff.1 h
    exact .passed input.content .nil
  | override setting function => exact gave_call h
  | options value =>
    simp only [runStage] at h
    cases hfind : p.workshop.find? name with
    | none => simp [hfind, Run.fail] at h
    | some found =>
      rw [hfind] at h
      exact gave_call h

theorem runStage_of_find? {stage : String} {slot : TransformerKind} {t : Transformer}
    (h : p.workshop.find? stage = some (slot, t)) (fields : Json.Fields) (input : StageInput) :
    p.runStage stage (.options (.object fields)) input =
      Run.call (.transformer slot) t { input with options := some (.object fields) } := by
  simp only [runStage, h]
  rfl

/-! ## The first stage -/

/-- The attribute `lang` goes before all others. -/
theorem languageOf_of_lang {attributes : Attributes} {name : String}
    (h : attributes.get? "lang" = some (.text name)) (kind : BlockKind) :
    p.languageOf kind attributes =
      .ok ⟨p.resolver.registry.canonical name, name,
        some (p.resolver.registry.canonical name)⟩ := by
  have hwritten : Language.writtenName attributes = .ok (some name) := by
    simp only [Language.writtenName, Attributes.textOf, h, ok_bind, pure_eq_ok]
  simp only [languageOf, LanguageRegistry.declared, hwritten, ok_bind, pure_eq_ok, Option.map_some]

/-- Whether the first stage runs a function override although the block is in the target language
already. -/
def overridesTarget (p : Preprocessor) (kind : BlockKind) (block : Block) : Bool :=
  match p.languageOf kind block.attributes with
  | .error _ => false
  | .ok language =>
    language.language = kind.targetLanguage && language.written ≠ language.language &&
      (p.resolver.resolve language.language (some language.written) false).isOverride

/-- The dependencies of the block that the first stage keeps. -/
def keptDependencies (p : Preprocessor) (kind : BlockKind) (block : Block) : List String :=
  if p.overridesTarget kind block then [] else block.dependencies

theorem primary_of_languageOf {language : BlockLanguage}
    (h : p.languageOf kind block.attributes = .ok language) :
    p.primary kind block =
      let options := p.resolver.resolve language.language (some language.written) false
      let prepared := Prepared.of (some options) block.content
      if language.language = kind.targetLanguage then
        (passTarget language options block prepared).andThen fun output =>
          .done ⟨output, language.declared, prepared.indentation⟩
      else
        (p.runStage language.language options (primaryInput block prepared)).andThen fun output =>
          .done ⟨{ output with dependencies := block.dependencies ++ output.dependencies },
            language.declared, prepared.indentation⟩ := by
  simp only [primary, h, Run.ofExcept_ok, Run.bind_eq, Run.done_andThen, Run.pure_eq]

/-- A block in the target language passes through with its dependencies, or a function override
gives the result and the dependencies of the block are dropped. -/
theorem passTarget_eq_ok {language : BlockLanguage} {options : ResolvedOptions}
    {prepared : Prepared} {events : List Event} {output : Output}
    (h : passTarget language options block prepared = ⟨events, .ok output⟩) :
    ∃ stage, Gave (Event.calls events) [stage] ∧
      output =
        { stage with
          dependencies :=
            (if language.written ≠ language.language ∧ options.isOverride then []
              else block.dependencies) ++ stage.dependencies } := by
  have hpassed : ∀ {events : List Event} {output : Output},
      (Run.done { code := prepared.content, dependencies := block.dependencies } : Traced Output) =
        ⟨events, .ok output⟩ →
      Gave (Event.calls events) [.ofCode prepared.content] ∧
        output = { code := prepared.content, dependencies := block.dependencies } := by
    intro events output h
    obtain ⟨rfl, rfl⟩ := Run.done_eq_ok_iff.1 h
    exact ⟨.passed prepared.content .nil, rfl⟩
  cases options with
  | override setting function =>
    by_cases hwritten : language.written ≠ language.language
    · simp only [passTarget, if_pos hwritten] at h
      refine ⟨output, gave_call h, ?_⟩
      simp [hwritten, ResolvedOptions.isOverride]
    · simp only [passTarget, if_neg hwritten] at h
      obtain ⟨hgave, rfl⟩ := hpassed h
      exact ⟨_, hgave, by simp [hwritten, Output.ofCode]⟩
  | disabled =>
    obtain ⟨hgave, rfl⟩ := hpassed h
    exact ⟨_, hgave, by simp [ResolvedOptions.isOverride, Output.ofCode]⟩
  | options value =>
    obtain ⟨hgave, rfl⟩ := hpassed h
    exact ⟨_, hgave, by simp [ResolvedOptions.isOverride, Output.ofCode]⟩

/-- The first stage gives what a call returned or what it passed on, behind the dependencies of the
block that are kept. -/
theorem primary_eq_ok {events : List Event} {first : Primary}
    (h : p.primary kind block = ⟨events, .ok first⟩) :
    ∃ stage, Gave (Event.calls events) [stage] ∧
      first.output =
        { stage with dependencies := p.keptDependencies kind block ++ stage.dependencies } := by
  cases hlanguage : p.languageOf kind block.attributes with
  | error cause => simp [primary, hlanguage, Run.ofExcept, Run.andThen] at h
  | ok language =>
    rw [primary_of_languageOf hlanguage] at h
    by_cases htarget : language.language = kind.targetLanguage
    · simp only [if_pos htarget] at h
      obtain ⟨before, output, _, hpass, hdone, rfl⟩ := Run.andThen_eq_ok_iff.1 h
      obtain ⟨rfl, rfl⟩ := Run.done_eq_ok_iff.1 hdone
      obtain ⟨stage, hgave, houtput⟩ := passTarget_eq_ok hpass
      refine ⟨stage, by rwa [List.append_nil], ?_⟩
      simpa [keptDependencies, overridesTarget, hlanguage, htarget] using houtput
    · simp only [if_neg htarget] at h
      obtain ⟨before, output, _, hstage, hdone, rfl⟩ := Run.andThen_eq_ok_iff.1 h
      obtain ⟨rfl, rfl⟩ := Run.done_eq_ok_iff.1 hdone
      refine ⟨output, by rw [List.append_nil]; exact gave_runStage hstage, ?_⟩
      simp [keptDependencies, overridesTarget, hlanguage, htarget]

/-! ## Later stages -/

/-- Whenever a run succeeds, it has folded the results of some stages in. -/
def Folds (acc : Accumulator) (run : Traced Accumulator) : Prop :=
  ∀ events next, run = ⟨events, .ok next⟩ →
    ∃ stages, Gave (Event.calls events) stages ∧ acc.absorbAll stages = .ok next

theorem folds_done (acc : Accumulator) : Folds acc (.done acc) := by
  intro events next h
  obtain ⟨rfl, rfl⟩ := Run.done_eq_ok_iff.1 h
  exact ⟨[], .nil, rfl⟩

theorem folds_laterStage (name : String) (options : ResolvedOptions) (acc : Accumulator)
    (attributes : Attributes) : Folds acc (p.laterStage name options block acc attributes) := by
  intro events next h
  obtain ⟨before, stage, behind, hstage, habsorb, rfl⟩ := Run.andThen_eq_ok_iff.1 h
  cases hnext : acc.absorb stage with
  | error cause => simp [absorb, hnext, Run.fail] at habsorb
  | ok result =>
    simp only [absorb, hnext] at habsorb
    obtain ⟨rfl, rfl⟩ := Run.done_eq_ok_iff.1 habsorb
    refine ⟨[stage], by rw [List.append_nil]; exact gave_runStage hstage, ?_⟩
    rw [Accumulator.absorbAll_singleton, hnext]

theorem Folds.andThen {acc : Accumulator} {run : Traced Accumulator}
    {next : Accumulator → Traced Accumulator} (h : Folds acc run)
    (hnext : ∀ mid, Folds mid (next mid)) : Folds acc (run.andThen next) := by
  intro events result hrun
  obtain ⟨before, mid, behind, hfirst, hsecond, rfl⟩ := Run.andThen_eq_ok_iff.1 hrun
  obtain ⟨stages, hgave, hfold⟩ := h before mid hfirst
  obtain ⟨stages', hgave', hfold'⟩ := hnext mid behind result hsecond
  refine ⟨stages ++ stages', ?_, ?_⟩
  · rw [Event.calls_append]
    exact hgave.append hgave'
  · exact Accumulator.absorbAll_append_eq_ok_iff.2 ⟨mid, hfold, hfold'⟩

/-- What comes before a fold and calls nothing does not change what is folded in. -/
theorem Folds.of_quiet {α : Type} {acc : Accumulator} {first : Traced α}
    {next : α → Traced Accumulator} (hquiet : Event.calls first.events = [])
    (h : ∀ value, Folds acc (next value)) : Folds acc (first.andThen next) := by
  intro events result hrun
  obtain ⟨before, value, behind, rfl, hnext, rfl⟩ := Run.andThen_eq_ok_iff.1 hrun
  rw [Event.calls_append, hquiet, List.nil_append]
  exact h value behind result hnext

theorem folds_typescriptStage (acc : Accumulator) (declared : Option String) :
    Folds acc (p.typescriptStage block acc declared) := by
  unfold typescriptStage
  split
  · exact folds_laterStage _ _ _ _
  · exact folds_done acc

theorem folds_babelStage (acc : Accumulator) : Folds acc (p.babelStage block acc) := by
  unfold babelStage
  split
  · exact folds_laterStage _ _ _ _
  · exact folds_done acc

theorem folds_postcssStage (acc : Accumulator) : Folds acc (p.postcssStage block acc) := by
  unfold postcssStage
  split
  · exact Folds.of_quiet rfl fun written => folds_laterStage _ _ _ _
  · exact folds_done acc

theorem folds_globalStage (acc : Accumulator) : Folds acc (p.globalStage block acc) :=
  folds_laterStage _ _ _ _

theorem calls_warnGlobal (block : Block) : Event.calls (warnGlobal block).events = [] := by
  unfold warnGlobal
  cases globalWarning? block.attributes <;> rfl

/-! ## Whole pipelines -/

/-- What a script does behind its first stage. -/
def scriptRest (p : Preprocessor) (block : Block) (first : Primary) : Traced Accumulator :=
  (p.typescriptStage block (.start first.output first.indentation) first.declared).andThen
    fun acc => p.babelStage block acc

/-- What a style does behind its first stage. -/
def styleRest (p : Preprocessor) (block : Block) (first : Primary) : Traced Accumulator :=
  let acc := Accumulator.start first.output first.indentation
  if p.installed "postcss" then
    (p.postcssStage block acc).andThen fun acc => p.globalStage block acc
  else (warnGlobal block).andThen fun _ => .done acc

theorem script_eq : p.script block = (p.primary .script block).andThen fun first =>
    (p.scriptRest block first).andThen fun acc => .done acc.finish := by
  simp only [script, scriptRest, Run.bind_eq, Run.pure_eq, Run.andThen_assoc]

theorem style_eq : p.style block = (p.primary .style block).andThen fun first =>
    (p.styleRest block first).andThen fun acc => .done acc.finish := by
  simp only [style, styleRest, Run.bind_eq, Run.pure_eq]
  congr 1
  funext first
  split
  · rw [Run.andThen_assoc]
  · rw [Run.andThen_assoc]
    rfl

theorem folds_scriptRest (first : Primary) :
    Folds (.start first.output first.indentation) (p.scriptRest block first) :=
  (folds_typescriptStage _ _).andThen fun acc => folds_babelStage acc

theorem folds_styleRest (first : Primary) :
    Folds (.start first.output first.indentation) (p.styleRest block first) := by
  unfold styleRest
  split
  · exact (folds_postcssStage _).andThen fun acc => folds_globalStage acc
  · exact Folds.of_quiet (calls_warnGlobal block) fun _ => folds_done _

/-- A result and the events that led to it come from a first stage and from stages whose results
were folded into it. -/
def Staged (primary : Traced Primary) (events : List Event) (out : Output) : Prop :=
  ∃ before first behind stages acc,
    primary = ⟨before, .ok first⟩ ∧ events = before ++ behind ∧
    Gave (Event.calls behind) stages ∧
    (Accumulator.start first.output first.indentation).absorbAll stages = .ok acc ∧
    out = acc.finish

theorem staged_of_folds {primary : Traced Primary} {later : Primary → Traced Accumulator}
    {events : List Event} {out : Output}
    (hfolds : ∀ first, Folds (.start first.output first.indentation) (later first))
    (h : (primary.andThen fun first => (later first).andThen fun acc => .done acc.finish) =
      ⟨events, .ok out⟩) : Staged primary events out := by
  obtain ⟨before, first, _, hprimary, hrest, rfl⟩ := Run.andThen_eq_ok_iff.1 h
  obtain ⟨behind, acc, _, hlater, hdone, rfl⟩ := Run.andThen_eq_ok_iff.1 hrest
  obtain ⟨rfl, rfl⟩ := Run.done_eq_ok_iff.1 hdone
  obtain ⟨stages, hgave, hfold⟩ := hfolds first behind acc hlater
  exact ⟨before, first, behind, stages, acc, hprimary, by rw [List.append_nil], hgave, hfold, rfl⟩

/-- A script or a style that succeeds has folded the results of its later stages into that of its
first one. -/
theorem process_eq_ok {events : List Event} {out : Output} (hkind : kind ≠ .markup)
    (h : p.process kind block = ⟨events, .ok out⟩) : Staged (p.primary kind block) events out := by
  cases kind with
  | markup => exact absurd rfl hkind
  | script => exact staged_of_folds folds_scriptRest (script_eq.symm.trans h)
  | style => exact staged_of_folds folds_styleRest (style_eq.symm.trans h)

/-- A preprocessor for the built-in languages whose transformers each give one result, whatever
they are given. -/
def ofResults (settings : List (String × Setting)) (results : List (TransformerKind × Output)) :
    Preprocessor where
  resolver := { registry := .builtin, settings := Table.ofList settings, sourceMap := false }
  workshop := results.foldl (fun w entry => w.register entry.1 fun _ => .done entry.2) .empty
  installed := fun _ => false

end Preprocessor
end Inlay
