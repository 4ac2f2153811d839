import Inlay.Proofs.Options.Resolution
import Inlay.Proofs.Pipeline.Stages

/-!
# The order of the stages of a script

A script runs its first stage, then typescript, then babel.  `ScriptCourse` is the list of all that
can happen on the way: which stage is asked for and what it is given, who is called, and where a
failure ends the run.  `script_runs_stages_in_order` says that every script takes it.
-/

namespace Inlay

namespace Preprocessor

variable {p : Preprocessor} {block : Block}

/-! ## The stages of a script -/

/-- A script goes through typescript if its first stage announces TypeScript, its author did not
declare it, and the host asks for the stage. -/
def AsksForTypescript (p : Preprocessor) (first : Primary) : Prop :=
  first.output.announcedLanguage = some "ts" ∧ first.declared ≠ some "typescript" ∧
    p.resolver.Enables "typescript"

/-- What the typescript stage does behind the first one.  It is given the attributes that the first
stage announced, which are there whenever it is asked for. -/
def TypescriptStage (p : Preprocessor) (first : Primary) : Course Accumulator :=
  p.LaterStage "typescript" (p.AsksForTypescript first) (p.resolver.resolveStage "typescript")
    (first.output.attributes.getD .empty) (.start first.output first.indentation)

/-- What the babel stage does with what was accumulated.  It is given the attributes that were
announced last, or else those of the block. -/
def BabelStage (p : Preprocessor) (block : Block) (acc : Accumulator) : Course Accumulator :=
  p.LaterStage "babel" (p.resolver.Enables "babel") (p.resolver.resolveStage "babel")
    (acc.attributes.getD block.attributes) acc

/-- What the pipeline of a script does. -/
def ScriptCourse (p : Preprocessor) (block : Block) : Course Output :=
  (p.FirstStage .script block).AndThen fun first =>
    ((p.TypescriptStage first).AndThen fun acc => p.BabelStage block acc).map Accumulator.finish

theorem isPromoted_iff {first : Primary} {indentation : Nat} :
    p.isPromoted (.start first.output indentation) first.declared = true ↔
      p.AsksForTypescript first := by
  rw [isPromoted, AsksForTypescript, ← Resolver.isConfigured_iff]
  simp only [Bool.and_eq_true, decide_eq_true_eq, and_assoc]
  exact Iff.rfl

/-- A stage that is asked for runs unless it is turned off, which it is not. -/
theorem laterStage_of_enables {stage : String} {wanted : Prop} {acc : Accumulator}
    {attributes : Attributes} (hwanted : wanted) (henables : p.resolver.Enables stage) :
    (p.laterStage stage (p.resolver.resolveStage stage) block acc attributes).Takes
      (p.LaterStage stage wanted (p.resolver.resolveStage stage) attributes acc) :=
  (p.laterStage_runs block stage _ acc attributes).congr
    (iff_of_true (Resolver.resolveStage_ne_disabled henables) hwanted)

theorem typescriptStage_takes (first : Primary) :
    (p.typescriptStage block (.start first.output first.indentation) first.declared).Takes
      (p.TypescriptStage first) := by
  by_cases hasks : p.AsksForTypescript first
  · rw [typescriptStage, if_pos (isPromoted_iff.2 hasks)]
    exact laterStage_of_enables hasks hasks.2.2
  · rw [typescriptStage, if_neg (mt isPromoted_iff.1 hasks)]
    exact .leftOut hasks

theorem babelStage_takes (acc : Accumulator) :
    (p.babelStage block acc).Takes (p.BabelStage block acc) := by
  by_cases henables : p.resolver.Enables "babel"
  · rw [babelStage, if_pos (Resolver.isConfigured_iff.2 henables)]
    exact laterStage_of_enables henables henables
  · rw [babelStage, if_neg (mt Resolver.isConfigured_iff.1 henables)]
    exact .leftOut henables

theorem script_takes : (p.script block).Takes (p.ScriptCourse block) := by
  rw [script_eq]
  refine (p.firstStage .script block).andThen fun first => ?_
  exact ((typescriptStage_takes first).andThen babelStage_takes).map fun _ result h =>
    ⟨result, h, rfl⟩

/-! ## Whole scripts -/

variable {calls : List Call} {outcome : Except Failure Output}

theorem ScriptCourse.length_le (h : p.ScriptCourse block calls outcome) : calls.length ≤ 3 :=
  Course.AndThen.length_le FirstStage.length_le_one
    (fun ⟨_, hlater, _⟩ => hlater.length_le LaterStage.length_le_one LaterStage.length_le_one) h

theorem ScriptCourse.serves (h : p.ScriptCourse block calls outcome) :
    ∀ call ∈ calls, ∃ stage options, call.Serves p stage options :=
  Course.AndThen.forall_mem FirstStage.serves
    (fun ⟨_, hlater, _⟩ => hlater.forall_mem LaterStage.serves LaterStage.serves) h

theorem ScriptCourse.handsOn {language : BlockLanguage}
    (declared : p.languageOf .script block.attributes = .ok language)
    (h : p.ScriptCourse block calls outcome) :
    HandsOn (p.prepared language block).content none calls
      (outcome.map fun out => (out.code, out.map)) := by
  refine Course.AndThen.handsOn (fun hfirst => hfirst.handsOn declared) ?_ h
  rintro first calls _ ⟨result, hlater, rfl⟩
  have hhands := hlater.handsOn LaterStage.handsOn LaterStage.handsOn
  cases result <;> exact hhands

/-- Every script takes the course of its stages, with at most three calls.  A function that takes
the place of a transformer sees neither options nor the file.  The first call is given the prepared
content and no map, and every other one what the calls before it left. -/
theorem script_runs_stages_in_order (p : Preprocessor) (block : Block) :
    let calls := Event.calls (p.script block).events
    p.ScriptCourse block calls (p.script block).outcome ∧ calls.length ≤ 3 ∧
      (∀ call ∈ calls, ∀ setting, call.callee = .override setting →
        call.input.options = none ∧ call.input.markup = none) ∧
      ∀ language, p.languageOf .script block.attributes = .ok language →
        HandsOn (p.prepared language block).content none calls
          ((p.script block).outcome.map fun out => (out.code, out.map)) := by
  have hcourse : p.ScriptCourse block _ _ := script_takes
  refine ⟨hcourse, hcourse.length_le, ?_, fun language declared => hcourse.handsOn declared⟩
  intro call hmem setting hcallee
  obtain ⟨stage, options, hserves⟩ := hcourse.serves call hmem
  exact hserves.hidden hcallee

end Preprocessor
end Inlay
