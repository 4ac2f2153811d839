import Inlay.Proofs.Options.Resolution
import Inlay.Proofs.Pipeline.Stages

/-!
# The order of the stages of a style

A style runs its first stage.  If the host has postcss, postcss and globalStyle come behind it, each
unless it is turned off; if not, the style is done, and all that may be said about it is that it
asks for global rules in vain.  `StyleCourse` is the list of all that can happen on the way, and
`style_runs_stages_in_order` says that every style takes it.

The stages themselves report nothing to the host (`quiet_primary`, `quiet_laterStage`), so the only
warning is that of the missing library.
-/

namespace Inlay

/-! ## Runs without warnings -/

/-- A run that reports nothing. -/
def Run.Quiet {α : Type} (run : Run Event α) : Prop := Event.warnings run.events = []

theorem Run.Quiet.andThen {α β : Type} {first : Run Event α} {next : α → Run Event β}
    (h : first.Quiet) (hnext : ∀ value, (next value).Quiet) : (first.andThen next).Quiet := by
  unfold Quiet at *
  cases hfirst : first.outcome with
  | error cause => rwa [events_andThen_of_error hfirst]
  | ok value => rw [events_andThen_of_ok hfirst, Event.warnings_append, h, hnext, List.append_nil]

namespace Preprocessor

variable {p : Preprocessor} {kind : BlockKind} {block : Block}

theorem quiet_runStage (stage : String) (options : ResolvedOptions) (input : StageInput) :
    (p.runStage stage options input).Quiet := by
  cases options with
  | disabled => rfl
  | override setting function => rfl
  | options value =>
    rw [runStage]
    cases p.workshop.find? stage <;> rfl

theorem quiet_passTarget (language : BlockLanguage) (options : ResolvedOptions)
    (prepared : Prepared) : (passTarget language options block prepared).Quiet := by
  unfold passTarget
  split
  · split <;> rfl
  · rfl

theorem quiet_primary : (p.primary kind block).Quiet := by
  cases declared : p.languageOf kind block.attributes with
  | error cause =>
    simp only [primary, declared]
    rfl
  | ok language =>
    rw [primary_of_languageOf declared]
    by_cases target : language.language = kind.targetLanguage
    · simp only [if_pos target]
      exact (quiet_passTarget _ _ _).andThen fun _ => rfl
    · simp only [if_neg target]
      exact (quiet_runStage _ _ _).andThen fun _ => rfl

theorem quiet_laterStage (stage : String) (options : ResolvedOptions) (acc : Accumulator)
    (attributes : Attributes) : (p.laterStage stage options block acc attributes).Quiet := by
  rw [laterStage_eq]
  exact (quiet_runStage _ _ _).andThen fun _ => rfl

theorem quiet_postcssStage (acc : Accumulator) : (p.postcssStage block acc).Quiet := by
  unfold postcssStage
  split
  · exact Run.Quiet.andThen rfl fun _ => quiet_laterStage _ _ _ _
  · rfl

/-! ## The options of postcss -/

/-- The name that the author wrote, if it is a proper alias of the language that it stands for. -/
def writtenAlias? (p : Preprocessor) (block : Block) : Option String :=
  match p.resolver.registry.declared block.attributes with
  | .ok (some found) => if found.written ≠ found.language then some found.written else none
  | _ => none

/-- The options of the postcss stage.  What a proper alias is configured with counts, but not a
function of it. -/
def postcssOptions (p : Preprocessor) (block : Block) : ResolvedOptions :=
  p.resolver.resolve "postcss" (p.writtenAlias? block) true

/-- A name that attributes declare stands for the language with it. -/
theorem isAliasOf_of_declared {r : LanguageRegistry} {attributes : Attributes}
    {found : DeclaredLanguage} (h : r.declared attributes = .ok (some found)) :
    r.isAliasOf found.written found.language = true := by
  obtain ⟨written, -, hfound⟩ := bind_eq_ok_iff.1 h
  obtain ⟨name, -, rfl⟩ := Option.map_eq_some_iff.1 (Except.ok.inj hfound)
  exact decide_eq_true rfl

theorem properAlias?_of_declared {found : Option DeclaredLanguage}
    (declared : p.resolver.registry.declared block.attributes = .ok found) :
    p.properAlias? block.attributes = .ok (p.writtenAlias? block) := by
  rw [properAlias?, writtenAlias?, declared]
  cases found with
  | none => rfl
  | some found =>
    show (pure (if found.written ≠ found.language ∧ _ then _ else _) : Except Failure _) = _
    rw [isAliasOf_of_declared declared]
    simp

theorem languageOf_of_undeclared {cause : Failure}
    (h : p.resolver.registry.declared block.attributes = .error cause) :
    p.languageOf kind block.attributes = .error cause := by
  rw [languageOf, h]
  rfl

/-- A function that takes the place of postcss is its own. -/
theorem postcssOptions_eq_override {setting : String} {function : Transformer}
    (h : p.postcssOptions block = .override setting function) : setting = "postcss" :=
  Resolver.setting_eq_of_unheard (.inl rfl) h

/-! ## Warnings -/

theorem outcome_warnGlobal (block : Block) : (warnGlobal block).outcome = .ok () := by
  unfold warnGlobal
  cases globalWarning? block.attributes <;> rfl

theorem warnings_warnGlobal (block : Block) :
    Event.warnings (warnGlobal block).events =
      if block.attributes.contains "global" then [.globalWithoutPostcss] else [] := by
  unfold warnGlobal globalWarning?
  by_cases hglobal : block.attributes.contains "global"
  · rw [if_pos hglobal, if_pos hglobal]
    rfl
  · rw [if_neg hglobal, if_neg hglobal]
    rfl

/-- A style whose first stage succeeds reports that it asks for global rules, if the host has no
postcss.  Nothing else is reported. -/
theorem warnings_style :
    Event.warnings (p.style block).events =
      if (p.primary .style block).outcome.isOk ∧ p.installed "postcss" = false ∧
          block.attributes.contains "global" then [.globalWithoutPostcss]
      else [] := by
  rw [style_eq]
  cases hprimary : (p.primary .style block).outcome with
  | error cause =>
    rw [Run.events_andThen_of_error hprimary, quiet_primary,
      if_neg (by simp [Except.isOk, Except.toBool])]
  | ok first =>
    rw [Run.events_andThen_of_ok hprimary, Event.warnings_append, quiet_primary, List.nil_append,
      Run.events_andThen_done, styleRest]
    cases hinstalled : p.installed "postcss" with
    | true =>
      rw [if_pos rfl, if_neg (by simp)]
      exact (quiet_postcssStage _).andThen fun acc => quiet_laterStage _ _ _ _
    | false =>
      rw [if_neg (by simp), Run.events_andThen_done, warnings_warnGlobal]
      simp [Except.isOk, Except.toBool]

/-! ## The stages of a style -/

/-- What the postcss stage does behind the first one. -/
def PostcssStage (p : Preprocessor) (block : Block) (first : Primary) : Course Accumulator :=
  p.LaterStage "postcss" (p.resolver.Enables "postcss" ∧ p.postcssOptions block ≠ .disabled)
    (p.postcssOptions block) block.attributes (.start first.output first.indentation)

/-- What the stage for global rules does with what was accumulated. -/
def GlobalStage (p : Preprocessor) (block : Block) (acc : Accumulator) : Course Accumulator :=
  p.LaterStage "globalStyle" (¬ p.resolver.IsTurnedOff "globalStyle")
    (p.resolver.resolveStage "globalStyle") block.attributes acc

/-- What a style does behind its first stage. -/
inductive StyleRest (p : Preprocessor) (block : Block) (first : Primary) : Course Output
  | denied (missing : p.installed "postcss" = false) :
      StyleRest p block first [] (.ok { first.output with attributes := none })
  | granted {calls : List Call} {outcome : Except Failure Accumulator}
      (available : p.installed "postcss" = true)
      (later : (p.PostcssStage block first).AndThen (p.GlobalStage block) calls outcome) :
      StyleRest p block first calls (outcome.map Accumulator.finish)

/-- What the pipeline of a style does. -/
def StyleCourse (p : Preprocessor) (block : Block) : Course Output :=
  (p.FirstStage .style block).AndThen (p.StyleRest block)

theorem postcssStage_takes {found : Option DeclaredLanguage}
    (declared : p.resolver.registry.declared block.attributes = .ok found) (first : Primary) :
    (p.postcssStage block (.start first.output first.indentation)).Takes
      (p.PostcssStage block first) := by
  by_cases henables : p.resolver.Enables "postcss"
  · rw [postcssStage, if_pos (Resolver.isConfigured_iff.2 henables),
      properAlias?_of_declared declared]
    exact (p.laterStage_runs block _ _ _ _).congr (and_iff_right henables).symm
  · rw [postcssStage, if_neg (mt Resolver.isConfigured_iff.1 henables)]
    exact .leftOut fun hwanted => henables hwanted.1

theorem globalStage_takes (acc : Accumulator) :
    (p.globalStage block acc).Takes (p.GlobalStage block acc) :=
  (p.laterStage_runs block _ _ acc _).congr (not_congr Resolver.resolveStage_eq_disabled_iff)

theorem styleRest_takes {found : Option DeclaredLanguage}
    (declared : p.resolver.registry.declared block.attributes = .ok found) (first : Primary) :
    ((p.styleRest block first).andThen fun acc => .done acc.finish).Takes
      (p.StyleRest block first) := by
  rw [styleRest]
  cases hinstalled : p.installed "postcss" with
  | true =>
    exact ((postcssStage_takes declared first).andThen globalStage_takes).map
      fun _ _ hlater => .granted hinstalled hlater
  | false =>
    have hok := outcome_warnGlobal block
    rw [if_neg (by simp), Run.andThen_assoc, Run.Takes, Run.events_andThen_of_ok hok,
      Run.outcome_andThen_of_ok hok, Event.calls_append, calls_warnGlobal]
    exact .denied hinstalled

theorem style_takes : (p.style block).Takes (p.StyleCourse block) := by
  rw [style_eq]
  cases declared : p.resolver.registry.declared block.attributes with
  | error cause =>
    have hlanguage : p.languageOf .style block.attributes = .error cause :=
      languageOf_of_undeclared declared
    have hfails : p.primary .style block = .fail cause := by rw [primary, hlanguage]; rfl
    rw [hfails]
    exact .failed (.undeclared hlanguage)
  | ok found =>
    exact (p.firstStage .style block).andThen fun first => styleRest_takes declared first

/-! ## Whole styles -/

variable {calls : List Call} {outcome : Except Failure Output}

theorem StyleRest.handsOn {first : Primary} (h : p.StyleRest block first calls outcome) :
    HandsOn first.output.code first.output.map calls (outcome.map fun out => (out.code, out.map)) :=
  by
  cases h with
  | denied _ => exact .reached _ _
  | @granted _ result _ later =>
    have hhands := later.handsOn LaterStage.handsOn LaterStage.handsOn
    cases result <;> exact hhands

theorem StyleCourse.handsOn {language : BlockLanguage}
    (declared : p.languageOf .style block.attributes = .ok language)
    (h : p.StyleCourse block calls outcome) :
    HandsOn (p.prepared language block).content none calls
      (outcome.map fun out => (out.code, out.map)) :=
  Course.AndThen.handsOn (fun hfirst => hfirst.handsOn declared) StyleRest.handsOn h

/-- Every style takes the course of its stages.  Every call is given what the calls before it left,
and the first one the prepared content and no map.  A function that postcss runs is never that of
the alias that the author wrote.  All that is reported is that a style whose first stage succeeded
asks for global rules and the host has no postcss. -/
theorem style_runs_stages_in_order (p : Preprocessor) (block : Block) :
    let calls := Event.calls (p.style block).events
    p.StyleCourse block calls (p.style block).outcome ∧
      (∀ language, p.languageOf .style block.attributes = .ok language →
        HandsOn (p.prepared language block).content none calls
          ((p.style block).outcome.map fun out => (out.code, out.map))) ∧
      (∀ setting function, p.postcssOptions block = .override setting function →
        setting = "postcss") ∧
      Event.warnings (p.style block).events =
        if (p.primary .style block).outcome.isOk ∧ p.installed "postcss" = false ∧
            block.attributes.contains "global" then [.globalWithoutPostcss]
        else [] := by
  have hcourse : p.StyleCourse block _ _ := style_takes
  exact ⟨hcourse, fun language declared => hcourse.handsOn declared,
    fun setting function => postcssOptions_eq_override, warnings_style⟩

end Preprocessor
end Inlay
