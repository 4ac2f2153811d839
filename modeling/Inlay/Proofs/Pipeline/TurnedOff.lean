import Inlay.Proofs.Pipeline.Script
import Inlay.Proofs.Pipeline.Style

/-!
# Blocks whose language is turned off

When the host turns a language off, or the name that a block is written as, and puts no function in
place of either, the first stage hands the block on as it is: whatever the options and defaults of
the other name ask for, nothing is stripped, nothing is prepended and nobody is called
(`primary_of_disabled_options`).  Such a stage announces no language, so that typescript does not
come behind it, and the stage that is called first behind it is given the content of the block
(`process_of_turnedOff`).
-/

namespace Inlay

/-- What a block gives that nothing is done to. -/
def Block.untouched (block : Block) : Output :=
  { code := block.content, dependencies := block.dependencies }

namespace Preprocessor

variable {p : Preprocessor} {kind : BlockKind} {block : Block} {language : BlockLanguage}

/-! ## The first stage -/

/-- The host turns off a language, or the name that it is written as, and puts no function in place
of either. -/
structure TurnsOff (p : Preprocessor) (language : BlockLanguage) : Prop where
  off : p.resolver.IsTurnedOff language.language ∨ p.resolver.IsTurnedOff language.written
  language_free : ¬ p.resolver.IsOverridden language.language
  written_free : ¬ p.resolver.IsOverridden language.written

theorem TurnsOff.firstOptions (h : p.TurnsOff language) : p.firstOptions language = .disabled := by
  have hfor : p.resolver.overrideFor? language.language (some language.written) false = none := by
    rw [Resolver.overrideFor?_of_unheard, Resolver.override?_eq_none_iff.2 h.language_free]
    · rfl
    · exact .inr fun name hname => Option.some.inj hname ▸ h.written_free
  have hoff : p.resolver.isOff language.language = true ∨
      p.resolver.isOff language.written = true :=
    h.off.imp Resolver.isOff_iff.2 Resolver.isOff_iff.2
  rw [Preprocessor.firstOptions, Resolver.resolve_of_no_override hfor]
  exact if_pos (by simpa using hoff)

/-- A stage that is turned off hands the block on as it is, whatever it would prepare. -/
theorem primary_of_disabled_options (declared : p.languageOf kind block.attributes = .ok language)
    (disabled : p.firstOptions language = .disabled) :
    p.primary kind block = .done ⟨block.untouched, language.declared, 0⟩ := by
  have hoptions : p.resolver.resolve language.language (some language.written) false = .disabled :=
    disabled
  rw [primary_of_languageOf declared, hoptions]
  by_cases target : language.language = kind.targetLanguage
  · simp only [if_pos target]
    rfl
  · simp only [if_neg target]
    show Run.done _ = _
    simp only [primaryInput, Output.ofCode, List.append_nil]
    rfl

/-! ## Behind the first stage -/

/-- Typescript does not come behind a stage that announces nothing. -/
theorem scriptRest_untouched (p : Preprocessor) (block : Block) (declared : Option String) :
    p.scriptRest block ⟨block.untouched, declared, 0⟩ =
      p.babelStage block (.start block.untouched 0) := by
  have hasks : ¬ p.AsksForTypescript ⟨block.untouched, declared, 0⟩ := fun hasks => nomatch hasks.1
  rw [scriptRest, typescriptStage, if_neg (mt isPromoted_iff.1 hasks), Run.done_andThen]

theorem script_of_disabled_options (declared : p.languageOf .script block.attributes = .ok language)
    (disabled : p.firstOptions language = .disabled) :
    p.script block =
      (p.babelStage block (.start block.untouched 0)).andThen fun acc => .done acc.finish := by
  rw [script_eq, primary_of_disabled_options declared disabled, Run.done_andThen,
    scriptRest_untouched]

theorem style_of_disabled_options (declared : p.languageOf .style block.attributes = .ok language)
    (disabled : p.firstOptions language = .disabled) :
    p.style block =
      (p.styleRest block ⟨block.untouched, language.declared, 0⟩).andThen fun acc =>
        .done acc.finish := by
  rw [style_eq, primary_of_disabled_options declared disabled, Run.done_andThen]

/-- The replacement pass changes nothing but the content. -/
theorem attributes_of_replaced {input : Block} (h : (p.replaced block).outcome = .ok input) :
    input.attributes = block.attributes := by
  unfold replaced at h
  split at h
  · obtain rfl := Except.ok.inj h
    rfl
  · split at h
    · obtain ⟨_, stage, _, -, hdone, -⟩ := Run.andThen_eq_ok_iff.1 (Run.eq_of_outcome h)
      obtain ⟨-, rfl⟩ := Run.done_eq_ok_iff.1 hdone
      rfl
    · obtain rfl := Except.ok.inj h
      rfl

theorem markup_of_disabled_options (declared : p.languageOf .markup block.attributes = .ok language)
    (disabled : p.firstOptions language = .disabled) :
    p.markup block = (p.replaced block).andThen fun input => .done input.untouched := by
  refine Run.andThen_congr fun input hreplaced => ?_
  have hinput : p.languageOf .markup input.attributes = .ok language := by
    rw [attributes_of_replaced hreplaced, declared]
  rw [primary_of_disabled_options hinput disabled]
  rfl

theorem StyleRest.name_callee {first : Primary} {calls : List Call}
    {outcome : Except Failure Output} (h : p.StyleRest block first calls outcome) :
    ∀ call ∈ calls, call.callee.name ∈ ["postcss", "globalStyle"] := by
  cases h with
  | denied _ => simp
  | granted _ later =>
    refine later.forall_mem ?_ ?_
    · intro calls outcome hpostcss call hmem
      have hname := hpostcss.name_callee (fun _ _ => postcssOptions_eq_override) call hmem
      simp [hname]
    · intro acc calls outcome hglobal call hmem
      have hname := hglobal.name_callee (fun _ _ => Resolver.setting_eq_of_unheard (.inr (by simp)))
        call hmem
      simp [hname]

/-- The calls that are made for a script come from babel. -/
theorem calls_of_script (declared : p.languageOf .script block.attributes = .ok language)
    (disabled : p.firstOptions language = .disabled) :
    ∃ outcome, p.BabelStage block (.start block.untouched 0) (Event.calls (p.script block).events)
      outcome := by
  rw [script_of_disabled_options declared disabled, Run.events_andThen_done]
  exact ⟨_, babelStage_takes _⟩

theorem calls_of_style (declared : p.languageOf .style block.attributes = .ok language)
    (disabled : p.firstOptions language = .disabled) :
    ∃ outcome, p.StyleRest block ⟨block.untouched, language.declared, 0⟩
      (Event.calls (p.style block).events) outcome := by
  rw [style_of_disabled_options declared disabled]
  cases hdeclared : p.resolver.registry.declared block.attributes with
  | error cause => cases declared.symm.trans (languageOf_of_undeclared hdeclared)
  | ok found => exact ⟨_, styleRest_takes hdeclared _⟩

/-- A first stage that is turned off gives what the block held, its dependencies and nothing else.
That is all there is to markup behind its replacement pass, typescript does not come behind a
script, and of the further stages the one that is called first is given the block's own content. -/
theorem process_of_turnedOff (declared : p.languageOf kind block.attributes = .ok language)
    (off : p.TurnsOff language) :
    let calls := Event.calls (p.process kind block).events
    (∀ input : Block, input.attributes = block.attributes →
      p.primary kind input = .done ⟨input.untouched, language.declared, 0⟩) ∧
    (kind = .markup → p.process kind block =
      (p.replaced block).andThen fun input => .done input.untouched) ∧
    (kind = .script → p.process kind block =
      (p.babelStage block (.start block.untouched 0)).andThen fun acc => .done acc.finish) ∧
    (kind ≠ .markup →
      (∀ call ∈ calls, call.callee.name ∈ ["babel", "postcss", "globalStyle"]) ∧
      ∀ call ∈ calls.head?, call.input.content = block.content ∧ call.input.map = none) := by
  have disabled : p.firstOptions language = .disabled := off.firstOptions
  intro calls
  refine ⟨?_, ?_, ?_, ?_⟩
  · intro input hinput
    exact primary_of_disabled_options (by rw [hinput, declared]) disabled
  · rintro rfl
    exact markup_of_disabled_options declared disabled
  · rintro rfl
    exact script_of_disabled_options declared disabled
  · intro hkind
    cases kind with
    | markup => exact absurd rfl hkind
    | script =>
      obtain ⟨_, hbabel⟩ := calls_of_script declared disabled
      refine ⟨fun call hmem => ?_, hbabel.handsOn.head⟩
      have hname := hbabel.name_callee
        (fun _ _ => Resolver.setting_eq_of_unheard (.inr (by simp))) call hmem
      simp [hname]
    | style =>
      obtain ⟨_, hrest⟩ := calls_of_style declared disabled
      refine ⟨fun call hmem => ?_, hrest.handsOn.head⟩
      exact List.mem_cons_of_mem _ (hrest.name_callee call hmem)

/-- CoffeeScript is turned off.  What is set for the name that it is written as would strip its
indentation and put a line in front of it, and typescript and babel are there. -/
def withoutCoffee : Preprocessor :=
  ofResults
    [("coffeescript", .enabled false),
     ("coffee", .options (.object
       [("prependData", .string "# strict"), ("stripIndent", .bool true)])),
     ("typescript", .enabled true), ("babel", .enabled true)]
    [(.coffeescript, .ofCode "let x"), (.typescript, .ofCode "let x"), (.babel, .ofCode "var x")]

/-- An indented script in CoffeeScript. -/
def indentedCoffee : Block :=
  { content := "\n    x = 1\n", attributes := Table.ofList [("lang", .text "coffee")],
    dependencies := ["src.coffee"] }

theorem process_of_turnedOff_coffee :
    let language : BlockLanguage := ⟨"coffeescript", "coffee", some "coffeescript"⟩
    withoutCoffee.languageOf .script indentedCoffee.attributes = .ok language ∧
      withoutCoffee.TurnsOff language ∧
      withoutCoffee.primary .script indentedCoffee =
        .done ⟨indentedCoffee.untouched, some "coffeescript", 0⟩ ∧
      ∃ call, Event.calls (withoutCoffee.process .script indentedCoffee).events = [call] ∧
        call.callee = .transformer .babel ∧ call.input.content = "\n    x = 1\n" := by
  intro language
  have declared : withoutCoffee.languageOf .script indentedCoffee.attributes = .ok language := rfl
  have off : withoutCoffee.TurnsOff language := by
    refine ⟨.inl rfl, ?_, ?_⟩
    · intro ⟨_, h⟩
      cases h
    · intro ⟨_, h⟩
      cases h
  obtain ⟨hprimary, -, -, hlater⟩ := process_of_turnedOff declared off
  obtain ⟨-, hhead⟩ := hlater (by decide)
  have hcalls : Event.calls (withoutCoffee.process .script indentedCoffee).events = [_] := rfl
  rw [hcalls] at hhead
  exact ⟨declared, off, hprimary indentedCoffee rfl, _, hcalls, rfl, (hhead _ rfl).1⟩

end Preprocessor
end Inlay
