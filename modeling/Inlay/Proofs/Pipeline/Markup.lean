import Inlay.Proofs.Options.Resolution
import Inlay.Proofs.Pipeline.SideData
import Inlay.Proofs.Pipeline.Stages

/-!
# What a markup keeps of its replacement pass

A markup runs a replacement pass, if the host asks for one, and then its first stage on the code
that the pass gave (`markup_of_enables`).  Nothing but that code goes on: the dependencies and
diagnostics that the pass returned are not in the result.  So the result has those of all calls
exactly when the pass returned none (`markup_drops_replacement_data`).
-/

namespace Inlay
namespace Preprocessor

variable {p : Preprocessor} {kind : BlockKind} {block : Block} {out : Output}

/-! ## The replacement pass -/

/-- What the replacement pass runs with: its setting taken by itself, without defaults. -/
def replacementOptions (p : Preprocessor) : ResolvedOptions :=
  ((p.resolver.settings.get? "replace").map (Setting.resolved "replace")).getD .disabled

/-- What the replacement pass is given.  The content of a markup is the whole file. -/
def replacementInput (block : Block) : StageInput :=
  { content := block.content, markup := some block.content, filename := block.filename }

theorem markup_of_enables (asked : p.resolver.Enables "replace") :
    p.markup block =
      (p.runStage "replace" p.replacementOptions (replacementInput block)).andThen fun pass =>
        (p.primary .markup { block with content := pass.code }).andThen fun first =>
          .done first.output := by
  obtain ⟨setting, hset, henabled⟩ := asked
  simp only [markup, replaced, replacementOptions, hset, henabled, if_true, Option.map_some,
    Option.getD_some, Run.bind_eq, Run.pure_eq, Run.andThen_assoc, Run.done_andThen,
    replacementInput]

/-! ## Its dependencies and diagnostics -/

/-- The dependencies of a first stage are those of the block that it keeps and then those of its
call, and its diagnostics are those of its call. -/
theorem primary_concatenates {events : List Event} {first : Primary}
    (h : p.primary kind block = ⟨events, .ok first⟩) :
    first.output.dependencies =
        p.keptDependencies kind block ++ Call.dependencies (Event.calls events) ∧
      first.output.diagnostics = Call.diagnostics (Event.calls events) := by
  obtain ⟨stage, hgave, hfirst⟩ := primary_eq_ok h
  rw [← hgave.dependencies_eq, ← hgave.diagnostics_eq, List.flatMap_singleton,
    List.flatMap_singleton, hfirst]
  exact ⟨rfl, rfl⟩

/-- What a stage keeps is all there is exactly when the calls in front of it returned nothing, and
it does not itself drop what the block has. -/
theorem keeps_all_iff (p : Preprocessor) (kind : BlockKind) (block : Block)
    (front calls : List Call) :
    (p.keptDependencies kind block ++ Call.dependencies calls =
          block.dependencies ++ Call.dependencies (front ++ calls) ∧
        Call.diagnostics calls = Call.diagnostics (front ++ calls)) ↔
      Call.dependencies front = [] ∧ Call.diagnostics front = [] ∧
        (p.overridesTarget kind block = true → block.dependencies = []) := by
  rw [Call.dependencies_append, Call.diagnostics_append, ← List.append_assoc,
    List.append_left_inj, List.self_eq_append_left, keptDependencies]
  by_cases hoverrides : p.overridesTarget kind block
  · simp only [hoverrides, if_true, List.nil_eq, List.append_eq_nil_iff, forall_const]
    exact ⟨fun hall => ⟨hall.1.2, hall.2, hall.1.1⟩, fun hall => ⟨⟨hall.2.2, hall.1⟩, hall.2.1⟩⟩
  · simp [hoverrides]

/-- The result of a markup has the dependencies and diagnostics of its first stage.  What the
replacement pass in front of it returned is not among them, so they are those of all calls exactly
when the pass returned none, unless the first stage itself drops those of the block. -/
theorem markup_drops_replacement_data (asked : p.resolver.Enables "replace")
    (h : (p.markup block).outcome = .ok out) :
    ∃ pass first passCalls stageCalls,
      p.RunsStage "replace" p.replacementOptions (replacementInput block) passCalls (.ok pass) ∧
      p.FirstStage .markup { block with content := pass.code } stageCalls (.ok first) ∧
      Event.calls (p.markup block).events = passCalls ++ stageCalls ∧ out = first.output ∧
      out.dependencies = p.keptDependencies .markup block ++ Call.dependencies stageCalls ∧
      out.diagnostics = Call.diagnostics stageCalls ∧
      ((out.dependencies =
            block.dependencies ++ Call.dependencies (Event.calls (p.markup block).events) ∧
          out.diagnostics = Call.diagnostics (Event.calls (p.markup block).events)) ↔
        Call.dependencies passCalls = [] ∧ Call.diagnostics passCalls = [] ∧
          (p.overridesTarget .markup block = true → block.dependencies = [])) := by
  have hrun := Run.eq_of_outcome h
  generalize (p.markup block).events = events at hrun ⊢
  rw [markup_of_enables asked] at hrun
  obtain ⟨passEvents, pass, _, hpass, hrest, rfl⟩ := Run.andThen_eq_ok_iff.1 hrun
  obtain ⟨stageEvents, first, _, hfirst, hdone, rfl⟩ := Run.andThen_eq_ok_iff.1 hrest
  obtain ⟨rfl, rfl⟩ := Run.done_eq_ok_iff.1 hdone
  have hruns := p.runsStage "replace" p.replacementOptions (replacementInput block)
  have hstage := p.firstStage .markup { block with content := pass.code }
  rw [Run.Takes, hpass] at hruns
  rw [Run.Takes, hfirst] at hstage
  obtain ⟨hdependencies, hdiagnostics⟩ := primary_concatenates hfirst
  -- the pass changes the content only, so the first stage keeps what it would keep of the block
  have hkept : p.keptDependencies .markup { block with content := pass.code } =
      p.keptDependencies .markup block := rfl
  rw [hkept] at hdependencies
  rw [List.append_nil, Event.calls_append]
  refine ⟨pass, first, _, _, hruns, hstage, rfl, rfl, hdependencies, hdiagnostics, ?_⟩
  rw [hdependencies, hdiagnostics]
  exact p.keeps_all_iff .markup block _ _

/-- A Pug markup with a replacement pass in front that returns a dependency and a diagnostic. -/
def replacingPug : Preprocessor :=
  ofResults [("replace", .options (.array []))]
    [(.replace,
      { code := "p b", dependencies := ["rules.json"]
        diagnostics := [{ message := "no match", severity := .warning }] }),
     (.pug, { code := "<p>b</p>", dependencies := ["layout.pug"] })]

/-- A markup in Pug with a dependency of its own. -/
def pugMarkup : Block :=
  { content := "p a", attributes := Table.ofList [("lang", .text "pug")],
    dependencies := ["App.pug"] }

theorem markup_drops_data_of_rules :
    replacingPug.resolver.Enables "replace" ∧
    ∃ out, (replacingPug.markup pugMarkup).outcome = .ok out ∧
      out.dependencies = ["App.pug", "layout.pug"] ∧
      ∃ passCalls stageCalls,
        Event.calls (replacingPug.markup pugMarkup).events = passCalls ++ stageCalls ∧
        out.dependencies = ["App.pug"] ++ Call.dependencies stageCalls ∧
        out.diagnostics = Call.diagnostics stageCalls := by
  have asked : replacingPug.resolver.Enables "replace" := ⟨.options (.array []), rfl, rfl⟩
  have h : (replacingPug.markup pugMarkup).outcome = .ok _ := rfl
  obtain ⟨_, _, passCalls, stageCalls, -, -, hcalls, -, hdependencies, hdiagnostics, -⟩ :=
    markup_drops_replacement_data asked h
  exact ⟨asked, _, h, rfl, passCalls, stageCalls, hcalls, hdependencies, hdiagnostics⟩

/-- A function in place of the replacement pass that returns a dependency and a diagnostic. -/
def replaceOverride : Preprocessor :=
  ofResults [("replace", .override fun _ =>
    .done { code := "<p>b</p>", dependencies := ["rules.json"]
            diagnostics := [{ message := "no match", severity := .warning }] })] []

/-- A markup in HTML with a dependency of its own. -/
def htmlMarkup : Block := { content := "<p>a</p>", dependencies := ["App.html"] }

/-- What the replacement pass returned is lost even when nothing comes behind it. -/
theorem markup_loses_replacement_data :
    ∃ out, (replaceOverride.markup htmlMarkup).outcome = .ok out ∧
      out.dependencies ≠ htmlMarkup.dependencies ++
        Call.dependencies (Event.calls (replaceOverride.markup htmlMarkup).events) ∧
      out.diagnostics ≠
        Call.diagnostics (Event.calls (replaceOverride.markup htmlMarkup).events) := by
  refine ⟨{ code := "<p>b</p>", dependencies := ["App.html"] }, rfl, ?_, ?_⟩
  · show ["App.html"] ≠ ["App.html", "rules.json"]
    decide
  · show ([] : List Diagnostic) ≠ [{ message := "no match", severity := .warning }]
    decide

end Preprocessor
end Inlay
