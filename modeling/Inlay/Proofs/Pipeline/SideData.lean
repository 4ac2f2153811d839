import Inlay.Proofs.Pipeline.Folding

/-!
# Dependencies and diagnostics of a pipeline

Dependencies and diagnostics are concatenated over the stages of a script or a style
(`process_concatenates`): those of the result are what the calls in the trace returned, in the
order of the calls, behind the dependencies of the block.  Only a function override that runs
although the block is in the target language already drops the dependencies of the block
(`process_drops_dependencies`).
-/

namespace Inlay

/-- The dependencies that calls returned, in their order. -/
def Call.dependencies (calls : List Call) : List String :=
  (calls.filterMap Call.output?).flatMap (·.dependencies)

/-- The diagnostics that calls returned, in their order. -/
def Call.diagnostics (calls : List Call) : List Diagnostic :=
  (calls.filterMap Call.output?).flatMap (·.diagnostics)

theorem Call.dependencies_append (calls calls' : List Call) :
    dependencies (calls ++ calls') = dependencies calls ++ dependencies calls' := by
  rw [dependencies, List.filterMap_append, List.flatMap_append]
  rfl

theorem Call.diagnostics_append (calls calls' : List Call) :
    diagnostics (calls ++ calls') = diagnostics calls ++ diagnostics calls' := by
  rw [diagnostics, List.filterMap_append, List.flatMap_append]
  rfl

/-- What is collected from stages is what is collected from their calls, if nothing is collected
from a stage that passes its content on. -/
theorem Gave.flatMap_eq {α : Type} {collect : Output → List α} {calls : List Call}
    {stages : List Output} (hpassed : ∀ code, collect (.ofCode code) = [])
    (h : Gave calls stages) :
    stages.flatMap collect = (calls.filterMap Call.output?).flatMap collect := by
  induction h with
  | nil => rfl
  | called hcall _ ih =>
    rw [List.filterMap_cons_some hcall, List.flatMap_cons, List.flatMap_cons, ih]
  | passed code _ ih => rw [List.flatMap_cons, hpassed, List.nil_append, ih]

theorem Gave.dependencies_eq {calls : List Call} {stages : List Output} (h : Gave calls stages) :
    stages.flatMap (·.dependencies) = Call.dependencies calls := h.flatMap_eq fun _ => rfl

theorem Gave.diagnostics_eq {calls : List Call} {stages : List Output} (h : Gave calls stages) :
    stages.flatMap (·.diagnostics) = Call.diagnostics calls := h.flatMap_eq fun _ => rfl

namespace Preprocessor

variable {p : Preprocessor} {kind : BlockKind} {block : Block} {out : Output}

/-- The dependencies of a script or a style are those of the block that its first stage keeps and
then those of every call, and its diagnostics are those of every call.  A function override that
runs although the block is in the target language already keeps none of the block. -/
theorem process_concatenates (hkind : kind ≠ .markup)
    (h : (p.process kind block).outcome = .ok out) :
    out.dependencies =
        (if p.overridesTarget kind block then [] else block.dependencies) ++
          Call.dependencies (Event.calls (p.process kind block).events) ∧
      out.diagnostics = Call.diagnostics (Event.calls (p.process kind block).events) := by
  obtain ⟨before, first, behind, stages, acc, hprimary, hevents, hgave, hfold, rfl⟩ :=
    process_eq_ok hkind (Run.eq_of_outcome h)
  obtain ⟨stage, hstage, hfirst⟩ := primary_eq_ok hprimary
  have hdependencies : acc.dependencies =
      first.output.dependencies ++ stages.flatMap (·.dependencies) :=
    Accumulator.append_absorbAll Accumulator.dependencies_absorb hfold
  have hdiagnostics : acc.diagnostics =
      first.output.diagnostics ++ stages.flatMap (·.diagnostics) :=
    Accumulator.append_absorbAll Accumulator.diagnostics_absorb hfold
  have hown : stage.dependencies = Call.dependencies (Event.calls before) := by
    rw [← hstage.dependencies_eq, List.flatMap_singleton]
  have hreported : stage.diagnostics = Call.diagnostics (Event.calls before) := by
    rw [← hstage.diagnostics_eq, List.flatMap_singleton]
  rw [hevents, Event.calls_append, Call.dependencies_append, Call.diagnostics_append]
  constructor
  · show acc.dependencies = _
    rw [hdependencies, hgave.dependencies_eq, hfirst, keptDependencies, ← hown, List.append_assoc]
  · show acc.diagnostics = _
    rw [hdiagnostics, hgave.diagnostics_eq, hfirst, ← hreported]

/-- A Civet script that typescript and babel go over. -/
def civetThroughBabel : Preprocessor :=
  ofResults [("babel", .enabled true), ("typescript", .enabled true)]
    [(.civet,
      { code := "const x: number = 1", dependencies := ["civet.dep"]
        diagnostics := [{ message := "from civet", severity := .warning }]
        attributes := some (Table.ofList [("lang", .text "ts")]) }),
     (.typescript,
      { code := "const x = 1", dependencies := ["ts.dep"]
        diagnostics := [{ message := "from typescript" }] }),
     (.babel, { code := "var x = 1", dependencies := ["babel.dep"] })]

/-- A Civet script with a dependency of its own. -/
def civetScript : Block :=
  { content := "x: number := 1", attributes := Table.ofList [("lang", .text "civet")],
    dependencies := ["src.civet"] }

theorem process_concatenates_three_stages :
    BlockKind.script ≠ .markup ∧
    ∃ out, (civetThroughBabel.process .script civetScript).outcome = .ok out ∧
      out.dependencies = ["src.civet", "civet.dep", "ts.dep", "babel.dep"] ∧
      out.diagnostics.map (·.message) = ["from civet", "from typescript"] := by
  have hkind : BlockKind.script ≠ .markup := by decide
  have h : (civetThroughBabel.process .script civetScript).outcome = .ok _ := rfl
  obtain ⟨hdependencies, hdiagnostics⟩ := process_concatenates hkind h
  refine ⟨hkind, _, h, ?_, ?_⟩
  · rw [hdependencies]
    rfl
  · rw [hdiagnostics]
    rfl

/-- A function in place of the stage for blocks that are written as `sugarss`. -/
def sugarssOverride : Preprocessor :=
  ofResults [("sugarss", .override fun _ =>
    .done { code := "a { b: c }", dependencies := ["mixins.sss"] })] []

/-- A style in an alias of CSS, with a dependency of its own. -/
def sugarssStyle : Block :=
  { content := "a\n  b: c", attributes := Table.ofList [("lang", .text "sugarss")],
    dependencies := ["theme.css"] }

/-- The dependency of the block is lost when an override runs on a block in the target language. -/
theorem process_drops_dependencies :
    ∃ out, (sugarssOverride.process .style sugarssStyle).outcome = .ok out ∧
      out.dependencies ≠ sugarssStyle.dependencies ++
        Call.dependencies (Event.calls (sugarssOverride.process .style sugarssStyle).events) := by
  refine ⟨{ code := "a { b: c }", dependencies := ["mixins.sss"] }, rfl, ?_⟩
  show ["mixins.sss"] ≠ ["theme.css", "mixins.sss"]
  decide

end Preprocessor
end Inlay
