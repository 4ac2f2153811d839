import Inlay.Civet.Transformer
import Inlay.Proofs.Stage.Run

/-!
# What the Civet transformer gives

Looking for configuration never fails, so every call of the transformer calls the compiler once
(`transformer_eq`), and the outcome depends on the compiler alone: `outcome_transformer` has one
case for each answer of it.
-/

namespace Inlay
namespace Civet

variable {compile : Compiler} {files : FileTree} {input : StageInput}

/-- The parse options that the configuration files hold for a file. -/
def discovered (files : FileTree) (filename : Option String) : Option Json :=
  filename.bind fun name => (parseOptions files name).outcome.toOption.join

/-- The options that the compiler runs with. -/
def optionsFor (files : FileTree) (filename : Option String) (user : Option Json) : Json.Fields :=
  compilerOptions filename (discovered files filename) user

theorem outcome_parseOptions (files : FileTree) (filename : String) :
    (parseOptions files filename).outcome = .ok (discovered files (some filename)) := by
  have hok : ∃ options, (parseOptions files filename).outcome = .ok options := by
    unfold parseOptions
    split
    · exact ⟨none, rfl⟩
    · split
      · exact ⟨none, rfl⟩
      · split
        · exact ⟨none, rfl⟩
        · exact ⟨_, rfl⟩
  obtain ⟨options, hoptions⟩ := hok
  rw [discovered, Option.bind_some, hoptions]
  rfl

/-- The run of looking for parse options, if there is a file to look from. -/
def discovery (files : FileTree) : Option String → Run Notice (Option Json)
  | some filename => parseOptions files filename
  | none => .done none

theorem outcome_discovery (files : FileTree) (filename : Option String) :
    (discovery files filename).outcome = .ok (discovered files filename) := by
  cases filename with
  | none => rfl
  | some name => exact outcome_parseOptions files name

/-- The run behind the call of the compiler, which hangs on its answer. -/
def answered (input : StageInput) (options : Json.Fields) :
    Except CompileError Compiled → Run Notice Output
  | .ok compiled => resultOf options input (normalize options input.content compiled)
  | .error (.parse error) =>
    .ofExcept ((reporting input.offset input.options).outcome error input.filename)
  | .error (.other message) => .fail (.transform "civet" message)

/-- A call looks for configuration, calls the compiler, and goes on with its answer. -/
theorem transformer_eq (compile : Compiler) (files : FileTree) (input : StageInput) :
    let options := optionsFor files input.filename input.options
    transformer compile files input =
      ⟨(discovery files input.filename).events ++
          .compiled input.content options ::
            (answered input options (compile input.content options)).events,
        (answered input options (compile input.content options)).outcome⟩ := by
  intro options
  have hsteps : transformer compile files input =
      (discovery files input.filename).andThen fun found =>
        let options := compilerOptions input.filename found input.options
        (Run.emit (.compiled input.content options)).andThen fun _ =>
          answered input options (compile input.content options) := by
    unfold transformer discovery answered
    cases input.filename <;> rfl
  rw [hsteps, Run.andThen, outcome_discovery]
  rfl

/-- What the transformer makes of the answer of the compiler. -/
def outcomeOf (input : StageInput) (options : Json.Fields) :
    Except CompileError Compiled → Except Failure Output
  | .ok compiled => (resultOf options input (normalize options input.content compiled)).outcome
  | .error (.parse error) => (reporting input.offset input.options).outcome error input.filename
  | .error (.other message) => .error (.transform "civet" message)

theorem outcome_transformer :
    (transformer compile files input).outcome =
      outcomeOf input (optionsFor files input.filename input.options)
        (compile input.content (optionsFor files input.filename input.options)) := by
  rw [transformer_eq]
  rcases compile input.content _ with (error | message) | compiled <;> rfl

end Civet
end Inlay
