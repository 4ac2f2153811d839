import Inlay.Proofs.Civet.Options

/-!
# What becomes of the code that the compiler gives

An answer of the compiler holds code or none (`Gives`).  Whatever the options ask for, the code that
it holds is the code of the result, and where it holds none the source is (`code_normalize`).  What
the options decide is whether a map comes with it (`map_normalize_eq_some_iff`) and whether there is
something to complain about (`warning_normalize_eq_none_iff`).  `transformer_keeps_code` states this
of every call of the transformer.
-/

namespace Inlay
namespace Civet

variable {compile : Compiler} {files : FileTree} {input : StageInput} {options : Json.Fields}
  {source : String} {compiled : Compiled}

/-- The code that an answer of the compiler holds.  Code beside a map has to be there, and of
anything else only a text under `code` counts. -/
inductive Gives : Compiled → String → Prop
  | code (value : String) : Gives (.code value) value
  | codeWithMap {value : String} (map : Option SourceMap) (h : value ≠ "") :
      Gives (.codeWithMap value map) value
  | unexpected {value : Json} {text : String} (h : value.field? "code" = some (.string text)) :
      Gives (.unexpected value) text

/-- The options have the value `true` under a key. -/
def Asks (options : Json.Fields) (key : String) : Prop :=
  Entries.get? key options = some (.bool true)

/-- A result is not what the options ask for, or it has its map inside the code. -/
def Complains (options : Json.Fields) (compiled : Compiled) (map : Option SourceMap) : Prop :=
  Asks options "inlineMap" ∨ (Asks options "sourceMap" ∧ map = none) ∨
    (¬ Asks options "sourceMap" ∧ ∀ code, compiled ≠ .code code)

/-! ## Normal form -/

theorem isSet_iff {key : String} : isSet options key ↔ Asks options key := isSet_eq_true_iff

theorem fallbackCode_of_gives {code : String} (h : Gives compiled code) (source : String) :
    fallbackCode source compiled = code := by
  cases h with
  | code => rfl
  | codeWithMap map h => exact if_neg h
  | unexpected h =>
    rw [fallbackCode, h]
    rfl

theorem fallbackCode_of_not_gives (h : ∀ code, ¬ Gives compiled code) (source : String) :
    fallbackCode source compiled = source := by
  cases compiled with
  | code value => exact absurd (.code value) (h value)
  | codeWithMap value map =>
    by_cases hvalue : value = ""
    · exact if_pos hvalue
    · exact absurd (.codeWithMap map hvalue) (h value)
  | unexpected value =>
    rw [fallbackCode]
    cases hfield : value.field? "code" with
    | none => rfl
    | some field =>
      cases field with
      | string text => exact absurd (.unexpected hfield) (h text)
      | _ => rfl

/-- The code does not depend on what the options ask for. -/
theorem code_normalize (options : Json.Fields) (source : String) (compiled : Compiled) :
    (normalize options source compiled).code = fallbackCode source compiled := by
  unfold normalize
  split
  · cases compiled <;> rfl
  · split
    · split
      · split
        · rename_i hvalue
          exact (if_pos hvalue).symm
        · rename_i hvalue
          exact (if_neg hvalue).symm
      · rfl
    · cases compiled <;> rfl

theorem map_normalize_eq_some_iff {map : SourceMap} :
    (normalize options source compiled).map = some map ↔
      Asks options "sourceMap" ∧ ¬ Asks options "inlineMap" ∧
        ∃ code, code ≠ "" ∧ compiled = .codeWithMap code (some map) := by
  rw [← isSet_iff, ← isSet_iff]
  unfold normalize
  by_cases hinline : isSet options "inlineMap"
  · rw [if_pos hinline]
    cases compiled <;> simp [hinline]
  · rw [if_neg hinline]
    by_cases hmap : isSet options "sourceMap"
    · rw [if_pos hmap]
      split
      · split <;> simp_all
      · rename_i hother
        refine iff_of_false (fun h => nomatch h) ?_
        rintro ⟨-, -, code, -, heq⟩
        exact hother code map heq
    · rw [if_neg hmap]
      cases compiled <;> simp [hmap]

theorem warning_normalize_eq_none_iff :
    (normalize options source compiled).warning = none ↔
      ¬ Complains options compiled (normalize options source compiled).map := by
  rw [Complains, ← isSet_iff, ← isSet_iff]
  unfold normalize
  by_cases hinline : isSet options "inlineMap"
  · rw [if_pos hinline]
    cases compiled <;> simp [hinline]
  · rw [if_neg hinline]
    by_cases hmap : isSet options "sourceMap"
    · rw [if_pos hmap]
      split
      · split <;> simp_all
      · simp [hmap]
    · rw [if_neg hmap]
      cases compiled <;> simp [hmap, hinline]

/-! ## Calls -/

theorem resultOf_eq (options : Json.Fields) (input : StageInput) (n : Normalized) :
    resultOf options input n =
      ⟨(n.warning.map Notice.warned).toList, .ok (outputOf options input n)⟩ := by
  unfold resultOf
  cases n.warning <;> rfl

/-- When the compiler gives an answer, the call succeeds.  The code of the result is the code of the
answer, or the source if that holds none.  A map beside the code is handed on as it is, if the
options ask for one there and the code is not empty.  What happens behind the call of the compiler
is one warning if there is something to complain about, and else nothing. -/
theorem transformer_keeps_code
    (h : compile input.content (optionsFor files input.filename input.options) = .ok compiled) :
    let options := optionsFor files input.filename input.options
    ∃ output behind,
      transformer compile files input =
        ⟨(discovery files input.filename).events ++ .compiled input.content options :: behind,
          .ok output⟩ ∧
      (∀ code, Gives compiled code → output.code = code) ∧
      ((∀ code, ¬ Gives compiled code) → output.code = input.content) ∧
      (∀ map, output.map = some map ↔
        Asks options "sourceMap" ∧ ¬ Asks options "inlineMap" ∧
          ∃ code, code ≠ "" ∧ compiled = .codeWithMap code (some map)) ∧
      output.dependencies = [] ∧ output.diagnostics = [] ∧
      (Complains options compiled output.map → ∃ warning, behind = [.warned warning]) ∧
      (¬ Complains options compiled output.map → behind = []) := by
  intro options
  have hrun : transformer compile files input =
      ⟨(discovery files input.filename).events ++ .compiled input.content options ::
          ((normalize options input.content compiled).warning.map Notice.warned).toList,
        .ok (outputOf options input (normalize options input.content compiled))⟩ := by
    rw [transformer_eq, h]
    simp only [answered, resultOf_eq]
    rfl
  have hcode := code_normalize options input.content compiled
  refine ⟨_, _, hrun, ?_, ?_, fun map => map_normalize_eq_some_iff, rfl, rfl, ?_, ?_⟩
  · intro code hgives
    exact hcode.trans (fallbackCode_of_gives hgives _)
  · intro hnone
    exact hcode.trans (fallbackCode_of_not_gives hnone _)
  · intro hcomplains
    cases hwarning : (normalize options input.content compiled).warning with
    | none => exact absurd hcomplains (warning_normalize_eq_none_iff.1 hwarning)
    | some warning => exact ⟨warning, rfl⟩
  · intro hcontent
    rw [warning_normalize_eq_none_iff.2 hcontent]
    rfl

/-- A map beside no code is of no use: the source is handed on without it, with one warning. -/
theorem transformer_keeps_code_beside_useless_map :
    let map : SourceMap := ⟨3, none, none, ["App.civet"], [], [], "AAAA"⟩
    let input : StageInput :=
      { content := "x := 1", options := some (.object [("sourceMap", .bool true)]) }
    let run := transformer (fun _ _ => .ok (.codeWithMap "" (some map))) ⟨[], []⟩ input
    ∃ output warning call, run.outcome = .ok output ∧ output.code = "x := 1" ∧
      output.map = none ∧ run.events = [call, .warned warning] := by
  intro map input run
  obtain ⟨output, behind, hrun, -, hnone, hmap, -, -, hone, -⟩ :=
    @transformer_keeps_code (fun _ _ => .ok (.codeWithMap "" (some map))) ⟨[], []⟩ input _ rfl
  have hcode : output.code = "x := 1" := hnone fun code hgives => by cases hgives; contradiction
  have hwithout : output.map = none := by
    rw [Option.eq_none_iff_forall_ne_some]
    intro map' hmap'
    obtain ⟨-, -, code, hcode, heq⟩ := (hmap map').1 hmap'
    cases heq
    exact hcode rfl
  obtain ⟨warning, rfl⟩ := hone (.inr (.inl ⟨rfl, hwithout⟩))
  exact ⟨output, warning, _, congrArg Run.outcome hrun, hcode, hwithout, congrArg Run.events hrun⟩

end Civet
end Inlay
