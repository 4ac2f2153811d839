import Inlay.Language.Registry
import Inlay.Proofs.Entries

/-!
# Registries and their history

A registry that is in use began as the built-in one, and aliases were added and defaults set since.
Each of its two tables holds what was put into it in that order (`run_eq`), so for a name the last
entry counts, whole and on its own: `run_reflects_history`.
-/

namespace Inlay

namespace LanguageRegistry

open Entries (lastUnder)

/-- A change of a registry. -/
inductive Operation where
  | addAliases (entries : List (String × String))
  | setDefaults (name : String) (options : Json.Fields)

namespace Operation

def aliases : Operation → List (String × String)
  | addAliases entries => entries
  | setDefaults _ _ => []

def defaults : Operation → List (String × Json.Fields)
  | addAliases _ => []
  | setDefaults name options => [(name, options)]

end Operation

def perform (r : LanguageRegistry) : Operation → LanguageRegistry
  | .addAliases entries => r.addAliases entries
  | .setDefaults name options => r.setDefaults name options

/-- The registry after a history, which is told from its beginning. -/
def run (r : LanguageRegistry) (history : List Operation) : LanguageRegistry :=
  history.foldl perform r

/-- One operation puts its entries into one table and leaves the other table as it is. -/
theorem perform_eq (r : LanguageRegistry) (operation : Operation) :
    r.perform operation =
      ⟨r.aliases.insertAll operation.aliases, r.defaults.insertAll operation.defaults⟩ := by
  cases operation with
  | addAliases entries => rfl
  | setDefaults name options => rfl

theorem run_eq (r : LanguageRegistry) (history : List Operation) :
    r.run history =
      ⟨r.aliases.insertAll (history.flatMap Operation.aliases),
        r.defaults.insertAll (history.flatMap Operation.defaults)⟩ := by
  induction history generalizing r with
  | nil => rfl
  | cons operation history ih =>
    have hstep : r.run (operation :: history) = (r.perform operation).run history := rfl
    rw [hstep, ih, perform_eq, List.flatMap_cons, List.flatMap_cons, Table.insertAll,
      Table.insertAll, Table.insertAll, Table.insertAll, ← List.foldl_append, ← List.foldl_append]
    rfl

theorem get?_builtin_aliases (name : String) :
    builtin.aliases.get? name = lastUnder name builtinAliases := by
  have hfirst : builtin.aliases = (Table.empty : Table String).insertAll builtinAliases := rfl
  rw [hfirst, Table.get?_insertAll, Table.get?_empty, Option.or_none]

theorem canonical_run (history : List Operation) (name : String) :
    (builtin.run history).canonical name =
      ((lastUnder name (history.flatMap Operation.aliases)).or
        (lastUnder name builtinAliases)).getD name := by
  rw [run_eq, canonical, Table.get?_insertAll, get?_builtin_aliases]

theorem defaultsOf_run (history : List Operation) (name : String) :
    (builtin.run history).defaultsOf name =
      (lastUnder name (history.flatMap Operation.defaults)).getD (builtinDefaults name) := by
  have hnone : builtin.defaults.get? name = none := rfl
  rw [run_eq, defaultsOf, Table.get?_insertAll, hnone, Option.or_none]

/-- A name stands for the language of its last added entry, else of its built-in one, else for
itself, and has the options that were last set for it, else the built-in ones.  Adding aliases
leaves all options as they are, and setting options all aliases. -/
theorem run_reflects_history (history : List Operation) (name : String) :
    (builtin.run history).canonical name =
      ((lastUnder name (history.flatMap Operation.aliases)).or
        (lastUnder name builtinAliases)).getD name ∧
    (builtin.run history).defaultsOf name =
      (lastUnder name (history.flatMap Operation.defaults)).getD (builtinDefaults name) ∧
    (∀ language, (builtin.run history).isAliasOf name language = true ↔
      (builtin.run history).canonical name = language) ∧
    (∀ entries, (builtin.run (history ++ [.addAliases entries])).defaultsOf name =
      (builtin.run history).defaultsOf name) ∧
    ∀ other options, (builtin.run (history ++ [.setDefaults other options])).canonical name =
      (builtin.run history).canonical name := by
  refine ⟨canonical_run history name, defaultsOf_run history name, ?_, ?_, ?_⟩
  · intro language
    exact decide_eq_true_iff
  · intro entries
    have hsame : (history ++ [Operation.addAliases entries]).flatMap Operation.defaults =
        history.flatMap Operation.defaults := by simp [Operation.defaults]
    rw [defaultsOf_run, defaultsOf_run, hsame]
  · intro other options
    have hsame : (history ++ [Operation.setDefaults other options]).flatMap Operation.aliases =
        history.flatMap Operation.aliases := by simp [Operation.aliases]
    rw [canonical_run, canonical_run, hsame]

/-- The last entry counts, and what it names is not looked up again. -/
example :
    (builtin.run
      [.addAliases [("a", "ts"), ("a", "b")], .addAliases [("b", "css")]]).canonical "a" =
      "b" := by
  decide

end LanguageRegistry
end Inlay
