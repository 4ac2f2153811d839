import Inlay.Civet.Compiler
import Inlay.Civet.Discovery

/-!
The transformer for Civet: it shapes the options of a compiler, brings what the compiler gives
into one form, and moves its parse errors into the file.

The compiler writes TypeScript unless the options ask for JavaScript, and the result announces
which of the two it is.
-/

namespace Inlay
namespace Civet

/-! ## Options -/

/-- The options that are for the adapter and not for the compiler. -/
def adapterOptions : List String :=
  ["reportErrors", "summarizeErrors", "stripIndent", "prependData"]

/-- The options that the compiler gets before those of the user. -/
def baseOptions (filename : Option String) (parseOptions : Option Json) : Json.Fields :=
  let fields := Entries.insert "js" (.bool false)
    (Entries.insert "filename" (Json.stringOrNull filename) [])
  match parseOptions with
  | some value => Entries.insert "parseOptions" value fields
  | none => fields

/-- The options of the compiler: the base options, overwritten by those of the user, without those
for the adapter, and always synchronous. -/
def compilerOptions (filename : Option String) (parseOptions user : Option Json) : Json.Fields :=
  let merged := Json.merge (baseOptions filename parseOptions) (user.getD .null)
  let kept := adapterOptions.foldl (fun fields key => Entries.erase key fields) merged
  -- This one goes in last, so the user cannot turn it off.
  Entries.insert "sync" (.bool true) kept

def isSet (options : Json.Fields) (key : String) : Bool := Json.flag (some (.object options)) key

def outputLanguage (options : Json.Fields) : String := if isSet options "js" then "js" else "ts"

/-! ## Results -/

/-- The code that can be got out of what the compiler gives; the source if there is none. -/
def fallbackCode (source : String) : Compiled → String
  | .code value => value
  | .codeWithMap value _ => if value = "" then source else value
  | .unexpected value => ((value.field? "code").bind Json.string?).getD source

structure Normalized where
  code : String
  map : Option SourceMap := none
  warning : Option Warning := none

/-- Brings what a compiler gives into one form.  A map next to the code is used only when the
options ask for one and not for a map inside the code. -/
def normalize (options : Json.Fields) (source : String) (compiled : Compiled) : Normalized :=
  if isSet options "inlineMap" then
    match compiled with
    | .code value => { code := value, warning := some .civetInlineMap }
    | other => { code := fallbackCode source other, warning := some .civetInlineCodeMissing }
  else if isSet options "sourceMap" then
    match compiled with
    | .codeWithMap value (some map) =>
      if value = "" then { code := source, warning := some .civetMapMissing }
      else { code := value, map := some map }
    | other => { code := fallbackCode source other, warning := some .civetMapMissing }
  else
    match compiled with
    | .code value => { code := value }
    | other => { code := fallbackCode source other, warning := some .civetCodeMissing }

/-- How the parse errors of a block are reported under the options of the user. -/
def reporting (offset : BlockOffset) (user : Option Json) : ErrorReporting :=
  { offset
    reports := ((user.bind (Json.field? "reportErrors")).bind Json.bool?).getD true
    summarizes := Json.flag user "summarizeErrors" }

/-! ## The transformer -/

def resultOf (options : Json.Fields) (input : StageInput) (n : Normalized) : Run Notice Output := do
  match n.warning with
  | some warning => Run.emit (.warned warning)
  | none => pure ()
  return { code := n.code, map := n.map,
           attributes := some (input.attributes.insert "lang" (.text (outputLanguage options))) }

/-- The transformer that runs a compiler, with the files among which configuration is looked
for. -/
def transformer (compile : Compiler) (files : FileTree) : Transformer := fun input => do
  let parseOptions ←
    match input.filename with
    | some filename => Civet.parseOptions files filename
    | none => pure none
  let options := compilerOptions input.filename parseOptions input.options
  Run.emit (.compiled input.content options)
  match compile input.content options with
  | .ok compiled => resultOf options input (normalize options input.content compiled)
  | .error (.parse error) =>
    Run.ofExcept ((reporting input.offset input.options).outcome error input.filename)
  | .error (.other message) => Run.fail (.transform "civet" message)

end Civet
end Inlay
