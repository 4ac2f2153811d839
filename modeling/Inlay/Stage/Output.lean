import Inlay.Block.Attributes
import Inlay.SourceMap.Json
import Inlay.Stage.Position

/-!
What a stage gives, and with it what the pipeline of a block gives.
-/

namespace Inlay

structure Output where
  code : String
  /-- The map from the code back to what the stage was given. -/
  map : Option SourceMap := none
  /-- The files that the result depends on. -/
  dependencies : List String := []
  diagnostics : List Diagnostic := []
  /-- New attributes of the tag, such as the language of the result. -/
  attributes : Option Attributes := none
deriving DecidableEq, Inhabited

namespace Output

def ofCode (code : String) : Output := { code }

def announcedLanguage (o : Output) : Option String :=
  o.attributes.bind (·.announcedLanguage)

/-- The fields of a result in their order. -/
def fieldNames : List String := ["code", "map", "dependencies", "diagnostics", "attributes"]

def toValue (o : Output) : Json :=
  Json.present [
    Json.member "code" (.string o.code),
    Json.memberIfSome "map" SourceMap.toValue o.map,
    Json.memberIfAny "dependencies" .string o.dependencies,
    Json.memberIfAny "diagnostics" Diagnostic.toValue o.diagnostics,
    Json.memberIfSome "attributes" Attributes.toValue o.attributes]

def ofTree? (t : Json.Tree) : Option Output := do
  let r ← t.record? fieldNames
  return {
    code := ← r.required? "code" Json.Tree.text?
    map := ← r.orElse? "map" none (Json.Tree.optional? SourceMap.ofTree?)
    dependencies := ← r.orElse? "dependencies" [] (Json.Tree.list? Json.Tree.text?)
    diagnostics := ← r.orElse? "diagnostics" [] (Json.Tree.list? Diagnostic.ofTree?)
    attributes := ← r.orElse? "attributes" none (Json.Tree.optional? Attributes.ofTree?) }

end Output
end Inlay
