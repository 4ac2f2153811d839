import Inlay.SourceMap.Basic
import Inlay.Json.Reader
import Inlay.Json.Record
import Inlay.Json.Writer

/-!
The JSON form of source map documents.
-/

namespace Inlay
namespace SourceMap

/-- The fields of a document in their order. -/
def fieldNames : List String :=
  ["version", "file", "sourceRoot", "sources", "sourcesContent", "names", "mappings"]

def ofTree? (t : Json.Tree) : Option SourceMap := do
  let r ← t.record? fieldNames
  return {
    version := (← r.required? "version" Json.Tree.word32?).toUInt32
    file := ← r.orElse? "file" none (Json.Tree.optional? Json.Tree.text?)
    sourceRoot := ← r.orElse? "sourceRoot" none (Json.Tree.optional? Json.Tree.text?)
    sources := ← r.orElse? "sources" [] (Json.Tree.list? Json.Tree.text?)
    sourcesContent :=
      ← r.orElse? "sourcesContent" [] (Json.Tree.list? (Json.Tree.optional? Json.Tree.text?))
    names := ← r.orElse? "names" [] (Json.Tree.list? Json.Tree.text?)
    mappings := ← r.required? "mappings" Json.Tree.text? }

/-- A document as a value.  A file and a source root that are not there are left out. -/
def toValue (map : SourceMap) : Json :=
  Json.present [
    Json.member "version" (.nat map.version.toNat),
    Json.memberIfSome "file" .string map.file,
    Json.memberIfSome "sourceRoot" .string map.sourceRoot,
    Json.member "sources" (.array (map.sources.map .string)),
    Json.member "sourcesContent" (.array (map.sourcesContent.map Json.stringOrNull)),
    Json.member "names" (.array (map.names.map .string)),
    Json.member "mappings" (.string map.mappings)]

/-- Reads a document from its JSON text. -/
def ofText (text : String) : Except MapError SourceMap :=
  match (Json.parseTree? text).bind ofTree? with
  | some map => .ok map
  | none => .error .malformedJson

def toText (map : SourceMap) : String := map.toValue.compact

end SourceMap
end Inlay
