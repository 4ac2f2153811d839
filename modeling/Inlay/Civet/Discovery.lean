import Inlay.Files.Tree
import Inlay.Json.Reader
import Inlay.Stage.Transformer

/-!
Finding the parse options of a Civet file: the field `parseOptions` of the nearest configuration
file at or above the directory of the file.
-/

namespace Inlay
namespace Civet

/-- The names of configuration files, the preferred one first. -/
def configNames : List String := ["civetconfig.json", "civet.config.json"]

def configFile? (files : FileTree) (filename : String) : Option String := do
  let directory ← Path.parent? filename
  files.nearest? (Path.ancestors directory) configNames

/-- The parse options for a file.  A configuration file that cannot be read or parsed is reported
and counts as one without options. -/
def parseOptions (files : FileTree) (filename : String) : Run Notice (Option Json) :=
  match configFile? files filename with
  | none => .done none
  | some path =>
    match files.read? path with
    | none => do
      Run.emit (.warned .civetConfigUnreadable)
      return none
    | some text =>
      match Json.parse? text with
      | none => do
        Run.emit (.warned .civetConfigMalformed)
        return none
      | some config => .done (config.field? "parseOptions")

end Civet
end Inlay
