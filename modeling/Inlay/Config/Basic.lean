import Inlay.Files.Tree
import Inlay.Json.Reader
import Inlay.Json.Record
import Inlay.Options.Resolver

/-!
Configuration files, and finding the nearest one.
-/

namespace Inlay

/-- The configuration of a preprocessor. -/
structure Config where
  /-- The address of a schema, for editors. -/
  schema : Option String := none
  /-- Aliases and the languages that they stand for. -/
  aliases : List (String × String) := []
  /-- Whether stages are asked for source maps. -/
  sourceMap : Bool := false
  /-- Settings by language name. -/
  transformers : Table Setting := .empty
deriving Inhabited

namespace Config

def fileName : String := "vernis.config.json"

/-- The fields of a configuration in their order. -/
def fieldNames : List String := ["$schema", "aliases", "sourceMap", "transformers"]

/-- The levels that a setting may be nested: the configuration and its table of settings are two
levels themselves. -/
def settingLevels : Nat := Json.Tree.levelLimit - 2

def ofTree? (t : Json.Tree) : Option Config := do
  let r ← t.record? fieldNames
  return {
    schema := ← r.orElse? "$schema" none (Json.Tree.optional? Json.Tree.text?)
    aliases :=
      ← r.orElse? "aliases" [] (Json.Tree.list? (Json.Tree.pair? Json.Tree.text? Json.Tree.text?))
    sourceMap := ← r.orElse? "sourceMap" false Json.Tree.flag?
    transformers :=
      ← r.orElse? "transformers" .empty
        (Json.Tree.table? fun t => (t.value? settingLevels).map Setting.ofValue) }

def ofText? (text : String) : Option Config := (Json.parseTree? text).bind ofTree?

def load? (files : FileTree) (path : String) : Option Config := (files.read? path).bind ofText?

/-- The nearest configuration file at or above a path. -/
def find? (files : FileTree) (start : String) : Option String :=
  files.nearest? (Path.ancestors start) [fileName]

/-- A configuration that was looked for, and what there is to report about it. -/
structure Discovered where
  config : Config := {}
  warning : Option Warning := none
deriving Inhabited

/-- The nearest configuration at or above a path.  A file that cannot be loaded is reported, and
counts as an empty configuration, as does its absence. -/
def discover (files : FileTree) (start : String) : Discovered :=
  match find? files start with
  | none => {}
  | some path =>
    match load? files path with
    | some config => { config }
    | none => { warning := some .configIgnored }

def resolver (config : Config) : Resolver :=
  { registry := LanguageRegistry.builtin.addAliases config.aliases
    settings := config.transformers
    sourceMap := config.sourceMap }

end Config
end Inlay
