import Inlay.Language.Registry
import Inlay.Options.Setting

/-!
Resolving the options of a stage.

A function override of the name as written goes before one of the language, and either before
everything else.  A stage whose language or written name is turned off is disabled.  Otherwise the
options are merged key by key, the later of these winning: the options of the language, its
defaults, the defaults of the written name, the options of the written name if it is another one,
and the request for a source map.
-/

namespace Inlay

/-- The settings of a preprocessor and the registry of its languages. -/
structure Resolver where
  registry : LanguageRegistry
  settings : Table Setting
  sourceMap : Bool

namespace Resolver

/-- Whether a name has a setting that asks for its stage. -/
def isConfigured (r : Resolver) (name : String) : Bool :=
  ((r.settings.get? name).map Setting.isEnabled).getD false

def override? (r : Resolver) (name : String) : Option Transformer :=
  match r.settings.get? name with
  | some (.override function) => some function
  | _ => none

def isOff (r : Resolver) (name : String) : Bool :=
  ((r.settings.get? name).map Setting.isOff).getD false

/-- The options that a name is configured with; null if there are none. -/
def configured (r : Resolver) (name : String) : Json :=
  ((r.settings.get? name).map Setting.value).getD .null

/-- The fields of the options, with the request for a source map if one is wanted. -/
def withSourceMap (r : Resolver) (language : String) (fields : Json.Fields) : Json.Fields :=
  if r.sourceMap then
    match sourceMapOption? language with
    | some (path, value) => Json.setPath path value fields
    | none => fields
  else fields

/-- The merged options of a language and the name that it is written as. -/
def merged (r : Resolver) (language : String) (written : Option String) : Json.Fields :=
  -- Every step overwrites those before it, so defaults win over the options of the language.
  let ofLanguage := Json.merge [] (r.configured language)
  let withDefaults := Entries.insertAll ofLanguage (r.registry.defaultsOf language)
  let ofWritten :=
    match written with
    | none => withDefaults
    | some name =>
      let fields := Entries.insertAll withDefaults (r.registry.defaultsOf name)
      if name = language then fields else Json.merge fields (r.configured name)
  r.withSourceMap language ofWritten

/-- The override that applies: that of the written name unless it is to be ignored, else that of
the language. -/
def overrideFor? (r : Resolver) (language : String) (written : Option String)
    (ignoreWritten : Bool) : Option (String × Transformer) :=
  let ofLanguage := (r.override? language).map fun f => (language, f)
  match written with
  | none => ofLanguage
  | some name =>
    if ignoreWritten then ofLanguage
    else match r.override? name with
      | some f => some (name, f)
      | none => ofLanguage

/-- The options of a stage for a language and the name that it is written as.  A function override
of the written name can be ignored. -/
def resolve (r : Resolver) (language : String) (written : Option String)
    (ignoreWritten : Bool) : ResolvedOptions :=
  match r.overrideFor? language written ignoreWritten with
  | some (name, f) => .override name f
  | none =>
    if r.isOff language || (written.map r.isOff).getD false then .disabled
    else .options (.object (r.merged language written))

/-- The options of a stage that no block declares. -/
def resolveStage (r : Resolver) (stage : String) : ResolvedOptions := r.resolve stage none false

end Resolver
end Inlay
