import Inlay.Json.Value
import Inlay.Table

/-!
Language names: which names are aliases, and which options a name has by default.

An alias stands for one language and is followed only once.  Aliases and defaults that are added
take the place of built-in ones, each table on its own.
-/

namespace Inlay

/-- The aliases of languages and the default options of names. -/
structure LanguageRegistry where
  aliases : Table String
  defaults : Table Json.Fields
deriving Inhabited

namespace LanguageRegistry

/-- The aliases that every registry starts with. -/
def builtinAliases : List (String × String) :=
  [("pcss", "css"), ("postcss", "css"), ("sugarss", "css"), ("sss", "css"), ("sass", "scss"),
   ("styl", "stylus"), ("js", "javascript"), ("coffee", "coffeescript"), ("ts", "typescript"),
   ("civet", "civet")]

/-- The default options that a name has unless others are set. -/
def builtinDefaults (name : String) : Json.Fields :=
  if name = "sass" then [("indentedSyntax", .bool true), ("stripIndent", .bool true)]
  else if name ∈ ["pug", "coffeescript", "stylus", "sugarss", "civet"] then
    [("stripIndent", .bool true)]
  else []

def builtin : LanguageRegistry := ⟨Table.ofList builtinAliases, .empty⟩

/-- Adds aliases, of which later ones win. -/
def addAliases (r : LanguageRegistry) (entries : List (String × String)) : LanguageRegistry :=
  { r with aliases := r.aliases.insertAll entries }

/-- Sets the default options of a name as a whole. -/
def setDefaults (r : LanguageRegistry) (name : String) (options : Json.Fields) :
    LanguageRegistry :=
  { r with defaults := r.defaults.insert name options }

/-- The language that a name stands for: itself, if it is no alias. -/
def canonical (r : LanguageRegistry) (name : String) : String := (r.aliases.get? name).getD name

def defaultsOf (r : LanguageRegistry) (name : String) : Json.Fields :=
  (r.defaults.get? name).getD (builtinDefaults name)

def isAliasOf (r : LanguageRegistry) (name language : String) : Bool := r.canonical name = language

end LanguageRegistry

/-- The option by which a language is asked for a source map: its path, and the value to set. -/
def sourceMapOption? (language : String) : Option (List String × Json) :=
  if language = "babel" then some (["sourceMaps"], .bool true)
  else if language ∈ ["typescript", "scss", "coffeescript", "globalStyle", "civet"] then
    some (["sourceMap"], .bool true)
  else if language = "less" then some (["sourceMap"], .object [])
  else if language = "stylus" then some (["sourcemap"], .bool true)
  else if language = "postcss" then some (["map"], .bool true)
  else none

end Inlay
