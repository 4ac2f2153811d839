import Inlay.Stage.Transformer

/-!
What the host sets for a language name, and what a stage is run with.
-/

namespace Inlay

inductive Setting where
  /-- Turns the stage on with its defaults, or off. -/
  | enabled (value : Bool)
  /-- Options for the stage. -/
  | options (value : Json)
  /-- A function in place of the transformer. -/
  | override (function : Transformer)

/-- What a stage is run with. -/
inductive ResolvedOptions where
  /-- The stage is left out and passes its content on. -/
  | disabled
  /-- The function that a setting puts in place of the transformer. -/
  | override (setting : String) (function : Transformer)
  /-- The transformer of the stage runs with options. -/
  | options (value : Json)
deriving Inhabited

namespace Setting

def ofValue : Json → Setting
  | .bool b => .enabled b
  | value => .options value

def isEnabled : Setting → Bool
  | .enabled b => b
  | .options value => !value.isNull
  | .override _ => true

def isOff : Setting → Bool
  | .enabled b => !b
  | _ => false

/-- The setting of a name taken by itself, without defaults. -/
def resolved (name : String) : Setting → ResolvedOptions
  | .enabled true => .options .null
  | .enabled false => .disabled
  | .options value => .options value
  | .override function => .override name function

/-- The value that a setting merges into options. -/
def value : Setting → Json
  | .options value => value
  | _ => .null

end Setting

namespace ResolvedOptions

/-- The options as a value, if there are any. -/
def value? : ResolvedOptions → Option Json
  | .options value => if value.isNull then none else some value
  | _ => none

end ResolvedOptions
end Inlay
