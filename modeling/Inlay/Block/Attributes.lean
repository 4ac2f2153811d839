import Inlay.Table
import Inlay.Json.Record

/-!
The attributes of a block's tag: a text such as `lang="ts"`, or a bare flag such as `global`.
-/

namespace Inlay

inductive AttributeValue where
  | flag (value : Bool)
  | text (value : String)
deriving Repr, DecidableEq, Inhabited

/-- The attributes of a tag by name. -/
abbrev Attributes := Table AttributeValue

namespace AttributeValue

def text? : AttributeValue → Option String
  | .text value => some value
  | .flag _ => none

def toValue : AttributeValue → Json
  | .flag value => .bool value
  | .text value => .string value

def ofTree? : Json.Tree → Option AttributeValue
  | .bool value => some (.flag value)
  | .string (some value) => some (.text value)
  | _ => none

end AttributeValue

namespace Attributes

def announcedLanguage (attributes : Attributes) : Option String :=
  (attributes.get? "lang").bind (·.text?)

def toValue (attributes : Attributes) : Json :=
  .object (attributes.entries.map fun (name, value) => (name, value.toValue))

def ofTree? (t : Json.Tree) : Option Attributes := t.table? AttributeValue.ofTree?

end Attributes
end Inlay
