import Inlay.Table
import Inlay.Decimal.Binary64

/-!
JSON values, and the operations on option objects.

The fields of an object stand in increasing order of their keys.  A number keeps its kind: an
integer, or a binary floating point number.

An options object is read and written by key paths.  `setPath` writes at a path and makes an
object of everything on the way, `getPath?` reads at a path and walks objects only, and `merge`
overwrites key by key.
-/

namespace Inlay

/-- A number: an integer, or a number with a fraction or an exponent. -/
inductive JsonNumber where
  | integer (value : Int)
  | decimal (value : Binary64)
deriving Repr, DecidableEq, Inhabited

inductive Json where
  | null
  | bool (value : Bool)
  | number (value : JsonNumber)
  | string (value : String)
  | array (items : List Json)
  | object (fields : List (String × Json))
deriving Inhabited

namespace Json

abbrev Fields := List (String × Json)

def int (n : Int) : Json := .number (.integer n)

def nat (n : Nat) : Json := int n

/-- The text or, in its absence, null. -/
def stringOrNull : Option String → Json
  | some s => .string s
  | none => .null

/-- The field of an object; other values have none. -/
def field? (key : String) : Json → Option Json
  | .object fields => Entries.get? key fields
  | _ => none

def bool? : Json → Option Bool
  | .bool b => some b
  | _ => none

def string? : Json → Option String
  | .string s => some s
  | _ => none

def isNull : Json → Bool
  | .null => true
  | _ => false

/-- The fields of an object, and none for any other value. -/
def fieldsOrEmpty : Option Json → Fields
  | some (.object fields) => fields
  | _ => []

/-! ## Option objects -/

/-- Writes a value at a path of keys.  Whatever stands on the way and is no object gives way to
one; the empty path changes nothing. -/
def setPath : List String → Json → Fields → Fields
  | [], _, fields => fields
  | [key], value, fields => Entries.insert key value fields
  | key :: next :: path, value, fields =>
    let inner := fieldsOrEmpty (Entries.get? key fields)
    Entries.insert key (.object (setPath (next :: path) value inner)) fields

/-- Reads the value at a path of keys, through objects only. -/
def getPath? : List String → Fields → Option Json
  | [], fields => some (.object fields)
  | [key], fields => Entries.get? key fields
  | key :: next :: path, fields =>
    match Entries.get? key fields with
    | some (.object inner) => getPath? (next :: path) inner
    | _ => none

/-- Overwrites the target with every field of an object; other values change nothing. -/
def merge (target : Fields) : Json → Fields
  | .object fields => Entries.insertAll target fields
  | _ => target

/-- Whether the options have the value `true` under a key. -/
def flag (options : Option Json) (key : String) : Bool :=
  ((options.bind (field? key)).bind bool?).getD false

@[simp] theorem setPath_nil (value : Json) (fields : Fields) : setPath [] value fields = fields :=
  rfl

end Json
end Inlay
