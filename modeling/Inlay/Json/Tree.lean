import Inlay.Json.Value

/-!
The syntax tree of a JSON text.

A tree keeps what a value cannot hold: repeated keys in their order, numbers that are too large,
and strings whose escapes name half of a surrogate pair.  These are well-formed JSON, and a reader
that ignores a field accepts them there; `Tree.value?` gives the value of a tree that has one.
-/

namespace Inlay
namespace Json

/-- A parsed JSON text.  A number without a value is out of range; a string without a value
contains a lone surrogate. -/
inductive Tree where
  | null
  | bool (value : Bool)
  | number (value : Option JsonNumber)
  | string (value : Option String)
  | array (items : List Tree)
  | object (members : List (Option String × Tree))
deriving Inhabited

namespace Tree

/-- The number of levels that a value which is kept may be nested. -/
def levelLimit : Nat := 127

mutual

/-- The value of a tree nested at most `levels` deep.  The last of several fields with one key
wins. -/
def value? (levels : Nat) : Tree → Option Json
  | .null => some .null
  | .bool b => some (.bool b)
  | .number n => n.map .number
  | .string s => s.map .string
  | .array items =>
    match levels with
    | 0 => none
    | inner + 1 => (values? inner items).map .array
  | .object members =>
    match levels with
    | 0 => none
    | inner + 1 =>
      (fieldValues? inner members).map fun fields => .object (Entries.insertAll [] fields)

def values? (levels : Nat) : List Tree → Option (List Json)
  | [] => some []
  | item :: rest =>
    match value? levels item, values? levels rest with
    | some v, some vs => some (v :: vs)
    | _, _ => none

/-- The values of the members of an object, in the order of the text. -/
def fieldValues? (levels : Nat) : List (Option String × Tree) → Option Fields
  | [] => some []
  | (key, item) :: rest =>
    match key, value? levels item, fieldValues? levels rest with
    | some k, some v, some fields => some ((k, v) :: fields)
    | _, _, _ => none

end

end Tree
end Json
end Inlay
