import Inlay.Json.Tree
import Inlay.Word

/-!
Reading records out of a syntax tree.

A record has named fields in a fixed order.  It is written as an object, in which other keys are
ignored and a field must not occur twice, or as an array of its fields in order, which may leave
out fields at the end and must not go on behind the last.
-/

namespace Inlay
namespace Json

/-- The fields that a record text gives, by name. -/
abbrev Record := List (String × Tree)

/-- Collects the members that are fields of the record.  Nothing when a key has no value or a
field occurs twice. -/
def collectFields? (names : List String) :
    List (Option String × Tree) → Record → Option Record
  | [], seen => some seen
  | (none, _) :: _, _ => none
  | (some key, item) :: rest, seen =>
    if key ∈ names then
      if (Entries.get? key seen).isSome then none
      else collectFields? names rest (seen ++ [(key, item)])
    else collectFields? names rest seen

namespace Tree

/-- The fields of a record, given the names of all its fields. -/
def record? (names : List String) : Tree → Option Record
  | .object members => collectFields? names members []
  | .array items => if items.length ≤ names.length then some (names.zip items) else none
  | _ => none

def text? : Tree → Option String
  | .string (some s) => some s
  | _ => none

def flag? : Tree → Option Bool
  | .bool b => some b
  | _ => none

def word32? : Tree → Option Nat
  | .number (some (.integer n)) => if 0 ≤ n ∧ n < word32Limit then some n.toNat else none
  | _ => none

/-- A value or null. -/
def optional? {α : Type} (read : Tree → Option α) : Tree → Option (Option α)
  | .null => some none
  | t => (read t).map some

def list? {α : Type} (read : Tree → Option α) : Tree → Option (List α)
  | .array items => items.mapM read
  | _ => none

def pair? {α β : Type} (first : Tree → Option α) (second : Tree → Option β) :
    Tree → Option (α × β)
  | .array [a, b] => do return (← first a, ← second b)
  | _ => none

/-- A table of values, in which the last of several members with one key wins. -/
def table? {α : Type} (read : Tree → Option α) : Tree → Option (Table α)
  | .object members => do
    let entries ← members.mapM fun (key, item) => do return (← key, ← read item)
    return Table.ofList entries
  | _ => none

end Tree

def Record.required? {α : Type} (r : Record) (name : String) (read : Tree → Option α) : Option α :=
  (Entries.get? name r).bind read

/-- A field that has a value of its own when it is not given. -/
def Record.orElse? {α : Type} (r : Record) (name : String) (fallback : α)
    (read : Tree → Option α) : Option α :=
  match Entries.get? name r with
  | none => some fallback
  | some t => read t

/-- The members of an object that are present. -/
def present (members : List (Option (String × Json))) : Json := .object (members.filterMap id)

/-- A member that is always written. -/
def member (name : String) (value : Json) : Option (String × Json) := some (name, value)

/-- A member that is written only when there is a value. -/
def memberIfSome {α : Type} (name : String) (write : α → Json) (value : Option α) :
    Option (String × Json) :=
  value.map fun v => (name, write v)

/-- A member that is written only when the list has items. -/
def memberIfAny {α : Type} (name : String) (write : α → Json) (items : List α) :
    Option (String × Json) :=
  if items.isEmpty then none else some (name, .array (items.map write))

end Json
end Inlay
