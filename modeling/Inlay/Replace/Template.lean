import Inlay.Text.Blank
import Inlay.Word

/-!
Texts with references to the groups of a match.

An author writes `$&` for the whole match, `$1` for a numbered and `$<name>` for a named group,
and `$$` for a dollar.  `braced` brings these into the form in which every reference stands in
braces, and `expand` puts the groups in: there `$$` is a dollar and a reference is a number or a
name.  A group that does not exist or took no part in the match gives nothing.
-/

namespace Inlay
namespace Replace

def isDigit (c : Char) : Bool := '0' ≤ c && c ≤ '9'

/-- How far the reading of a reference has come. -/
inductive ReferenceState where
  | text
  | dollar
  | number
  | name

/-- Brings references into braces, going on from a state. -/
def bracedFrom : ReferenceState → List Char → List Char
  | .text, [] => []
  | .dollar, [] => ['$', '$']
  | .number, [] => ['}']
  | .name, [] => ['}']
  | .text, c :: cs => if c = '$' then bracedFrom .dollar cs else c :: bracedFrom .text cs
  | .dollar, c :: cs =>
    if c = '$' then '$' :: '$' :: bracedFrom .text cs
    else if c = '&' then '$' :: '{' :: '0' :: '}' :: bracedFrom .text cs
    else if isDigit c then '$' :: '{' :: c :: bracedFrom .number cs
    else if c = '<' then '$' :: '{' :: bracedFrom .name cs
    else '$' :: '$' :: c :: bracedFrom .text cs
  | .number, c :: cs =>
    if isDigit c then c :: bracedFrom .number cs
    else if c = '$' then '}' :: bracedFrom .dollar cs
    else '}' :: c :: bracedFrom .text cs
  | .name, c :: cs => if c = '>' then '}' :: bracedFrom .text cs else c :: bracedFrom .name cs

/-- Brings the references of a replacement into braces.  A dollar that starts none is doubled; the
name of a reference that is not closed goes on to the end. -/
def braced (replacement : List Char) : List Char := bracedFrom .text replacement

/-! ## Expansion -/

/-- A reference: a group by its number or by its name. -/
inductive Reference where
  | number (index : Nat)
  | name (text : List Char)
deriving Repr, DecidableEq

/-- The texts of the groups of a match. -/
structure Groups where
  numbered : Nat → Option (List Char)
  named : List Char → Option (List Char)

/-- The number that a reference names: digits, possibly behind a plus. -/
def groupNumber? (name : List Char) : Option Nat :=
  let digits :=
    match name with
    | '+' :: rest => rest
    | rest => rest
  if digits.isEmpty || !digits.all isDigit then none
  else
    let n := digits.foldl (fun sum c => sum * 10 + (c.toNat - 0x30)) 0
    if n < word64Limit then some n else none

def Reference.ofName (name : List Char) : Reference :=
  match groupNumber? name with
  | some n => .number n
  | none => .name name

def Groups.resolve (groups : Groups) : Reference → List Char
  | .number index => (groups.numbered index).getD []
  | .name text => (groups.named text).getD []

/-- Whether a character may stand in a reference without braces. -/
def isBareNameChar (c : Char) : Bool :=
  isDigit c || ('a' ≤ c && c ≤ 'z') || ('A' ≤ c && c ≤ 'Z') || c = '_'

/-- Reads a reference behind its dollar: in braces, or the longest run of letters, digits and
underscores. -/
def readReference? (cs : List Char) : Option (Reference × List Char) :=
  match cs with
  | '{' :: body =>
    match body.dropWhile fun c => c ≠ '}' with
    | _ :: rest => some (.ofName (body.takeWhile fun c => c ≠ '}'), rest)
    | [] => none
  | _ =>
    let name := cs.takeWhile isBareNameChar
    if name.isEmpty then none else some (.ofName name, cs.dropWhile isBareNameChar)

/-- Puts the groups in for the references, for at most `fuel` characters of a template. -/
def expandWithin (groups : Groups) : Nat → List Char → List Char
  | 0, _ => []
  | _, [] => []
  | fuel + 1, c :: cs =>
    if c ≠ '$' then c :: expandWithin groups fuel cs
    else
      match cs with
      | '$' :: rest => '$' :: expandWithin groups fuel rest
      | _ =>
        match readReference? cs with
        | some (r, rest) => groups.resolve r ++ expandWithin groups fuel rest
        | none => '$' :: expandWithin groups fuel cs

/-- Puts the groups of a match in for the references of a template. -/
def expand (groups : Groups) (template : List Char) : List Char :=
  expandWithin groups template.length template

end Replace
end Inlay
