import Inlay.Json.Record

/-!
Positions in files and the diagnostics that stages attach to them.
-/

namespace Inlay

/-- A position in a file.  Lines count from one and columns from zero. -/
structure Position where
  line : Nat
  column : Nat
deriving Repr, DecidableEq, Inhabited

namespace Position

/-- The first column of the line in front of the file. -/
def origin : Position := ⟨0, 0⟩

def toValue (p : Position) : Json :=
  .object [("line", .nat p.line), ("column", .nat p.column)]

def ofTree? (t : Json.Tree) : Option Position := do
  let r ← t.record? ["line", "column"]
  return ⟨← r.required? "line" Json.Tree.word32?, ← r.required? "column" Json.Tree.word32?⟩

end Position

inductive Severity where
  | error
  | warning
  | info
deriving Repr, DecidableEq, Inhabited

namespace Severity

def name : Severity → String
  | .error => "error"
  | .warning => "warning"
  | .info => "info"

def ofName? (name : String) : Option Severity :=
  [Severity.error, .warning, .info].find? fun s => s.name = name

def ofTree? : Json.Tree → Option Severity
  | .string (some s) => ofName? s
  | .object [(some s, .null)] => ofName? s
  | _ => none

end Severity

/-- A report of a stage, such as that of a type checker. -/
structure Diagnostic where
  message : String
  severity : Severity := .error
  code : Option String := none
  start : Option Position := none
  stop : Option Position := none
deriving Repr, DecidableEq, Inhabited

namespace Diagnostic

/-- The fields of a diagnostic in their order. -/
def fieldNames : List String := ["message", "severity", "code", "start", "end"]

def toValue (d : Diagnostic) : Json :=
  Json.present [
    Json.member "message" (.string d.message),
    Json.member "severity" (.string d.severity.name),
    Json.memberIfSome "code" .string d.code,
    Json.memberIfSome "start" Position.toValue d.start,
    Json.memberIfSome "end" Position.toValue d.stop]

def ofTree? (t : Json.Tree) : Option Diagnostic := do
  let r ← t.record? fieldNames
  return {
    message := ← r.required? "message" Json.Tree.text?
    severity := ← r.orElse? "severity" .error Severity.ofTree?
    code := ← r.orElse? "code" none (Json.Tree.optional? Json.Tree.text?)
    start := ← r.orElse? "start" none (Json.Tree.optional? Position.ofTree?)
    stop := ← r.orElse? "end" none (Json.Tree.optional? Position.ofTree?) }

end Diagnostic

/-- An error of a compiler at a position of the file. -/
structure LocatedError where
  message : String
  filename : Option String := none
  start : Position
  stop : Position
deriving Repr, DecidableEq, Inhabited

namespace LocatedError

/-- The fields of a located error in their order. -/
def fieldNames : List String := ["message", "filename", "start", "end"]

/-- The error in one line: its message and where it starts. -/
def display (e : LocatedError) : String :=
  e.message ++ " (" ++ toString e.start.line ++ ":" ++ toString e.start.column ++ ")"

def toValue (e : LocatedError) : Json :=
  Json.present [
    Json.member "message" (.string e.message),
    Json.memberIfSome "filename" .string e.filename,
    Json.member "start" e.start.toValue,
    Json.member "end" e.stop.toValue]

def ofTree? (t : Json.Tree) : Option LocatedError := do
  let r ← t.record? fieldNames
  return {
    message := ← r.required? "message" Json.Tree.text?
    filename := ← r.orElse? "filename" none (Json.Tree.optional? Json.Tree.text?)
    start := ← r.required? "start" Position.ofTree?
    stop := ← r.required? "end" Position.ofTree? }

end LocatedError
end Inlay
