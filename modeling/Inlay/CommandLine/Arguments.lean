import Inlay.Text.Search
import Inlay.Word

/-!
The arguments of the command line.

A command has named options, each of which takes one value, and a fixed number of further
arguments.  A value follows its option as the next argument or behind an equals sign, and directly
behind a short option.  Behind `--` nothing is an option any more.  A request for help ends the
reading of the arguments.
-/

namespace Inlay
namespace CommandLine

structure OptionSpec where
  long : String
  short : Option Char := none
  accepts : String → Bool

structure CommandSpec where
  options : List OptionSpec
  /-- For each further argument, which values it takes. -/
  operands : List (String → Bool)

structure Given where
  options : List (String × String) := []
  operands : List String := []
deriving Repr, Inhabited

inductive Parsed (α : Type) where
  | command (value : α)
  | help
  | usageError
deriving Repr, Inhabited

namespace CommandSpec

def ofLong? (spec : CommandSpec) (name : String) : Option OptionSpec :=
  spec.options.find? fun o => o.long = name

def ofShort? (spec : CommandSpec) (name : Char) : Option OptionSpec :=
  spec.options.find? fun o => o.short = some name

/-- Adds the value of an option, which may be given only once. -/
def addOption (g : Given) (o : OptionSpec) (value : String) : Option Given :=
  if (g.options.any fun entry => entry.1 = o.long) || !o.accepts value then none
  else some { g with options := g.options ++ [(o.long, value)] }

def addOperand (spec : CommandSpec) (g : Given) (value : String) : Option Given :=
  match spec.operands[g.operands.length]? with
  | some accepts =>
    if accepts value then some { g with operands := g.operands ++ [value] } else none
  | none => none

def addOperands (spec : CommandSpec) (g : Given) (values : List String) : Option Given :=
  values.foldlM spec.addOperand g

def looksLikeOption (arg : String) : Bool :=
  match arg.toList with
  -- A hyphen alone is a value.
  | '-' :: _ :: _ => true
  | _ => false

/-- A long option: its name, and the value behind its equals sign. -/
def splitLong (body : List Char) : String × Option String :=
  match Text.cutAtFirst? '=' body with
  | some (name, value) => (String.ofList name, some (String.ofList value))
  | none => (String.ofList body, none)

/-- The value that stands directly behind a short option, without an equals sign in front. -/
def attached (rest : List Char) : Option String :=
  match rest with
  | [] => none
  | '=' :: value => some (String.ofList value)
  | value => some (String.ofList value)

/-- What one argument with the form of an option asks for. -/
inductive Request where
  | option (o : OptionSpec) (value : Option String)
  | help
  | unknown

def request (spec : CommandSpec) (arg : String) : Request :=
  match arg.toList with
  | '-' :: '-' :: body =>
    let (name, value) := splitLong body
    match spec.ofLong? name with
    | some o => .option o value
    | none => if name = "help" && value.isNone then .help else .unknown
  | '-' :: c :: rest =>
    match spec.ofShort? c with
    | some o => .option o (attached rest)
    | none => if c = 'h' then .help else .unknown
  | _ => .unknown

/-- Reads the arguments of a command, of which at most `fuel` are read. -/
def readWithin (spec : CommandSpec) (g : Given) : Nat → List String → Parsed Given
  | 0, _ => .usageError
  | _, [] => .command g
  | fuel + 1, arg :: rest =>
    if arg = "--" then
      match spec.addOperands g rest with
      | some g => .command g
      | none => .usageError
    else if looksLikeOption arg then
      match spec.request arg with
      | .help => .help
      | .unknown => .usageError
      | .option o (some value) =>
        match addOption g o value with
        | some g => readWithin spec g fuel rest
        | none => .usageError
      | .option o none =>
        match rest with
        | [] => .usageError
        | value :: more =>
          if looksLikeOption value then .usageError
          else
            match addOption g o value with
            | some g => readWithin spec g fuel more
            | none => .usageError
    else
      match spec.addOperand g arg with
      | some g => readWithin spec g fuel rest
      | none => .usageError

/-- Reads the arguments of a command, all of whose further arguments must be given. -/
def read (spec : CommandSpec) (args : List String) : Parsed Given :=
  match spec.readWithin {} (args.length + 1) args with
  | .command g => if g.operands.length = spec.operands.length then .command g else .usageError
  | other => other

end CommandSpec

def Given.option? (g : Given) (name : String) : Option String :=
  (g.options.find? fun entry => entry.1 = name).map (·.2)

/-- Whether a text is not empty, as every path must be. -/
def isPath (value : String) : Bool := value ≠ ""

/-- The natural number below `2 ^ 32` that a text writes, with or without a sign. -/
def word32? (value : String) : Option Nat :=
  let (negative, digits) : Bool × List Char :=
    match value.toList with
    | '+' :: rest => (false, rest)
    | '-' :: rest => (true, rest)
    | rest => (false, rest)
  if digits.isEmpty || !(digits.all fun c => '0' ≤ c && c ≤ '9') then none
  else
    let n := digits.foldl (fun sum c => sum * 10 + (c.toNat - 0x30)) 0
    -- Zero is the only natural number with a minus.
    if negative then (if n = 0 then some 0 else none) else if n < word32Limit then some n else none

end CommandLine
end Inlay
