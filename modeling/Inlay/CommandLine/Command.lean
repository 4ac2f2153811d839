import Inlay.CommandLine.Arguments
import Inlay.Config.Basic
import Inlay.SourceMap.Chain

/-!
The commands: chaining two source map files, and reporting how a language name resolves.

A command reads files and then gives a report: a text for the output, or a text for a file.  A
failure gives no report and changes no file.
-/

namespace Inlay
namespace CommandLine

inductive Command where
  | chain (first second : String) (indentation : Nat) (output : Option String)
  | resolve (name : String) (config : Option String)
  | version
  | help
deriving Repr, Inhabited

def chainSpec : CommandSpec where
  options := [⟨"indentation", none, fun value => (word32? value).isSome⟩, ⟨"output", 'o', isPath⟩]
  operands := [isPath, isPath]

def resolveSpec : CommandSpec where
  options := [⟨"config", 'c', isPath⟩]
  operands := [fun _ => true]

def Parsed.toCommand (p : Parsed Given) (build : Given → Option Command) : Option Command :=
  match p with
  | .command g => build g
  | .help => some .help
  | .usageError => none

def readChain (args : List String) : Option Command :=
  (chainSpec.read args).toCommand fun g =>
    match g.operands with
    | [first, second] =>
      some (.chain first second (((g.option? "indentation").bind word32?).getD 0)
        (g.option? "output"))
    | _ => none

def readResolve (args : List String) : Option Command :=
  (resolveSpec.read args).toCommand fun g =>
    match g.operands with
    | [name] => some (.resolve name (g.option? "config"))
    | _ => none

def commandNames : List String := ["chain", "trame", "resolve", "help"]

/-- The command that the arguments ask for, or nothing when they are not understood. -/
def readCommand : List String → Option Command
  | [] => none
  | first :: rest =>
    if first = "chain" || first = "trame" then readChain rest
    else if first = "resolve" then readResolve rest
    else if first = "help" then
      if rest.length ≤ 1 && rest.all commandNames.contains then some .help else none
    else if first = "--version" || "-V".isPrefixOf first then some .version
    else if first = "--help" || "-h".isPrefixOf first then some .help
    else none

/-- What a command gives: text for the output, or text for the file at a path. -/
inductive Report where
  | printed (text : String)
  | saved (path text : String)
deriving Repr, DecidableEq

def versionText : String := "vernis 0.1.0"

def helpText : String :=
  "Embedded-language preprocessing for component files\n\nUsage: vernis <COMMAND>\n\n" ++
    "Commands:\n  chain    Compose two source maps into one [aliases: trame]\n" ++
    "  resolve  Show the language and options a block alias resolves to\n" ++
    "  help     Print this message or the help of the given subcommand(s)"

def chainFiles? (files : FileTree) (first second : String) (indentation : Nat) :
    Option String := do
  let firstText ← files.read? first
  let earlier ← (SourceMap.ofText firstText).toOption
  let laterText ← files.read? second
  let chained ← (SourceMap.chain (some earlier) (some (.text laterText)) indentation).toOption
  return (chained.getD earlier).toText

def shownOptions : ResolvedOptions → Json
  | .options value => value
  | .disabled => .bool false
  | .override _ _ => .string "<function>"

/-- The report about a language name: the language that it stands for, and the options of its
stage. -/
def resolution (config : Config) (name : String) : Json :=
  let resolver := config.resolver
  let language := resolver.registry.canonical name
  .object [("alias", .string name), ("lang", .string language),
    ("options", shownOptions (resolver.resolve language (some name) false))]

def workingPath (files : FileTree) : String := "/" ++ "/".intercalate files.workingDirectory

/-- The configuration at a path, or the nearest one when there is no path. -/
def configFor? (files : FileTree) : Option String → Option Config
  | some path => Config.load? files path
  | none => some (Config.discover files (workingPath files)).config

/-- The report of a command, or nothing when it fails. -/
def Command.report? (files : FileTree) : Command → Option Report
  | .chain first second indentation output => do
    let text ← chainFiles? files first second indentation
    match output with
    | some path => return .saved path text
    | none => return .printed text
  | .resolve name config => do
    let config ← configFor? files config
    return .printed (resolution config name).pretty
  | .version => some (.printed versionText)
  | .help => some (.printed helpText)

/-- The paths of the files that a command looks at. -/
def Command.paths (workingDirectory : String) : Command → List String
  | .chain first second _ _ => [first, second]
  | .resolve _ (some path) => [path]
  | .resolve _ none =>
    (Path.ancestors workingDirectory).map fun directory => Path.join directory Config.fileName
  | .version => []
  | .help => []

/-- How a command ends: its exit status, what it prints, and the files afterwards. -/
structure Ending where
  status : Nat
  printed : String
  files : FileTree
deriving Repr, Inhabited

def success : Nat := 0

def failure : Nat := 1

def usage : Nat := 2

def Report.carryOut (files : FileTree) : Report → Ending
  | .printed text => ⟨success, text ++ "\n", files⟩
  | .saved path text =>
    match files.write? path text with
    | some files => ⟨success, "", files⟩
    | none => ⟨failure, "", files⟩

/-- Runs the command that the arguments ask for. -/
def run (args : List String) (files : FileTree) : Ending :=
  match readCommand args with
  | none => ⟨usage, "", files⟩
  | some command =>
    match command.report? files with
    | none => ⟨failure, "", files⟩
    | some report => report.carryOut files

end CommandLine
end Inlay
