import Inlay.CommandLine.Command

/-!
The command line program: it reads the files that the command names, and prints or saves the
report.
-/

namespace Inlay
namespace CommandLine

/-- The file at a path as it stands on the disk; anything that cannot be read counts as absent. -/
def snapshotFile (path : String) : IO (Option FileContent) := do
  try
    let bytes ← IO.FS.readBinFile path
    return some ((String.fromUTF8? bytes).elim .binary .text)
  catch _ => return none

/-- The files at some paths, as a file tree. -/
def snapshot (workingDirectory : Place) (paths : List String) : IO FileTree := do
  let mut files : FileTree := ⟨[], workingDirectory⟩
  files := files.makeDirectories workingDirectory
  for path in paths do
    if let some content ← snapshotFile path then
      files := files.putAlong path (.file content)
  return files

/-- Prints or saves a report, and gives the exit status. -/
def deliver : Report → IO Nat
  | .printed text => do
    IO.println text
    return success
  | .saved path text => do
    try
      IO.FS.writeFile path text
      return success
    catch _ => return failure

end CommandLine
end Inlay

open Inlay.CommandLine in
/-- Runs the command that the arguments ask for. -/
def main (args : List String) : IO UInt32 := do
  match readCommand args with
  | none =>
    IO.eprintln "error: the arguments are not understood; try --help"
    return usage.toUInt32
  | some command =>
    let directory := (← IO.currentDir).toString
    let files ← snapshot (Inlay.Path.components directory) (command.paths directory)
    match command.report? files with
    | some report => return (← deliver report).toUInt32
    | none =>
      IO.eprintln "error: the command failed"
      return failure.toUInt32
