import Inlay.Text.Blank
import Inlay.Text.Lines

/-!
Condensing long messages of parsers.

A long message has lines in front, a line `Expected:`, one line for each expectation, and a last
part that starts with `Found:`.  The summary keeps what stands around the expectations and lists
at most five of them: the first of each category, where some categories go before the others.
-/

namespace Inlay
namespace ParseSummary

/-- Messages with at most this many lines are not condensed. -/
def shortMessage : Nat := 8

def maxListed : Nat := 5

def expectedMark : String := "Expected:"

/-- How the line behind the expectations starts. -/
def foundMark : String := "Found:"

/-- The categories that are listed first, in this order. -/
def priorities : List String :=
  ["Identifier", "IdentifierName", "Expression", "StringLiteral", "NumericLiteral", "Keyword",
   "Operator", "Punctuator", "EOS"]

/-- The category of an expectation: its first word. -/
def category (entry : List Char) : List Char := Text.firstWord entry

/-- The rank of an expectation among the categories that go first. -/
def rank (entry : List Char) : Nat := priorities.idxOf (String.ofList (category entry))

/-- Keeps the first expectation of each category. -/
def firstOfEach (entries : List (List Char)) : List (List Char) :=
  (entries.foldl
    (fun kept entry =>
      if kept.any fun k => category k = category entry then kept else entry :: kept) []).reverse

def isExpected (line : List Char) : Bool := Text.trim line = expectedMark.toList

def isFound (line : List Char) : Bool := foundMark.toList.isPrefixOf (Text.trimStart line)

def lastFound? (lines : List (List Char)) : Option Nat :=
  (lines.reverse.findIdx? isFound).map fun i => lines.length - 1 - i

/-- The expectations between two lines, each trimmed, without blank ones. -/
def expectations (lines : List (List Char)) (expected found : Nat) : List (List Char) :=
  ((((lines.take found).drop (expected + 1)).map Text.trim).filter fun entry => entry ≠ [])

/-- The expectations that are listed, in their order. -/
def listed (entries : List (List Char)) : List (List Char) :=
  ((firstOfEach entries).mergeSort fun a b => rank a ≤ rank b).take maxListed

/-- The summary of a message, or nothing when it is short or has another shape. -/
def summary? (message : String) : Option String :=
  let lines := Text.lines message.toList
  if lines.length ≤ shortMessage then none
  else
    match lines.findIdx? isExpected, lastFound? lines with
    | some expected, some found =>
      let entries := expectations lines expected found
      if found ≤ expected || entries.isEmpty then none
      else
        let body := lines.take expected ++ ["Expected one of:".toList] ++
          (listed entries).map (fun entry => ' ' :: ' ' :: entry) ++ lines.drop found
        some (String.ofList (Text.joinWith ['\n'] body))
    | _, _ => none

end ParseSummary
end Inlay
