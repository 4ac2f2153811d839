import Inlay.Json.Writer
import Inlay.Regex.Engine
import Inlay.Replace.Template
import Inlay.Text.Search

/-!
Replacement rules.

A rule has a pattern and a replacement.  A pattern between slashes, with letters for its modes
behind it, is a regular expression, which an engine compiles and matches; any other text stands for
itself, and its first occurrence is replaced as it is written.
-/

namespace Inlay
namespace Replace

/-! ## The notation of rules -/

/-- The letters that may stand behind a regular expression. -/
def modeLetters : List Char := ['g', 'i', 'm', 's', 'u', 'y']

/-- The body and the letters of a pattern between slashes.  The last slash closes the body, which
must not be empty. -/
def splitSlashes? (pattern : List Char) : Option (List Char × List Char) :=
  match pattern with
  | '/' :: rest =>
    match Text.cutAtLast? '/' rest with
    | some (body, letters) =>
      if body ≠ [] && letters.all modeLetters.contains then some (body, letters) else none
    | none => none
  | _ => none

def modesOf (letters : List Char) : Regex.Modes :=
  { ignoreCase := letters.contains 'i', multiLine := letters.contains 'm',
    dotAll := letters.contains 's' }

/-! ## Rules -/

/-- A rule that is ready to be applied. -/
inductive Rule (engine : Regex.Engine) where
  /-- Replaces the first occurrence of a text. -/
  | literal (pattern replacement : List Char)
  /-- Replaces the first match, or every match, of a regular expression.  The references of the
  template stand in braces. -/
  | regex (program : engine.Program) (everywhere : Bool) (template : List Char)

/-- Why a list of rules cannot be used. -/
inductive RuleError where
  | notAList
  | invalidRule (entry : Json)
  /-- The engine does not compile the pattern, and says why. -/
  | invalidPattern (pattern cause : String)

def RuleError.message : RuleError → String
  | .notAList => "options must be a list of [pattern, replacement] pairs"
  | .invalidRule entry => "invalid rule " ++ entry.compact ++ ", expected [pattern, replacement]"
  | .invalidPattern pattern cause => "invalid pattern " ++ pattern ++ ": " ++ cause

/-- The rule of a pattern and a replacement. -/
def Rule.of (engine : Regex.Engine) (pattern replacement : String) :
    Except RuleError (Rule engine) :=
  match splitSlashes? pattern.toList with
  | none => .ok (.literal pattern.toList replacement.toList)
  | some (body, letters) =>
    match engine.compile (modesOf letters) (String.ofList body) with
    | .ok program => .ok (.regex program (letters.contains 'g') (braced replacement.toList))
    | .error cause => .error (.invalidPattern pattern cause)

/-- The rule of an entry: a list of two texts. -/
def Rule.ofEntry (engine : Regex.Engine) (entry : Json) : Except RuleError (Rule engine) :=
  match entry with
  | .array [.string pattern, .string replacement] => Rule.of engine pattern replacement
  | _ => .error (.invalidRule entry)

/-- The rules of an options value, all of them or the error of the first bad one. -/
def rulesOf (engine : Regex.Engine) : Json → Except RuleError (List (Rule engine))
  | .array entries => entries.mapM (Rule.ofEntry engine)
  | _ => .error .notAList

/-! ## Application -/

def slice (text : Array Char) (start stop : Nat) : List Char := (text.extract start stop).toList

/-- The texts of the groups of a match. -/
def groupsOf (text : Array Char) (m : Regex.Match) : Groups where
  numbered := fun index => (m.numbered index).map fun (start, stop) => slice text start stop
  named := fun name => (m.named name).map fun (start, stop) => slice text start stop

/-- The text from a place on with matches replaced. -/
def substituteFrom (template : List Char) (text : Array Char) (place : Nat) :
    List Regex.Match → List Char
  | [] => slice text place text.size
  | m :: rest =>
    slice text place m.start ++ expand (groupsOf text m) template ++
      substituteFrom template text m.stop rest

def Rule.apply {engine : Regex.Engine} (rule : Rule engine) (content : List Char) : List Char :=
  match rule with
  | .literal pattern replacement => Text.replaceFirst pattern replacement content
  | .regex program everywhere template =>
    let text := content.toArray
    let found := engine.matchesOf program text
    substituteFrom template text 0 (if everywhere then found else found.take 1)

end Replace
end Inlay
