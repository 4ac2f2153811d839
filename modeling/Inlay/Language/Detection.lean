import Inlay.Block.Attributes
import Inlay.Files.Path
import Inlay.Language.Registry
import Inlay.Stage.Failure
import Inlay.Text.Search

/-!
The language that the attributes of a tag declare.

The attribute `lang` comes first, then `type` without a prefix for a family of media types, then
the extension of the file that `src` names.  A higher attribute hides the lower ones, also their
errors.
-/

namespace Inlay

/-- The text of an attribute; a flag of that name is a failure. -/
def Attributes.textOf (attributes : Attributes) (name : String) :
    Except Failure (Option String) :=
  match attributes.get? name with
  | none => .ok none
  | some (.text value) => .ok (some value)
  | some (.flag _) => .error (.invalidAttribute name)

/-- A language as written, and the language that it stands for. -/
structure DeclaredLanguage where
  written : String
  language : String
deriving Repr, DecidableEq, Inhabited

namespace Language

/-- A media type without one prefix `text/` or else `application/`. -/
def mediaSubtype (type : String) : String :=
  match Text.dropFront? "text/".toList type.toList with
  | some rest => String.ofList rest
  | none =>
    match Text.dropFront? "application/".toList type.toList with
    | some rest => String.ofList rest
    | none => type

/-- Whether a character is a letter of ASCII. -/
def isLetter (c : Char) : Bool := ('a' ≤ c && c ≤ 'z') || ('A' ≤ c && c ≤ 'Z')

/-- Whether an address names a scheme: letters of ASCII in front of its first colon. -/
def hasScheme (address : String) : Bool :=
  match Text.cutAtFirst? ':' address.toList with
  | some (scheme, _) => !scheme.isEmpty && scheme.all isLetter
  | none => false

/-- The extension of the file that a local address names: what follows the last point of its last
component. -/
def extension? (address : String) : Option String :=
  if (Text.dropFront? ['/', '/'] address.toList).isSome || hasScheme address then none
  else do
    let name ← Path.fileName? address
    let (_, extension) ← Text.cutAtLast? '.' name.toList
    return String.ofList extension

/-- The name of the language as the attributes write it. -/
def writtenName (attributes : Attributes) : Except Failure (Option String) := do
  match ← attributes.textOf "lang" with
  | some lang => return some lang
  | none =>
    match ← attributes.textOf "type" with
    | some type => return some (mediaSubtype type)
    -- Here a flag is no failure: it names no file.
    | none => return ((attributes.get? "src").bind (·.text?)).bind extension?

end Language

/-- The language that attributes declare, if they declare one. -/
def LanguageRegistry.declared (r : LanguageRegistry) (attributes : Attributes) :
    Except Failure (Option DeclaredLanguage) := do
  let written ← Language.writtenName attributes
  return written.map fun name => ⟨name, r.canonical name⟩

end Inlay
