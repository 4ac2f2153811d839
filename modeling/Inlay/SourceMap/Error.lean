import Inlay.SourceMap.Basic
import Inlay.Text.Quoted

/-!
The texts of source map errors.
-/

namespace Inlay

/-- The field as an error names it. -/
def SegmentField.label : SegmentField → String
  | .generatedColumn => "generated column"
  | .sourceIndex => "source index"
  | .originalLine => "original line"
  | .originalColumn => "original column"
  | .nameIndex => "name index"

/-- The text of an error; a document that is no JSON has no fixed text. -/
def MapError.message : MapError → Option String
  | .invalidCharacter byte =>
    some ("invalid base64 character " ++ Text.quoted (Char.ofNat byte.toNat) ++ " in mappings")
  | .truncatedValue => some "truncated VLQ value in mappings"
  | .overflow => some "VLQ value overflow in mappings"
  | .segmentArity count =>
    some ("segment has " ++ toString count ++ " fields, expected 1, 4 or 5")
  | .outOfRange field => some ("mappings resolve to a negative " ++ field.label)
  | .malformedJson => none

end Inlay
