/-!
Conditions that are reported and do not stop anything.
-/

namespace Inlay

/-- A condition that is reported. -/
inductive Warning where
  | civetMapMissing
  | civetInlineMap
  | civetInlineCodeMissing
  | civetCodeMissing
  | civetConfigUnreadable
  | civetConfigMalformed
  | configIgnored
  | globalWithoutPostcss
deriving Repr, DecidableEq, Inhabited

/-- The text of a warning. -/
def Warning.message : Warning → String
  | .civetMapMissing => "civet did not return code with a source map although one was requested"
  | .civetInlineMap => "civet inlineMap keeps the source map inside the code"
  | .civetInlineCodeMissing => "civet did not return plain code for inlineMap"
  | .civetCodeMissing => "civet did not return plain code"
  | .civetConfigUnreadable => "failed to read civet config"
  | .civetConfigMalformed => "failed to parse civet config"
  | .configIgnored => "ignoring config"
  | .globalWithoutPostcss =>
    "'global' attribute found, but 'postcss' is not installed. " ++
      "'postcss' is used to walk through the CSS and transform any necessary selector."

end Inlay
