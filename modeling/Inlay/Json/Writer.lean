import Inlay.Json.Value
import Inlay.Decimal.Shortest

/-!
Writing JSON text, in one line or over indented lines.

A string escapes the quote, the backslash and the control characters below U+0020, and nothing
else.  A floating point number is written with the fewest digits that read back.
-/

namespace Inlay
namespace Json

/-! ## Strings -/

def hexDigit (n : Nat) : Char :=
  if n < 10 then Char.ofNat (n + 0x30) else Char.ofNat (n - 10 + 0x61)

/-- A character as it stands inside a string. -/
def escapeChar (c : Char) : List Char :=
  if c = '"' then ['\\', '"']
  else if c = '\\' then ['\\', '\\']
  else if c = '\x08' then ['\\', 'b']
  else if c = '\x0C' then ['\\', 'f']
  else if c = '\n' then ['\\', 'n']
  else if c = '\r' then ['\\', 'r']
  else if c = '\t' then ['\\', 't']
  else if c.toNat < 0x20 then
    ['\\', 'u', '0', '0', hexDigit (c.toNat / 16), hexDigit (c.toNat % 16)]
  else [c]

def writeString (s : String) : List Char := '"' :: (s.toList.flatMap escapeChar ++ ['"'])

/-! ## Numbers -/

/-- The choices in the notation of a decimal. -/
structure DecimalFormat where
  /-- The least exponent of the leading digit that is written without an exponent. -/
  positionalFrom : Int
  /-- The exponent of the leading digit from which on an exponent is written. -/
  exponentFrom : Int
  /-- Whether an exponent that is not negative has a sign. -/
  plusSign : Bool

/-- Numbers stand without an exponent from `1e-5` on and below `1e16`; an exponent always has a
sign. -/
def decimalFormat : DecimalFormat := ⟨-5, 16, true⟩

def natDigits (n : Nat) : List Char := Nat.toDigits 10 n

def zeros (n : Nat) : List Char := List.replicate n '0'

/-- Digits without an exponent, always with a point. -/
def positional (digits : List Char) (exponent : Int) : List Char :=
  if 0 ≤ exponent then digits ++ zeros exponent.toNat ++ ['.', '0']
  else
    let places := exponent.natAbs
    if digits.length ≤ places then ['0', '.'] ++ zeros (places - digits.length) ++ digits
    else digits.take (digits.length - places) ++ ['.'] ++ digits.drop (digits.length - places)

/-- Digits with an exponent: one digit in front of the point, and no point behind a single digit. -/
def scientific (format : DecimalFormat) (digits : List Char) (leading : Int) : List Char :=
  let front : List Char :=
    match digits with
    | [] => ['0']
    | [d] => [d]
    | d :: ds => d :: '.' :: ds
  let sign : List Char := if leading < 0 then ['-'] else if format.plusSign then ['+'] else []
  front ++ ['e'] ++ sign ++ natDigits leading.natAbs

/-- A floating point number in a format. -/
def writeDecimal (format : DecimalFormat) (x : Binary64) : List Char :=
  let short := Decimal.shortest x
  let digits := natDigits short.digits
  let leading : Int := short.exponent + digits.length - 1
  let body :=
    if format.positionalFrom ≤ leading && leading < format.exponentFrom then
      positional digits short.exponent
    else scientific format digits leading
  if x.negative then '-' :: body else body

def writeInt (n : Int) : List Char :=
  if n < 0 then '-' :: natDigits n.natAbs else natDigits n.natAbs

def writeNumber : JsonNumber → List Char
  | .integer n => writeInt n
  | .decimal x => writeDecimal decimalFormat x

/-! ## Values in one line -/

mutual

/-- A value without any space. -/
def write : Json → List Char
  | .null => ['n', 'u', 'l', 'l']
  | .bool true => ['t', 'r', 'u', 'e']
  | .bool false => ['f', 'a', 'l', 's', 'e']
  | .number n => writeNumber n
  | .string s => writeString s
  | .array [] => ['[', ']']
  | .array (item :: rest) => '[' :: (write item ++ writeItems rest)
  | .object [] => ['{', '}']
  | .object ((key, value) :: rest) =>
    '{' :: (writeString key ++ ':' :: (write value ++ writeFields rest))

/-- The items behind the first one, and the closing bracket. -/
def writeItems : List Json → List Char
  | [] => [']']
  | item :: rest => ',' :: (write item ++ writeItems rest)

/-- The fields behind the first one, and the closing brace. -/
def writeFields : List (String × Json) → List Char
  | [] => ['}']
  | (key, value) :: rest =>
    ',' :: (writeString key ++ ':' :: (write value ++ writeFields rest))

end

/-- A value as text in one line. -/
def compact (value : Json) : String := String.ofList (write value)

/-! ## Values over indented lines -/

/-- A new line with the indentation of a level: two spaces each. -/
def newLine (level : Nat) : List Char := '\n' :: List.replicate (2 * level) ' '

mutual

/-- A value whose inner lines stand one level deeper.  Empty arrays and objects stay on the
line. -/
def writeIndented (level : Nat) : Json → List Char
  | .array (item :: rest) =>
    '[' :: (newLine (level + 1) ++ writeIndented (level + 1) item ++ writeItemLines level rest)
  | .object ((key, value) :: rest) =>
    '{' :: (newLine (level + 1) ++ writeString key ++ [':', ' '] ++
      writeIndented (level + 1) value ++ writeFieldLines level rest)
  | .array [] => ['[', ']']
  | .object [] => ['{', '}']
  | .null => write .null
  | .bool b => write (.bool b)
  | .number n => write (.number n)
  | .string s => write (.string s)

/-- The items behind the first one on lines of their own, and the closing bracket. -/
def writeItemLines (level : Nat) : List Json → List Char
  | [] => newLine level ++ [']']
  | item :: rest =>
    ',' :: (newLine (level + 1) ++ writeIndented (level + 1) item ++ writeItemLines level rest)

/-- The fields behind the first one on lines of their own, and the closing brace. -/
def writeFieldLines (level : Nat) : List (String × Json) → List Char
  | [] => newLine level ++ ['}']
  | (key, value) :: rest =>
    ',' :: (newLine (level + 1) ++ writeString key ++ [':', ' '] ++
      writeIndented (level + 1) value ++ writeFieldLines level rest)

end

/-- A value as text over indented lines. -/
def pretty (value : Json) : String := String.ofList (writeIndented 0 value)

end Json
end Inlay
