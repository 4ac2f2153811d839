import Inlay.Json.Tree
import Inlay.Decimal.Reading
import Inlay.Word

/-!
Reading JSON text: the grammar of RFC 8259 and nothing beyond it.

Every reading function takes the characters that are left and gives the tree and the characters
behind it.  Values nest, so their functions carry a bound on the number of steps; the length of
the text is such a bound, because every step consumes a character.
-/

namespace Inlay
namespace Json

/-! ## Blanks, digits and keywords -/

def isSpace (c : Char) : Bool := c = ' ' || c = '\t' || c = '\n' || c = '\r'

def skipSpace (cs : List Char) : List Char := cs.dropWhile isSpace

def decimalDigit? (c : Char) : Option Nat :=
  if '0' ≤ c && c ≤ '9' then some (c.toNat - '0'.toNat) else none

def hexDigit? (c : Char) : Option Nat :=
  if '0' ≤ c && c ≤ '9' then some (c.toNat - '0'.toNat)
  else if 'a' ≤ c && c ≤ 'f' then some (c.toNat - 'a'.toNat + 10)
  else if 'A' ≤ c && c ≤ 'F' then some (c.toNat - 'A'.toNat + 10)
  else none

/-- The run of decimal digits at the front, and what follows it. -/
def takeDigits : List Char → List Nat × List Char
  | [] => ([], [])
  | c :: cs =>
    match decimalDigit? c with
    | some d =>
      let (ds, rest) := takeDigits cs
      (d :: ds, rest)
    | none => ([], c :: cs)

def ofDigits (digits : List Nat) : Nat := digits.foldl (fun sum d => sum * 10 + d) 0

/-! ## Strings -/

/-- What one step inside a string reads: a character, or half of a surrogate pair. -/
inductive StringUnit where
  | char (value : Char)
  | half (value : Nat)
deriving Repr, DecidableEq

def hexQuad? (a b c d : Char) : Option Nat :=
  match hexDigit? a, hexDigit? b, hexDigit? c, hexDigit? d with
  | some a, some b, some c, some d => some (((a * 16 + b) * 16 + c) * 16 + d)
  | _, _, _, _ => none

def isHighSurrogate (n : Nat) : Bool := 0xD800 ≤ n && n ≤ 0xDBFF

def isLowSurrogate (n : Nat) : Bool := 0xDC00 ≤ n && n ≤ 0xDFFF

def ofSurrogates (high low : Nat) : Char :=
  Char.ofNat (0x10000 + (high - 0xD800) * 0x400 + (low - 0xDC00))

def shortEscape? (c : Char) : Option Char :=
  if c = '"' || c = '\\' || c = '/' then some c
  else if c = 'b' then some '\x08'
  else if c = 'f' then some '\x0C'
  else if c = 'n' then some '\n'
  else if c = 'r' then some '\r'
  else if c = 't' then some '\t'
  else none

/-- The unit that an escape with four digits names. -/
def unitOf (n : Nat) : StringUnit :=
  if isHighSurrogate n || isLowSurrogate n then .half n else .char (Char.ofNat n)

/-- The units of a string from behind its opening quote, and the text behind its closing quote. -/
def readUnits : List Char → Option (List StringUnit × List Char)
  | [] => none
  | '"' :: rest => some ([], rest)
  | '\\' :: 'u' :: a :: b :: c :: d :: rest =>
    match hexQuad? a b c d with
    | some n => (readUnits rest).map fun (us, r) => (unitOf n :: us, r)
    | none => none
  -- A `u` without four characters behind it comes here too, and is no short escape.
  | '\\' :: e :: rest =>
    match shortEscape? e with
    | some c => (readUnits rest).map fun (us, r) => (.char c :: us, r)
    | none => none
  | c :: rest =>
    if c.toNat < 0x20 || c = '\\' then none
    else (readUnits rest).map fun (us, r) => (.char c :: us, r)

/-- The characters of a list of units, or nothing when half of a pair stands alone. -/
def charsOf? : List StringUnit → Option (List Char)
  | [] => some []
  | .char c :: us => (charsOf? us).map (c :: ·)
  | .half high :: .half low :: us =>
    if isHighSurrogate high && isLowSurrogate low then
      (charsOf? us).map (ofSurrogates high low :: ·)
    else none
  | .half _ :: _ => none

/-- The string from behind its opening quote, and the text behind its closing quote. -/
def readString (cs : List Char) : Option (Option String × List Char) :=
  (readUnits cs).map fun (us, rest) => ((charsOf? us).map String.ofList, rest)

/-! ## Numbers -/

/-- The digits of a whole part: a zero alone, or a run that starts with another digit. -/
def readWhole (cs : List Char) : Option (List Nat × List Char) :=
  match takeDigits cs with
  | ([], _) => none
  | ([d], rest) => some ([d], rest)
  | (0 :: _ :: _, _) => none
  | (ds, rest) => some (ds, rest)

/-- The digits behind a point, if there is a point. -/
def readFraction : List Char → Option (Option (List Nat) × List Char)
  | '.' :: cs =>
    match takeDigits cs with
    | ([], _) => none
    | (ds, rest) => some (some ds, rest)
  | cs => some (none, cs)

/-- The digits of an exponent with its sign. -/
def readSigned (cs : List Char) : Option (Int × List Char) :=
  let (negative, body) : Bool × List Char :=
    match cs with
    | '-' :: rest => (true, rest)
    | '+' :: rest => (false, rest)
    | rest => (false, rest)
  match takeDigits body with
  | ([], _) => none
  | (ds, rest) =>
    let n : Int := ofDigits ds
    some (if negative then -n else n, rest)

/-- The exponent, if there is one. -/
def readExponent : List Char → Option (Option Int × List Char)
  | 'e' :: cs => (readSigned cs).map fun (e, rest) => (some e, rest)
  | 'E' :: cs => (readSigned cs).map fun (e, rest) => (some e, rest)
  | cs => some (none, cs)

/-- The number that a notation stands for, or nothing when it is out of range.  Without a point
and an exponent it is an integer if it fits 64 bits; minus zero is not an integer. -/
def numberOf? (negative : Bool) (whole : List Nat) (fraction : Option (List Nat))
    (exponent : Option Int) : Option JsonNumber :=
  let n := ofDigits whole
  let isWhole := fraction.isNone && exponent.isNone
  if isWhole && !negative && n < word64Limit then some (.integer n)
  else if isWhole && negative && 0 < n && n ≤ word63Limit then some (.integer (-(n : Int)))
  else
    (Decimal.ofDigits? negative whole (fraction.getD []) (exponent.getD 0)).map .decimal

/-- A number without its sign. -/
def readMagnitude (negative : Bool) (cs : List Char) : Option (Option JsonNumber × List Char) := do
  let (whole, rest) ← readWhole cs
  let (fraction, rest) ← readFraction rest
  let (exponent, rest) ← readExponent rest
  return (numberOf? negative whole fraction exponent, rest)

def readNumber : List Char → Option (Option JsonNumber × List Char)
  | '-' :: cs => readMagnitude true cs
  | cs => readMagnitude false cs

/-! ## Values -/

mutual

/-- The value at the front of the text, behind spaces. -/
def readTree : Nat → List Char → Option (Tree × List Char)
  | 0, _ => none
  | fuel + 1, cs =>
    match skipSpace cs with
    | 'n' :: 'u' :: 'l' :: 'l' :: rest => some (.null, rest)
    | 't' :: 'r' :: 'u' :: 'e' :: rest => some (.bool true, rest)
    | 'f' :: 'a' :: 'l' :: 's' :: 'e' :: rest => some (.bool false, rest)
    | '"' :: rest => (readString rest).map fun (s, r) => (.string s, r)
    | '[' :: rest =>
      match skipSpace rest with
      | ']' :: behind => some (.array [], behind)
      | _ => (readItems fuel rest).map fun (items, r) => (.array items, r)
    | '{' :: rest =>
      match skipSpace rest with
      | '}' :: behind => some (.object [], behind)
      | _ => (readMembers fuel rest).map fun (members, r) => (.object members, r)
    | rest => (readNumber rest).map fun (n, r) => (.number n, r)

/-- The items of an array up to its closing bracket; there is at least one. -/
def readItems : Nat → List Char → Option (List Tree × List Char)
  | 0, _ => none
  | fuel + 1, cs =>
    match readTree fuel cs with
    | none => none
    | some (item, rest) =>
      match skipSpace rest with
      | ',' :: more => (readItems fuel more).map fun (items, r) => (item :: items, r)
      | ']' :: behind => some ([item], behind)
      | _ => none

/-- The members of an object up to its closing brace; there is at least one. -/
def readMembers : Nat → List Char → Option (List (Option String × Tree) × List Char)
  | 0, _ => none
  | fuel + 1, cs =>
    match skipSpace cs with
    | '"' :: keyText =>
      match readString keyText with
      | none => none
      | some (key, afterKey) =>
        match skipSpace afterKey with
        | ':' :: afterColon =>
          match readTree fuel afterColon with
          | none => none
          | some (item, rest) =>
            match skipSpace rest with
            | ',' :: more =>
              (readMembers fuel more).map fun (members, r) => ((key, item) :: members, r)
            | '}' :: behind => some ([(key, item)], behind)
            | _ => none
        | _ => none
    | _ => none

end

/-- The tree of a JSON text.  Nothing but spaces may follow the value. -/
def parseTree? (text : String) : Option Tree :=
  let cs := text.toList
  match readTree (2 * cs.length + 2) cs with
  | some (tree, rest) => if skipSpace rest = [] then some tree else none
  | none => none

def parse? (text : String) : Option Json := (parseTree? text).bind (Tree.value? Tree.levelLimit)

end Json
end Inlay
