/-!
A single character in quotes, with the characters that cannot stand for themselves escaped.
-/

namespace Inlay
namespace Text

/-- The digits of a number in base sixteen, lower case, without leading zeros. -/
def hexDigits (n : Nat) : List Char := Nat.toDigits 16 n

/-- A character below U+0100 inside quotes.  Tab, line feed, carriage return, NUL, the quote and
the backslash have short escapes; other control characters, the no-break space and the soft hyphen
show their code point. -/
def quotedBody (c : Char) : List Char :=
  if c = '\t' then ['\\', 't']
  else if c = '\n' then ['\\', 'n']
  else if c = '\r' then ['\\', 'r']
  else if c.toNat = 0 then ['\\', '0']
  else if c = '\'' || c = '\\' then ['\\', c]
  else if c.toNat < 0x20 || (0x7F ≤ c.toNat && c.toNat ≤ 0xA0) || c.toNat = 0xAD then
    ['\\', 'u', '{'] ++ hexDigits c.toNat ++ ['}']
  else [c]

/-- The quoted form of a character below U+0100. -/
def quoted (c : Char) : String := String.ofList (['\''] ++ quotedBody c ++ ['\''])

end Text
end Inlay
