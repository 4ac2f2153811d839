/-!
The bounds of machine words, and powers as plain recursive functions of natural numbers.
-/

namespace Inlay

/-- Two to the power 32: numbers below it fit a word of 32 bits. -/
def word32Limit : Nat := 4294967296

/-- Two to the power 63: half the bound of a word of 64 bits. -/
def word63Limit : Nat := 9223372036854775808

/-- Two to the power 64: numbers below it fit a word of 64 bits. -/
def word64Limit : Nat := 18446744073709551616

def twoTo (n : Nat) : Nat := Nat.pow 2 n

def tenTo (n : Nat) : Nat := Nat.pow 10 n

end Inlay
