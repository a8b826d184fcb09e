/-!
The limits of machine words.
-/

namespace Mender.Word

/-- The greatest word of 8 bits. -/
def greatest8 : Nat := 255

/-- The greatest word of 16 bits. -/
def greatest16 : Nat := 65535

/-- The greatest word of 32 bits. -/
def greatest32 : Nat := 4294967295

/-- The greatest word of 64 bits. -/
def greatest64 : Nat := 18446744073709551615

/-- The number of signed words of 64 bits that are negative. -/
def negative64 : Nat := 9223372036854775808

end Mender.Word
