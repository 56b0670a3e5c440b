/-!
# Integers of a fixed width

The bounds of the integers that fit into 64 bits, with and without a sign.
-/

namespace SchemaCanvas.Word

/-- The least integer of 64 bits with a sign. -/
def minSigned : Int := -9223372036854775808

/-- The greatest integer of 64 bits with a sign. -/
def maxSigned : Int := 9223372036854775807

/-- The greatest integer of 64 bits without a sign. -/
def maxUnsigned : Int := 18446744073709551615

/-- The greatest integer of 32 bits without a sign. -/
def maxHalf : Int := 4294967295

end SchemaCanvas.Word
