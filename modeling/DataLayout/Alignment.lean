/-!
# Sizes and alignment

Sizes, offsets and alignments are numbers of bytes that fit in 64 bits. An operation whose
result does not fit gives nothing.
-/

set_option autoImplicit false

namespace DataLayout

/-- Numbers of bytes, and the weights structs are ordered by, stay below this. -/
def wordLimit : Nat := 18446744073709551616

def fits? (n : Nat) : Option Nat := if n < wordLimit then some n else none

/-- Rounds `value` up to a multiple of `alignment`, a power of two: what is added first must
leave the sum in a word, and then the excess over a multiple is dropped. -/
def alignUp (value alignment : Nat) : Option Nat :=
  (fits? (value + (alignment - 1))).map fun v => v / alignment * alignment

end DataLayout
