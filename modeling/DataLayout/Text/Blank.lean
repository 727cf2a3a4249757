import DataLayout.Text.Ranges

/-!
# White space

The characters with the Unicode property White_Space. The list has been the same since
version 6.3 of the standard.
-/

set_option autoImplicit false

namespace DataLayout.Text

def blankRanges : Ranges :=
  [(0x9, 0xd), (0x20, 0x20), (0x85, 0x85), (0xa0, 0xa0), (0x1680, 0x1680), (0x2000, 0x200a),
   (0x2028, 0x2029), (0x202f, 0x202f), (0x205f, 0x205f), (0x3000, 0x3000)]

def isBlank (c : Char) : Bool := blankRanges.holds c.toNat

end DataLayout.Text
