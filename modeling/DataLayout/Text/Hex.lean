/-!
# Hexadecimal digits

Digits above nine are letters, small ones or capitals: they are counted from the letter for ten.
-/

set_option autoImplicit false

namespace DataLayout.Text

def hexDigit (ten : Char) (n : Nat) : Char :=
  if n < 10 then Char.ofNat ('0'.toNat + n) else Char.ofNat (ten.toNat + (n - 10))

end DataLayout.Text
