/-!
# Sets of characters given by ranges of code points

A property of characters is kept as an ascending list of closed ranges. Looking a
character up stops at the first range that ends at or after it.
-/

set_option autoImplicit false

namespace DataLayout.Text

abbrev Ranges := List (Nat × Nat)

def Ranges.holds : Ranges → Nat → Bool
  | [], _ => false
  | (first, last) :: rest, n => if n ≤ last then decide (first ≤ n) else Ranges.holds rest n

end DataLayout.Text
