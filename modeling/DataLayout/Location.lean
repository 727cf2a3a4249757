/-!
# Locations

Everything read from a file remembers the file and the line it stood on. Errors are
reported as a location, a colon and a text.
-/

set_option autoImplicit false

namespace DataLayout

structure Location where
  file : String
  line : Nat
  deriving DecidableEq, Repr, Inhabited

def Location.text (l : Location) : String := l.file ++ "(" ++ toString l.line ++ ")"

structure Located (α : Type) where
  location : Location
  value : α
  deriving DecidableEq, Repr

namespace Located

def map {α β : Type} (f : α → β) (x : Located α) : Located β := ⟨x.location, f x.value⟩

def text {α : Type} (render : α → String) (x : Located α) : String :=
  x.location.text ++ ": " ++ render x.value

end Located

end DataLayout
