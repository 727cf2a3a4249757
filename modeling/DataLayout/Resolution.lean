import DataLayout.Resolution.Binding
import DataLayout.Resolution.Constants
import DataLayout.Resolution.Order
import DataLayout.Resolution.Placement

/-!
# Resolution

Resolving a unit binds its struct references, orders and lays out its structs and evaluates its
constants. A unit that cannot be resolved keeps what was done before the failure, except that
it has either all values of constants or those it had.
-/

set_option autoImplicit false

namespace DataLayout.CompilationUnit

def resolveStructs (u : CompilationUnit) : Progress CompilationUnit :=
  (u.bindRefs.andThen order).andThen place

def resolveConstants (u : CompilationUnit) : Progress CompilationUnit :=
  .ofExcept u ((Constant.values u.constants).map fun values => { u with values })

def resolve (u : CompilationUnit) : Progress CompilationUnit :=
  (u.resolveStructs.andThen resolveConstants).andThen fun u => .done { u with resolved := true }

end DataLayout.CompilationUnit
