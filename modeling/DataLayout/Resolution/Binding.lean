import DataLayout.CompilationUnit
import DataLayout.Resolution.Error

/-!
# Binding struct references

Every struct reference of a unit is bound to the position of the struct it names. On the way
fields are checked: their names differ within a struct, and their types have storage.
-/

set_option autoImplicit false

namespace DataLayout

namespace Ty

/-- Fields and array elements take up storage, which `void` and functions do not have. -/
def checkStorage (location : Location) : Ty → Except ResolveFailure Unit
  | .void => .error ⟨location, .voidStorage⟩
  | .function _ => .error ⟨location, .functionStorage⟩
  | .array t _ => t.checkStorage location
  | .primitive _ | .struct _ | .pointer _ => .ok ()

def bindRef (position : String → Option Nat) : Ty → Except ResolveFailure Ty
  | .struct r =>
    match position r.name with
    | some i => .ok (.struct { r with target := some i })
    | none => .error ⟨r.location, .unknownStruct r.name⟩
  | .pointer t => (t.bindRef position).map .pointer
  | .array t n => (t.bindRef position).map (.array · n)
  | .primitive p => .ok (.primitive p)
  | .void => .ok .void
  | .function id => .ok (.function id)

end Ty

namespace Field

/-- Checks a field and binds its type. `seen` has the names of the fields before it. -/
def bindRef (position : String → Option Nat) (seen : List String) (f : Field) :
    Except ResolveFailure Field :=
  if f.name ∈ seen then .error ⟨f.location, .duplicateField f.name⟩
  else
    match f.ty.checkStorage f.location with
    | .error e => .error e
    | .ok _ => (f.ty.bindRef position).map fun ty => { f with ty }

def bindAll (position : String → Option Nat) :
    List Field → List String → Progress (List Field)
  | [], _ => .done []
  | f :: fs, seen =>
    match f.bindRef position seen with
    | .error e => .stopped (f :: fs) e
    | .ok f' => (bindAll position fs (f.name :: seen)).map (f' :: ·)

end Field

def Struct.bindRefs (position : String → Option Nat) (s : Struct) : Progress Struct :=
  (Field.bindAll position s.fields []).map fun fields => { s with fields }

def Parameter.bindRef (position : String → Option Nat) (p : Parameter) : Progress Parameter :=
  .ofExcept p ((p.ty.bindRef position).map fun ty => { p with ty })

def FunctionType.bindRefs (position : String → Option Nat) (f : FunctionType) :
    Progress FunctionType :=
  (Progress.ofExcept f ((f.returns.bindRef position).map fun ty => { f with returns := ty })).andThen
    fun f => (Progress.list (·.bindRef position) f.params).map fun params => { f with params }

namespace CompilationUnit

def position? (u : CompilationUnit) (name : String) : Option Nat :=
  u.structs.findIdx? (·.name == name)

/-- Binds all references of a unit in which no two structs share a name: those of the fields,
struct by struct, and then those of the function types. -/
def bindRefs (u : CompilationUnit) : Progress CompilationUnit :=
  match firstRepeat? Struct.name u.structs [] with
  | some s => .stopped u ⟨s.location, .duplicateStruct s.name⟩
  | none =>
    let position := u.position?
    ((Progress.list (·.bindRefs position) u.structs).map fun structs =>
      { u with structs }).andThen fun u =>
        (Progress.list (·.bindRefs position) u.functions).map fun functions => { u with functions }

end CompilationUnit

end DataLayout
