import DataLayout.CompilationUnit
import DataLayout.Resolution.Error

/-!
# Placing fields

Fields follow one another, each at the next multiple of its alignment. A struct is aligned like
its most strictly aligned field, and its size is a multiple of its alignment. A struct is laid
out after the structs it contains.
-/

set_option autoImplicit false

namespace DataLayout

/-- Where placing fields has got to: the end of the last one, and the greatest alignment. -/
structure Frontier where
  offset : Nat
  alignment : Nat
  deriving DecidableEq, Repr

namespace Field

def place (extent : Nat → Option Extent) (front : Frontier) (f : Field) :
    Option (Field × Frontier) :=
  match f.ty.size? extent, f.ty.alignment? extent with
  | some size, some alignment =>
    match alignUp front.offset alignment with
    | none => none
    | some offset =>
      match fits? (offset + size) with
      | none => none
      | some next => some ({ f with offset := some offset }, ⟨next, max front.alignment alignment⟩)
  | _, _ => none

def placeAll (extent : Nat → Option Extent) :
    List Field → Frontier → Option (List Field × Frontier)
  | [], front => some ([], front)
  | f :: fs, front =>
    match f.place extent front with
    | none => none
    | some (f', next) =>
      match placeAll extent fs next with
      | none => none
      | some (fs', last) => some (f' :: fs', last)

end Field

namespace Struct

def place (extent : Nat → Option Extent) (s : Struct) : Option Struct :=
  match Field.placeAll extent s.fields ⟨0, 1⟩ with
  | none => none
  | some (fields, last) =>
    match alignUp last.offset last.alignment with
    | none => none
    | some size => some { s with fields, extent := some ⟨size, last.alignment⟩ }

def parts (s : Struct) : List Nat := s.fields.filterMap fun f => f.ty.embedded.bind StructRef.target

end Struct

/-- Appends to `visited` the positions reachable from `i`, each after those it leads to. Below
the given depth nothing is visited. -/
def postorder (parts : Nat → List Nat) : Nat → List Nat → Nat → List Nat
  | 0, visited, _ => visited
  | depth + 1, visited, i =>
    if i ∈ visited then visited
    else (parts i).foldl (postorder parts depth) visited ++ [i]

namespace CompilationUnit

def placementOrder (u : CompilationUnit) : List Nat :=
  let parts i := ((u.structs[i]?).map Struct.parts).getD []
  (List.range u.structs.length).foldl (postorder parts u.structs.length) []

/-- Lays out the structs at the given positions, up to the first that is too large. -/
def placeAt : List Nat → CompilationUnit → Progress CompilationUnit
  | [], u => .done u
  | i :: is, u =>
    match u.structs[i]? with
    | none => placeAt is u
    | some s =>
      match s.place u.extent? with
      | none => .stopped u ⟨s.location, .sizeOverflow s.name⟩
      | some s' => placeAt is { u with structs := u.structs.set i s' }

def place (u : CompilationUnit) : Progress CompilationUnit := placeAt u.placementOrder u

end CompilationUnit

end DataLayout
