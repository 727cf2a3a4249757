import DataLayout.Alignment
import DataLayout.Location
import DataLayout.Primitive

/-!
# Types

A type names a struct by a reference, which starts out unbound and is later bound to a
position in the list of structs. Function types are kept in a list of their own and a type
refers to one by its position there.
-/

set_option autoImplicit false

namespace DataLayout

structure StructRef where
  location : Location
  name : String
  target : Option Nat
  deriving DecidableEq, Repr

inductive Ty where
  | primitive (type : Primitive)
  | void
  | struct (ref : StructRef)
  | pointer (target : Ty)
  | array (element : Ty) (length : Nat)
  | function (id : Nat)
  deriving DecidableEq, Repr

structure Extent where
  size : Nat
  alignment : Nat
  deriving DecidableEq, Repr

namespace Ty

def pointerSize : Nat := 4

def pointerAlignment : Nat := 2

/-- The type as it is written, but for function types, which show their position. -/
def text : Ty → String
  | .primitive p => p.name
  | .void => "void"
  | .struct r => r.name
  | .pointer t => t.text ++ "*"
  | .array t n => t.text ++ "[" ++ toString n ++ "]"
  | .function id => "fn#" ++ toString id

/-- Size in bytes, given the extents of the structs that have been laid out. Types without
storage have none, and neither has an array that is too large. -/
def size? (extent : Nat → Option Extent) : Ty → Option Nat
  | .primitive p => some p.size
  | .void => none
  | .struct r => (r.target.bind extent).map Extent.size
  | .pointer _ => some pointerSize
  | .array t n => (t.size? extent).bind fun s => fits? (s * n)
  | .function _ => none

def alignment? (extent : Nat → Option Extent) : Ty → Option Nat
  | .primitive p => some p.alignment
  | .void => none
  | .struct r => (r.target.bind extent).map Extent.alignment
  | .pointer _ => some pointerAlignment
  | .array t _ => t.alignment? extent
  | .function _ => none

/-- The struct that a value of the type contains, directly or as the element of an array. -/
def embedded : Ty → Option StructRef
  | .struct r => some r
  | .array t _ => t.embedded
  | .primitive _ | .void | .pointer _ | .function _ => none

def mapRef (f : StructRef → StructRef) : Ty → Ty
  | .primitive p => .primitive p
  | .void => .void
  | .struct r => .struct (f r)
  | .pointer t => .pointer (t.mapRef f)
  | .array t n => .array (t.mapRef f) n
  | .function id => .function id

def shift (offset : Nat) : Ty → Ty
  | .primitive p => .primitive p
  | .void => .void
  | .struct r => .struct r
  | .pointer t => .pointer (t.shift offset)
  | .array t n => .array (t.shift offset) n
  | .function id => .function (id + offset)

def isArray : Ty → Bool
  | .array _ _ => true
  | _ => false

end Ty

end DataLayout
