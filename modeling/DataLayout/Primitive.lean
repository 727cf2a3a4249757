/-!
# Primitive types

The scalar types of the target. Only bytes are byte aligned: every wider scalar, and every
pointer, starts at an even address.
-/

set_option autoImplicit false

namespace DataLayout

inductive Primitive where
  | u8
  | u16
  | u32
  | i8
  | i16
  | i32
  | f32
  | f64
  deriving DecidableEq, Repr

namespace Primitive

def all : List Primitive := [.u8, .u16, .u32, .i8, .i16, .i32, .f32, .f64]

def name : Primitive → String
  | .u8 => "u8"
  | .u16 => "u16"
  | .u32 => "u32"
  | .i8 => "i8"
  | .i16 => "i16"
  | .i32 => "i32"
  | .f32 => "f32"
  | .f64 => "f64"

def size : Primitive → Nat
  | .u8 | .i8 => 1
  | .u16 | .i16 => 2
  | .u32 | .i32 | .f32 => 4
  | .f64 => 8

def alignment : Primitive → Nat
  | .u8 | .i8 => 1
  | _ => 2

def isSigned : Primitive → Bool
  | .u8 | .u16 | .u32 => false
  | _ => true

def isIntegral : Primitive → Bool
  | .f32 | .f64 => false
  | _ => true

end Primitive

end DataLayout
