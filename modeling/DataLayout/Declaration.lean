import DataLayout.Expr
import DataLayout.Ty

/-!
# Declarations

Structs, constants and function types. A declaration that came in through an included file is
marked: the output written for that file defines it already.
-/

set_option autoImplicit false

namespace DataLayout

structure Field where
  location : Location
  name : String
  ty : Ty
  /-- Byte offset from the start of the struct, once the struct has been laid out. -/
  offset : Option Nat
  deriving DecidableEq, Repr

structure Struct where
  location : Location
  name : String
  fields : List Field
  included : Bool
  extent : Option Extent
  deriving DecidableEq, Repr

structure Constant where
  location : Location
  name : String
  expr : Expr
  included : Bool
  deriving DecidableEq, Repr

structure Parameter where
  name : String
  ty : Ty
  deriving DecidableEq, Repr

structure FunctionType where
  location : Location
  returns : Ty
  params : List Parameter
  included : Bool
  deriving DecidableEq, Repr

namespace Field

def mapTy (f : Ty → Ty) (x : Field) : Field := { x with ty := f x.ty }

end Field

namespace Struct

def mapTy (f : Ty → Ty) (s : Struct) : Struct := { s with fields := s.fields.map (·.mapTy f) }

def markIncluded (s : Struct) : Struct := { s with included := true }

def field? (s : Struct) (name : String) : Option Field := s.fields.find? (·.name == name)

end Struct

def Constant.markIncluded (c : Constant) : Constant := { c with included := true }

def Parameter.mapTy (f : Ty → Ty) (p : Parameter) : Parameter := { p with ty := f p.ty }

namespace FunctionType

def mapTy (f : Ty → Ty) (ft : FunctionType) : FunctionType :=
  { ft with returns := f ft.returns, params := ft.params.map (·.mapTy f) }

def markIncluded (ft : FunctionType) : FunctionType := { ft with included := true }

end FunctionType

end DataLayout
