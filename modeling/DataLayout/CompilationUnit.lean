import DataLayout.Declaration

/-!
# Compilation units

A file and everything it includes, at any depth. What an include brings in follows what stood
before the include and is marked as included. Names need not be unique here; whether they are
is found out when the unit is resolved.
-/

set_option autoImplicit false

namespace DataLayout

structure CompilationUnit where
  filename : String
  includes : List String
  structs : List Struct
  constants : List Constant
  functions : List FunctionType
  values : List (Nat × Int64)
  resolved : Bool
  deriving DecidableEq, Repr

namespace CompilationUnit

def empty (filename : String) : CompilationUnit := ⟨filename, [], [], [], [], [], false⟩

def struct? (u : CompilationUnit) (name : String) : Option Struct :=
  u.structs.find? (·.name == name)

def constantValue? (u : CompilationUnit) (name : String) : Option Int64 :=
  (u.values.find? fun v => (u.constants[v.1]?).any (·.name == name)).map Prod.snd

def extent? (u : CompilationUnit) (i : Nat) : Option Extent := (u.structs[i]?).bind Struct.extent

/-- Adds a struct and the function types its fields mention, which are numbered from zero. -/
def addStruct (u : CompilationUnit) (s : Struct) (functions : List FunctionType) :
    CompilationUnit :=
  let shift := Ty.shift u.functions.length
  { u with
    structs := u.structs ++ [s.mapTy shift]
    functions := u.functions ++ functions.map (·.mapTy shift) }

def addConstant (u : CompilationUnit) (c : Constant) : CompilationUnit :=
  { u with constants := u.constants ++ [c] }

/-- Adds the declarations of an included file, which was included as `path`. -/
def addIncluded (u : CompilationUnit) (path : String) (nested : CompilationUnit) :
    CompilationUnit :=
  let shift := Ty.shift u.functions.length
  { u with
    includes := u.includes ++ [path]
    structs := u.structs ++ nested.structs.map fun s => (s.mapTy shift).markIncluded
    constants := u.constants ++ nested.constants.map Constant.markIncluded
    functions := u.functions ++ nested.functions.map fun f => (f.mapTy shift).markIncluded }

end CompilationUnit

end DataLayout
