import DataLayout.Output.Piece
import DataLayout.Text.Digest

/-!
# C headers

Declarations of the structs, with assertions that a C compiler lays each of them out in the
same way. C writes a type around the name it is given to: base type and stars come before the
name, array bounds after it. Function types have no place in a struct and are given names of
their own, made from the name of the file and a number.
-/

set_option autoImplicit false

namespace DataLayout.Header

def primitive : Primitive → String
  | .u8 => "unsigned char"
  | .u16 => "unsigned short"
  | .u32 => "unsigned int"
  | .i8 => "signed char"
  | .i16 => "signed short"
  | .i32 => "signed int"
  | .f32 => "float"
  | .f64 => "double"

def aliasStem (filename : String) : String :=
  "_blobc_fn_" ++ Text.Digest.hex (Path.normalize filename).toUTF8.toList ++ "_"

/-- The names of function types: those of the unit's own file are numbered from `next`, included
ones have their name elsewhere. -/
def aliases (stem : String) : List FunctionType → Nat → List (Option String)
  | [], _ => []
  | f :: fs, next =>
    if f.included then none :: aliases stem fs next
    else some (stem ++ toString next) :: aliases stem fs (next + 1)

/-- The part of a declaration that comes before the declared name. -/
def before (names : List (Option String)) : Ty → Except EmitError String
  | .primitive p => .ok (primitive p)
  | .void => .ok "void"
  | .struct r => .ok r.name
  | .pointer t => (before names t).map (· ++ "*")
  | .array t _ => before names t
  | .function id =>
    match names[id]? with
    | some (some name) => .ok name
    | _ => .error (.incomplete "function type")

/-- The part of a declaration that comes after the declared name: array bounds, the outermost
first. -/
def after : Ty → String
  | .array t n => "[" ++ toString n ++ "]" ++ after t
  | _ => ""

def declare (names : List (Option String)) (ty : Ty) (name : String) : Except EmitError String :=
  (before names ty).map fun base => base ++ " " ++ name ++ after ty

def typedefLine (names : List (Option String)) (f : FunctionType) (name : String) :
    Except EmitError String := do
  let base ← before names f.returns
  let params ← f.params.mapM fun p => declare names p.ty p.name
  return "typedef " ++ base ++ " " ++ name ++ "(" ++ ", ".intercalate params ++ ");"

/-- The type definitions of function types that have a name in this file. -/
def typedefLines (names : List (Option String)) :
    List (FunctionType × Option String) → Except EmitError (List String)
  | [] => .ok []
  | (_, none) :: rest => typedefLines names rest
  | (f, some name) :: rest => do
    let line ← typedefLine names f name
    let lines ← typedefLines names rest
    return line :: lines

def structLines (names : List (Option String)) (s : Struct) : Except EmitError (List String) := do
  let fields ← s.fields.mapM fun f =>
    (declare names f.ty f.name).map fun d => "    " ++ d ++ ";"
  return ["struct " ++ s.name ++ " \x7b"] ++ fields ++ ["\x7d;"]

def sizeAssertion (s : Struct) (size : Nat) : String :=
  "_Static_assert(sizeof(" ++ s.name ++ ") == " ++ toString size ++ ", \"size of struct "
    ++ s.name ++ " does not match assembly output\");"

def offsetAssertion (s : Struct) (f : Field) (offset : Nat) : String :=
  "_Static_assert(__builtin_offsetof(" ++ s.name ++ ", " ++ f.name ++ ") == " ++ toString offset
    ++ ", \"offset of field " ++ s.name ++ "::" ++ f.name ++ " does not match assembly output\");"

def assertionLines (s : Struct) : Except EmitError (List String) := do
  let extent ← s.placedExtent
  let fields ← s.fields.mapM fun f => f.placedOffset.map (offsetAssertion s f)
  return sizeAssertion s extent.size :: fields

def banner : String := "/* This file was automatically generated. Do not edit it. */"

def includeLine (path : String) : String := "#include\t\"" ++ includeStem path ++ ".h\""

def lines (u : CompilationUnit) : Except EmitError (List String) := do
  u.checkResolved
  let names := aliases (aliasStem u.filename) u.functions 0
  let typedefs ← typedefLines names (u.functions.zip names)
  let structs ← u.localStructs.mapM (structLines names)
  let assertions ← u.localStructs.mapM assertionLines
  return ["#pragma once", banner] ++ u.includes.map includeLine ++ [""]
    ++ u.localStructs.map (fun s => "typedef struct " ++ s.name ++ " " ++ s.name ++ ";")
    ++ typedefs ++ structs.flatten ++ assertions.flatten

end DataLayout.Header
