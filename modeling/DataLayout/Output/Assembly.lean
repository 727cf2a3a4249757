import DataLayout.Output.Piece

/-!
# Assembler output

Equates for the constants, and for the field offsets, size and alignment of each struct.
-/

set_option autoImplicit false

namespace DataLayout.Assembly

def banner : String := "; This file was automatically generated. Do not edit it."

def includeLine (path : String) : String := "\t\tinclude\t\"" ++ includeStem path ++ ".i\""

def equate (symbol : String) (value : Int) : String := symbol ++ "\t\tEQU " ++ toString value

def fieldLine (s : Struct) (f : Field) : Except EmitError String :=
  f.placedOffset.map fun offset => equate (s.name ++ "_" ++ f.name) offset

def structLines (s : Struct) : Except EmitError (List String) := do
  let fields ← s.fields.mapM (fieldLine s)
  let extent ← s.placedExtent
  return fields ++ [equate (s.name ++ "_SIZEOF") extent.size,
    equate (s.name ++ "_ALIGNOF") extent.alignment]

def lines (u : CompilationUnit) : Except EmitError (List String) := do
  u.checkResolved
  let values ← u.localValues
  let structs ← u.localStructs.mapM structLines
  return [banner] ++ u.includes.map includeLine ++ [""]
    ++ values.map (fun c => equate c.1 c.2.toInt) ++ structs.flatten

end DataLayout.Assembly
