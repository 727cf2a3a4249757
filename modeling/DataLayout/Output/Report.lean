import DataLayout.Output.Piece
import DataLayout.Text.Json

/-!
# Layout reports

The layout of the structs and the values of the constants of a file, as data and as JSON text.
Types are spelled the way they are written in a file, function types in full.
-/

set_option autoImplicit false

namespace DataLayout

structure FieldReport where
  name : String
  offset : Nat
  size : Nat
  type : String
  deriving DecidableEq, Repr

structure StructReport where
  name : String
  size : Nat
  alignment : Nat
  fields : List FieldReport
  deriving DecidableEq, Repr

structure Report where
  file : String
  constants : List (String × Int64)
  structs : List StructReport
  deriving DecidableEq, Repr

namespace Ty

def spell (function : Nat → Option String) : Ty → Option String
  | .primitive p => some p.name
  | .void => some "void"
  | .struct r => some r.name
  | .pointer t => (t.spell function).map (· ++ "*")
  | .array t n => (t.spell function).map fun s => s ++ "[" ++ toString n ++ "]"
  | .function id => function id

end Ty

namespace FunctionType

def spell (function : Nat → Option String) (f : FunctionType) : Option String := do
  let base ← f.returns.spell function
  let params ← f.params.mapM fun p => (p.ty.spell function).map fun s => s ++ " " ++ p.name
  return base ++ "(" ++ ", ".intercalate params ++ ")"

def spellAll : List FunctionType → List (Option String) → List (Option String)
  | [], spelled => spelled
  | f :: fs, spelled => spellAll fs (spelled ++ [f.spell fun id => (spelled[id]?).join])

end FunctionType

namespace Report

def ofField (u : CompilationUnit) (spelled : List (Option String)) (f : Field) :
    Except EmitError FieldReport := do
  let offset ← f.placedOffset
  match f.ty.size? u.extent?, f.ty.spell fun id => (spelled[id]?).join with
  | some size, some type => return ⟨f.name, offset, size, type⟩
  | _, _ => throw (.incomplete f.name)

def ofStruct (u : CompilationUnit) (spelled : List (Option String)) (s : Struct) :
    Except EmitError StructReport := do
  let extent ← s.placedExtent
  let fields ← s.fields.mapM (ofField u spelled)
  return ⟨s.name, extent.size, extent.alignment, fields⟩

def ofUnit (u : CompilationUnit) : Except EmitError Report := do
  u.checkResolved
  let constants ← u.localValues
  let structs ← u.localStructs.mapM (ofStruct u (FunctionType.spellAll u.functions []))
  return ⟨u.filename, constants, structs⟩

open Text

def fieldJson (f : FieldReport) : Json :=
  .object [("name", .text f.name), ("offset", .number f.offset), ("size", .number f.size),
    ("type", .text f.type)]

def structJson (s : StructReport) : Json :=
  .object [("name", .text s.name), ("size", .number s.size), ("alignment", .number s.alignment),
    ("fields", .array (s.fields.map fieldJson))]

def constantJson (c : String × Int64) : Json :=
  .object [("name", .text c.1), ("value", .number c.2.toInt)]

def json (r : Report) : Json :=
  .object [("file", .text r.file), ("constants", .array (r.constants.map constantJson)),
    ("structs", .array (r.structs.map structJson))]

def pieces (r : Report) : List Piece := [⟨r.json.pretty 0, .jsonSinkFull⟩, ⟨"\n", .sinkFull⟩]

end Report

end DataLayout
