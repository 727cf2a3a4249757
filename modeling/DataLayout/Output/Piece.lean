import DataLayout.CompilationUnit
import DataLayout.Output.Sink
import DataLayout.Path

/-!
# Writing units

Output is made for a resolved unit. It tells only of the declarations of the unit's own file and
points to the output of the files it includes. A unit that says it is resolved and still lacks a
number cannot be written.
-/

set_option autoImplicit false

namespace DataLayout

inductive EmitError where
  | notResolved
  | incomplete (what : String)
  | sinkFull
  | jsonSinkFull
  deriving DecidableEq, Repr

def EmitError.message : EmitError → String
  | .notResolved => "cannot generate output for an unresolved unit"
  | .incomplete what => what ++ " is incomplete"
  | .sinkFull | .jsonSinkFull => "failed to write whole buffer"

/-- A text to be written, and the failure to report if it is not taken whole. -/
structure Piece where
  text : String
  failure : EmitError
  deriving DecidableEq, Repr

def Piece.line (text : String) : Piece := ⟨text ++ "\n", .sinkFull⟩

def Sink.writeAll (s : Sink) : List Piece → Option EmitError × Sink
  | [] => (none, s)
  | p :: ps =>
    match s.write p.text with
    | (true, s') => s'.writeAll ps
    | (false, s') => (some p.failure, s')

namespace CompilationUnit

def checkResolved (u : CompilationUnit) : Except EmitError Unit :=
  if u.resolved then .ok () else .error .notResolved

def localStructs (u : CompilationUnit) : List Struct := u.structs.filter (!·.included)

def valued (u : CompilationUnit) : Except EmitError (List (Constant × Int64)) :=
  u.values.mapM fun v =>
    match u.constants[v.1]? with
    | some c => .ok (c, v.2)
    | none => .error (.incomplete "constant")

def localValues (u : CompilationUnit) : Except EmitError (List (String × Int64)) :=
  u.valued.map fun cs => (cs.filter (!·.1.included)).map fun c => (c.1.name, c.2)

end CompilationUnit

namespace Struct

def placedExtent (s : Struct) : Except EmitError Extent :=
  match s.extent with
  | some e => .ok e
  | none => .error (.incomplete s.name)

end Struct

def Field.placedOffset (f : Field) : Except EmitError Nat :=
  match f.offset with
  | some n => .ok n
  | none => .error (.incomplete f.name)

/-- The name under which the output for an included path is found: its file name without
directory and extension. -/
def includeStem (path : String) : String :=
  let path := Path.normalize path
  (Path.stem? path).getD path

end DataLayout
