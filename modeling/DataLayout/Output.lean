import DataLayout.Output.Assembly
import DataLayout.Output.Header
import DataLayout.Output.Report

/-!
# Output formats

Every format is a list of pieces that are written one after another. All of them are made
before the first is written.
-/

set_option autoImplicit false

namespace DataLayout

inductive Format where
  | asm68k
  | cheader
  | layout
  deriving DecidableEq, Repr

namespace Format

def name : Format → String
  | .asm68k => "asm68k"
  | .cheader => "cheader"
  | .layout => "layout"

def ofName? : String → Option Format
  | "asm68k" => some .asm68k
  | "cheader" => some .cheader
  | "layout" => some .layout
  | _ => none

def pieces (u : CompilationUnit) : Format → Except EmitError (List Piece)
  | .asm68k => (Assembly.lines u).map (·.map Piece.line)
  | .cheader => (Header.lines u).map (·.map Piece.line)
  | .layout => (Report.ofUnit u).map Report.pieces

def emit (format : Format) (u : CompilationUnit) (s : Sink) : Option EmitError × Sink :=
  match format.pieces u with
  | .error e => (some e, s)
  | .ok pieces => s.writeAll pieces

def text (format : Format) (u : CompilationUnit) : Except EmitError String :=
  (format.pieces u).map fun pieces => String.join (pieces.map Piece.text)

end Format

end DataLayout
