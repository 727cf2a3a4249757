import DataLayout.CommandLine.Options
import DataLayout.Compile
import DataLayout.Device
import DataLayout.Source.Directories

/-!
# The program

Compiles a file and writes what was asked for. All output is made before the first file is
written; the first thing that goes wrong is reported and ends the program with a code of its own.
-/

set_option autoImplicit false

namespace DataLayout.CommandLine

inductive ExitCode where
  | success
  | configuration
  | resolution
  | syntactic
  | writing
  | lexical
  deriving DecidableEq, Repr

def ExitCode.toNat : ExitCode → Nat
  | .success => 0
  | .configuration => 1
  | .resolution => 2
  | .syntactic => 3
  | .writing => 4
  | .lexical => 5

def exitCode : CompileError → ExitCode
  | .source _ _ => .configuration
  | .parse f =>
    match f.value with
    | .lexical _ => .lexical
    | _ => .syntactic
  | .resolve _ => .resolution

structure Complaint where
  message : String
  code : ExitCode
  deriving DecidableEq, Repr

def OptionError.exitCode : OptionError → ExitCode
  | .helpRequested | .versionRequested => .success
  | _ => .configuration

structure OutputFile where
  path : String
  text : String
  deriving DecidableEq, Repr

def outputFile (path : String) (format : Format) (u : CompilationUnit) :
    Except Complaint OutputFile :=
  match format.text u with
  | .error e => .error ⟨e.message, .writing⟩
  | .ok text => .ok ⟨path, text⟩

def outputFiles (sources : Sources) (o : Options) : Except Complaint (List OutputFile) :=
  match compile sources o.input with
  | .error e => .error ⟨e.message, exitCode e⟩
  | .ok u =>
    match outputFile o.output o.generator u with
    | .error c => .error c
    | .ok file =>
      match o.emitLayout with
      | none => .ok [file]
      | some path =>
        match outputFile path .layout u with
        | .error c => .error c
        | .ok report => .ok [file, report]

def writeComplaint (path : String) (e : FileError) : Complaint :=
  ⟨path ++ ": " ++ e.message, .writing⟩

/-- The files after the program has run, and its complaint, if it has one. -/
structure Outcome where
  tree : FileTree
  complaint : Option Complaint

def Outcome.code (o : Outcome) : ExitCode :=
  match o.complaint with
  | none => .success
  | some c => c.code

def writeFiles (d : Device) (t : FileTree) : List OutputFile → Outcome
  | [] => ⟨t, none⟩
  | file :: files =>
    match d.writeFile t file.path file.text.toUTF8 with
    | (t', some e) => ⟨t', some (writeComplaint file.path e)⟩
    | (t', none) => writeFiles d t' files

/-- Runs the program on a tree of files that are written to the given device. -/
def run (d : Device) (t : FileTree) (o : Options) : Outcome :=
  match outputFiles (t.sources o.includeDirs) o with
  | .error c => ⟨t, some c⟩
  | .ok files => writeFiles d t files

end DataLayout.CommandLine
