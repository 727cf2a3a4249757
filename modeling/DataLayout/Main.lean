import DataLayout.CommandLine.Program
import DataLayout.Source.Recorded

/-!
# The command

Reads the command line, the input file and what it includes, and writes the output files.
-/

set_option autoImplicit false

namespace DataLayout.CommandLine

def usage : String :=
  "usage: INPUT -o OUTPUT -g asm68k|cheader [-I DIRECTORY]... [--emit-layout FILE] "
    ++ "[--log-level off|error|warn|info|debug|trace]"

def fileError : IO.Error → FileError
  | .noFileOrDirectory _ _ _ => .notFound
  | .inappropriateType _ 20 _ => .notADirectory
  | .inappropriateType _ 21 _ => .isADirectory
  | .invalidArgument _ 36 _ => .nameTooLong
  | .invalidArgument _ 40 _ => .tooManyLinks
  | .permissionDenied _ code details | .resourceExhausted _ code details =>
    .other (details ++ " (os error " ++ toString code ++ ")")
  | e => .other (toString e)

def openFile (path : String) : IO (String × ByteArray) := do
  let place ← IO.FS.realPath path
  return (place.toString, ← IO.FS.readBinFile path)

/-- Opens the first of some paths that leads to a file. If that one cannot be read the others do not
matter. -/
def openFirst (path : String) : List String → IO (Except SourceError Source)
  | [] => return .error (.notFound path)
  | candidate :: rest => do
    match ← (System.mkFilePath [candidate]).metadata.toBaseIO with
    | .error _ => openFirst path rest
    | .ok data =>
      if data.type != .file then openFirst path rest
      else
        let name := Path.normalize candidate
        match ← (openFile candidate).toBaseIO with
        | .error e => return .error (.unreadable name (fileError e))
        | .ok (identity, content) =>
          match String.fromUTF8? content with
          | none => return .error (.unreadable name .notText)
          | some text => return .ok ⟨name, identity, text⟩

/-- Records the answers for a path and for everything included from there. -/
partial def gather (directories loading : List String) (origin : Option String)
    (known : RecordedSources) (path : String) : IO RecordedSources := do
  let answer ← openFirst path (FileTree.candidates directories origin path)
  let known := known.record (origin, path) answer
  match answer with
  | .error _ => return known
  | .ok s =>
    if s.identity ∈ loading then return known
    s.inclusions.foldlM (gather directories (s.identity :: loading) (some s.name)) known

def writeFile (file : OutputFile) : IO Unit := do
  let handle ← IO.FS.Handle.mk file.path .write
  handle.write file.text.toUTF8
  handle.flush

/-- Writes files in order and gives the complaint about the first that cannot be written. -/
def writeOut : List OutputFile → IO (Option Complaint)
  | [] => return none
  | file :: files => do
    match ← (writeFile file).toBaseIO with
    | .error e => return some (writeComplaint file.path (fileError e))
    | .ok _ => writeOut files

def execute (o : Options) : IO (Option Complaint) := do
  let known ← gather o.includeDirs [] none .empty o.input
  match outputFiles known.sources o with
  | .error c => return some c
  | .ok files => writeOut files

end DataLayout.CommandLine

open DataLayout.CommandLine in
def main (args : List String) : IO UInt32 := do
  match Options.ofWords args with
  | .error .helpRequested => IO.println usage; return 0
  | .error .versionRequested => IO.println "0.1.0"; return 0
  | .error e => IO.eprintln usage; return e.exitCode.toNat.toUInt32
  | .ok o =>
    match ← execute o with
    | none => return 0
    | some c => IO.eprintln c.message; return c.code.toNat.toUInt32
