import DataLayout.CompilationUnit
import DataLayout.Declaration.Reader
import DataLayout.Source

/-!
# Loading files

A loader reads a file and, where it includes another, reads that one first and adds what it
declares. It remembers the files it is in the middle of, innermost first; including one of
them again is an error. A file is left whether reading it went well or not.
-/

set_option autoImplicit false

namespace DataLayout

structure Loader where
  sources : Sources
  /-- The identities of the files being read, innermost first. -/
  loading : List String

namespace Loader

def ofSources (sources : Sources) : Loader := ⟨sources, []⟩

/-- What loading gives: a unit or a failure, and the files still being read. -/
abbrev Outcome := Except ParseFailure CompilationUnit × List String

/-- Adds the statements of the file `file` to the unit, one after another. Included files are
loaded by `load`; there is none when as many files are being read as the store holds, and then
every file that can be included is among them. -/
def assemble (sources : Sources) (load : Option (Source → List String → Outcome)) (file : String)
    (failure : Option ParseFailure) : List Statement → CompilationUnit → List String → Outcome
  | [], unit, loading =>
    match failure with
    | some f => (.error f, loading)
    | none => (.ok unit, loading)
  | .struct s fns :: rest, unit, loading =>
    assemble sources load file failure rest (unit.addStruct s fns) loading
  | .constant c :: rest, unit, loading =>
    assemble sources load file failure rest (unit.addConstant c) loading
  | .inclusion loc path :: rest, unit, loading =>
    match sources.fetch (some file) path with
    | .error e => (.error ⟨loc, .includeNotFound path e.message⟩, loading)
    | .ok source =>
      if source.identity ∈ loading then (.error ⟨loc, .includeCycle path⟩, loading)
      else
        match load with
        | none => (.error ⟨loc, .includeCycle path⟩, loading)
        | some load' =>
          match load' source loading with
          | (.error f, loading') => (.error f, loading')
          | (.ok nested, loading') =>
            assemble sources load file failure rest (unit.addIncluded path nested) loading'

def enter (sources : Sources) (load : Option (Source → List String → Outcome)) (source : Source)
    (loading : List String) : Outcome :=
  let script := Script.ofText source.name source.text
  let outcome := assemble sources load source.name script.failure script.statements
    (CompilationUnit.empty source.name) (source.identity :: loading)
  (outcome.1, outcome.2.tail)

/-- Loads a file with what it includes, down to the given depth of includes. -/
def loadTo (sources : Sources) : Nat → Source → List String → Outcome
  | 0 => enter sources none
  | depth + 1 => enter sources (some (loadTo sources depth))

def load (l : Loader) (source : Source) : Except ParseFailure CompilationUnit × Loader :=
  let outcome := loadTo l.sources l.sources.identities.length source l.loading
  (outcome.1, { l with loading := outcome.2 })

end Loader

end DataLayout
