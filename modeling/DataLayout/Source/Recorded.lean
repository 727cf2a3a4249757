import DataLayout.Declaration.Reader
import DataLayout.Source

/-!
# Recorded answers

The answers another store has given, kept so that they can be given again. A program that reads
files asks for all of them first and then compiles from what it was told.
-/

set_option autoImplicit false

namespace DataLayout

/-- The paths that a source includes, up to the first statement that cannot be read. -/
def Source.inclusions (s : Source) : List String :=
  (Script.ofText s.name s.text).statements.filterMap fun
    | .inclusion _ path => some path
    | _ => none

abbrev Request := Option String × String

structure RecordedSources where
  answers : List (Request × Except SourceError Source)

namespace RecordedSources

def empty : RecordedSources := ⟨[]⟩

def record (r : RecordedSources) (request : Request) (answer : Except SourceError Source) :
    RecordedSources :=
  ⟨(request, answer) :: r.answers⟩

def fetch (r : RecordedSources) (origin : Option String) (path : String) :
    Except SourceError Source :=
  (r.answers.lookup (origin, path)).getD (.error (.notFound path))

def identity? (answer : Request × Except SourceError Source) : Option String :=
  match answer.2 with
  | .ok s => some s.identity
  | .error _ => none

def sources (r : RecordedSources) : Sources where
  fetch := r.fetch
  identities := r.answers.filterMap identity?
  mem_identities origin path s h := by
    unfold fetch at h
    cases hl : r.answers.lookup (origin, path) with
    | none => simp [hl] at h
    | some a =>
      rw [hl] at h
      have hm := mem_of_lookup (hl.trans (congrArg some h))
      exact List.mem_filterMap.mpr ⟨_, hm, rfl⟩

end RecordedSources

end DataLayout
