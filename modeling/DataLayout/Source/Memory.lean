import DataLayout.Path
import DataLayout.Source

/-!
# Sources held in memory

Named texts. A path is taken from the directory of the file that mentions it, and nothing but
the separator is normalized: a name must be spelled the way it was entered.
-/

set_option autoImplicit false

namespace DataLayout

structure MemorySources where
  files : List (String × String)
  deriving DecidableEq, Repr

namespace MemorySources

def empty : MemorySources := ⟨[]⟩

def insert (m : MemorySources) (name text : String) : MemorySources :=
  let name := Path.normalize name
  ⟨(name, text) :: m.files.filter (·.1 != name)⟩

def ofList (files : List (String × String)) : MemorySources :=
  files.foldl (fun m file => m.insert file.1 file.2) empty

def target (origin : Option String) (path : String) : String :=
  match origin.bind Path.parent? with
  | some directory => Path.normalize (Path.join directory path)
  | none => Path.normalize path

def fetch (m : MemorySources) (origin : Option String) (path : String) :
    Except SourceError Source :=
  let name := target origin path
  match m.files.lookup name with
  | some text => .ok ⟨name, name, text⟩
  | none => .error (.notFound path)

def sources (m : MemorySources) : Sources where
  fetch := m.fetch
  identities := m.files.map Prod.fst
  mem_identities origin path s h := by
    simp only [fetch] at h
    split at h
    · cases h
      exact List.mem_map_of_mem (mem_of_lookup ‹_›)
    · cases h

end MemorySources

end DataLayout
