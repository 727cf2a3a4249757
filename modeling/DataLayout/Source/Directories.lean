import DataLayout.FileTree

/-!
# Sources in a file tree

A path is looked for in the directory of the file that mentions it and then in a list of
directories; the first file that is found is meant. Its identity is its place in the tree, so a
file that is reached in different ways is the same file. A place too long to be a path cannot be
one.
-/

set_option autoImplicit false

namespace DataLayout

namespace FileTree

/-- The paths to try. A path from the root file is tried as it is first. -/
def candidates (directories : List String) (origin : Option String) (path : String) :
    List String :=
  Path.join ((origin.bind Path.parent?).getD "") path :: directories.map (Path.join · path)

def file? (t : FileTree) (path : String) : Option (Place × ByteArray) :=
  match t.resolve path with
  | .error _ => none
  | .ok place =>
    match t.lookup place with
    | some (.file content) => some (place, content)
    | _ => none

def firstFile? (t : FileTree) : List String → Option (String × Place × ByteArray)
  | [] => none
  | path :: paths =>
    match t.file? path with
    | some found => some (path, found)
    | none => t.firstFile? paths

def fetch (t : FileTree) (directories : List String) (origin : Option String) (path : String) :
    Except SourceError Source :=
  match t.firstFile? (candidates directories origin path) with
  | none => .error (.notFound path)
  | some (found, place, content) =>
    let name := Path.normalize found
    if maxPathBytes < (placeText place).utf8ByteSize then .error (.unreadable name .nameTooLong)
    else
      match String.fromUTF8? content with
      | none => .error (.unreadable name .notText)
      | some text => .ok ⟨name, placeText place, text⟩

theorem mem_of_file? {t : FileTree} {path : String} {place : Place} {content : ByteArray}
    (h : t.file? path = some (place, content)) : place ∈ t.entries.map Prod.fst := by
  unfold file? at h
  split at h
  · cases h
  · split at h
    · next hfile =>
      cases h
      exact List.mem_map_of_mem (mem_entries_of_lookup hfile (ne_nil_of_lookup hfile))
    · cases h

theorem mem_of_first_file? {t : FileTree} {paths : List String} {path : String} {place : Place}
    {content : ByteArray} (h : t.firstFile? paths = some (path, place, content)) :
    place ∈ t.entries.map Prod.fst := by
  induction paths with
  | nil => cases h
  | cons p ps ih =>
    unfold firstFile? at h
    split at h
    · cases h
      exact mem_of_file? ‹_›
    · exact ih h

/-- The files of a tree as sources, with directories to look for them in. -/
def sources (t : FileTree) (directories : List String) : Sources where
  fetch := t.fetch directories
  identities := t.entries.map fun e => placeText e.1
  mem_identities origin path s h := by
    unfold fetch at h
    split at h
    · cases h
    · dsimp only at h
      split at h
      · cases h
      · split at h
        · cases h
        · cases h
          obtain ⟨e, he, rfl⟩ := List.mem_map.mp (mem_of_first_file? ‹_›)
          exact List.mem_map.mpr ⟨e, he, rfl⟩

end FileTree

end DataLayout
