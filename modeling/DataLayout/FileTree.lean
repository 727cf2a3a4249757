import DataLayout.Path
import DataLayout.Source

/-!
# File trees

The files, directories and symbolic links of a system, by absolute path, and a working directory.
A path is followed part by part. A link stands for the path it holds, taken from the directory
the link is in; following more than forty of them is an error. A name has at most 255 bytes and a
path at most 4095.
-/

set_option autoImplicit false

namespace DataLayout

/-- An absolute path without links: the names from the root down. -/
abbrev Place := List String

inductive Entry where
  | file (content : ByteArray)
  | directory
  | link (target : String)

structure FileTree where
  entries : List (Place × Entry)
  workingDirectory : Place

namespace FileTree

def maxLinks : Nat := 40

def maxNameBytes : Nat := 255

def maxPathBytes : Nat := 4095

def lookup (t : FileTree) (place : Place) : Option Entry :=
  if place = [] then some .directory else t.entries.lookup place

def put (t : FileTree) (place : Place) (e : Entry) : FileTree :=
  { t with entries := (place, e) :: t.entries.filter (·.1 != place) }

def origin (t : FileTree) (path : String) : Place :=
  if Path.isAbsolute path then [] else t.workingDirectory

def linkOrigin (here : Place) (target : String) : Place :=
  if Path.isAbsolute target then [] else here

/-- Follows parts of a path from the directory `here`; `follow` goes on where a link leads. -/
def walkWith (t : FileTree) (follow : Place → List String → Except FileError Place) :
    List String → Place → Except FileError Place
  | [], here => .ok here
  | part :: rest, here =>
    if part = "" ∨ part = "." then t.walkWith follow rest here
    else if part = ".." then t.walkWith follow rest here.dropLast
    else if maxNameBytes < part.utf8ByteSize then .error .nameTooLong
    else
      match t.lookup (here ++ [part]) with
      | none => .error .notFound
      | some .directory => t.walkWith follow rest (here ++ [part])
      | some (.file _) => if rest = [] then .ok (here ++ [part]) else .error .notADirectory
      | some (.link target) => follow (linkOrigin here target) (Path.parts target ++ rest)

/-- Follows parts of a path and at most the given number of links. -/
def walk (t : FileTree) : Nat → Place → List String → Except FileError Place
  | 0, here, parts => t.walkWith (fun _ _ => .error .tooManyLinks) parts here
  | links + 1, here, parts => t.walkWith (t.walk links) parts here

/-- The place a path leads to. Something is there. -/
def resolve (t : FileTree) (path : String) : Except FileError Place :=
  if path = "" then .error .notFound
  else if maxPathBytes < path.utf8ByteSize then .error .nameTooLong
  else t.walk maxLinks (t.origin path) (Path.parts path)

def read (t : FileTree) (path : String) : Except FileError ByteArray :=
  match t.resolve path with
  | .error e => .error e
  | .ok place =>
    match t.lookup place with
    | some (.file content) => .ok content
    | some .directory => .error .isADirectory
    | _ => .error .notFound

/-- Follows parts of a path to a file that is to be written and need not exist. The directories
before it do. A slash at the end means a directory, whatever stands before it. -/
def createWith (t : FileTree) (follow : Place → List String → Except FileError Place) :
    List String → Place → Except FileError Place
  | [], _ => .error .isADirectory
  | part :: rest, here =>
    if part = "" ∨ part = "." then t.createWith follow rest here
    else if part = ".." then t.createWith follow rest here.dropLast
    else if rest ≠ [] ∧ rest.all (· == "") then .error .isADirectory
    else if maxNameBytes < part.utf8ByteSize then .error .nameTooLong
    else
      match t.lookup (here ++ [part]) with
      | none => if rest = [] then .ok (here ++ [part]) else .error .notFound
      | some .directory => t.createWith follow rest (here ++ [part])
      | some (.file _) => if rest = [] then .ok (here ++ [part]) else .error .notADirectory
      | some (.link target) => follow (linkOrigin here target) (Path.parts target ++ rest)

def create (t : FileTree) : Nat → Place → List String → Except FileError Place
  | 0, here, parts => t.createWith (fun _ _ => .error .tooManyLinks) parts here
  | links + 1, here, parts => t.createWith (t.create links) parts here

/-- The place of the file that writing to a path writes. -/
def destination (t : FileTree) (path : String) : Except FileError Place :=
  if path = "" then .error .notFound
  else if maxPathBytes < path.utf8ByteSize then .error .nameTooLong
  else t.create maxLinks (t.origin path) (Path.parts path)

/-- Makes the directories on a path that are not there, and gives the place of the last. -/
def makeDirectories (t : FileTree) : List String → Place → FileTree × Place
  | [], here => (t, here)
  | part :: rest, here =>
    if part = "" ∨ part = "." then t.makeDirectories rest here
    else
      match t.walk maxLinks here [part] with
      | .ok place => t.makeDirectories rest place
      | .error _ => (t.put (here ++ [part]) .directory).makeDirectories rest (here ++ [part])

def empty (workingDirectory : Place) : FileTree :=
  (makeDirectories ⟨[], workingDirectory⟩ workingDirectory []).1

def add (t : FileTree) (path : String) (e : Entry) : FileTree :=
  let parts := Path.parts path
  let (t, here) := t.makeDirectories parts.dropLast t.workingDirectory
  match e, parts.getLast? with
  | _, none => t
  | .file content, some _ =>
    match t.destination path with
    | .ok place => t.put place (.file content)
    | .error _ => t
  | .directory, some name => (t.makeDirectories [name] here).1
  | .link target, some name => t.put (here ++ [name]) (.link target)

def placeText (place : Place) : String := "/" ++ Path.ofParts place

theorem mem_entries_of_lookup {t : FileTree} {place : Place} {e : Entry}
    (h : t.lookup place = some e) (hne : place ≠ []) : (place, e) ∈ t.entries := by
  rw [lookup, if_neg hne] at h
  exact mem_of_lookup h

theorem ne_nil_of_lookup {t : FileTree} {place : Place} {content : ByteArray}
    (h : t.lookup place = some (.file content)) : place ≠ [] := by
  rintro rfl
  simp [lookup] at h

end FileTree

end DataLayout
