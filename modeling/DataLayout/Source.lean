import DataLayout.Location

/-!
# Sources

A source is the text of a file with the name it goes by in messages and in the paths it
includes. Two sources of one identity are the same file, however their names were spelled.
A store answers which source a path means, as written in the file `origin`; the root file is
asked for without an origin. It holds finitely many files.
-/

set_option autoImplicit false

namespace DataLayout

structure Source where
  name : String
  identity : String
  text : String
  deriving DecidableEq, Repr

inductive FileError where
  | notFound
  | notADirectory
  | isADirectory
  | nameTooLong
  | tooManyLinks
  | notText
  | other (message : String)
  deriving DecidableEq, Repr

def FileError.message : FileError → String
  | .notFound => "No such file or directory (os error 2)"
  | .notADirectory => "Not a directory (os error 20)"
  | .isADirectory => "Is a directory (os error 21)"
  | .nameTooLong => "File name too long (os error 36)"
  | .tooManyLinks => "Too many levels of symbolic links (os error 40)"
  | .notText => "stream did not contain valid UTF-8"
  | .other message => message

inductive SourceError where
  | notFound (path : String)
  | unreadable (name : String) (cause : FileError)
  deriving DecidableEq, Repr

def SourceError.message : SourceError → String
  | .notFound path => "cannot find '" ++ path ++ "' in any include paths"
  | .unreadable name cause => "could not read '" ++ name ++ "': " ++ cause.message

/-- An entry that is found under its key is among the entries. -/
theorem mem_of_lookup {α β : Type} [BEq α] [LawfulBEq α] {entries : List (α × β)} {key : α}
    {value : β} (h : entries.lookup key = some value) : (key, value) ∈ entries := by
  obtain ⟨before, after, rfl, _⟩ := List.lookup_eq_some_iff.mp h
  exact List.mem_append_right _ List.mem_cons_self

structure Sources where
  fetch : (origin : Option String) → (path : String) → Except SourceError Source
  identities : List String
  mem_identities : ∀ origin path s, fetch origin path = .ok s → s.identity ∈ identities

end DataLayout
