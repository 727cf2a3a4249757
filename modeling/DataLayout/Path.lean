/-!
# Paths

A path is a text whose parts are separated by slashes. Empty parts do not count, and neither
do single dots, unless a path begins with one. A path that begins with a slash is absolute.
-/

set_option autoImplicit false

namespace DataLayout.Path

/-- The parts of a path, empty ones included. There is always at least one. -/
def splitChars : List Char → List (List Char)
  | [] => [[]]
  | c :: cs =>
    if c = '/' then [] :: splitChars cs
    else
      match splitChars cs with
      | [] => [[c]]
      | part :: parts => (c :: part) :: parts

def parts (path : String) : List String := (splitChars path.toList).map String.ofList

def ofParts (parts : List String) : String := "/".intercalate parts

def isAbsolute (path : String) : Bool := path.toList.head? == some '/'

/-- Drops parts that do not count from the end of a list of parts, given in reverse. The very
first part counts if it is a dot. -/
def dropVoid : List String → List String
  | [] => []
  | [part] => if part = "" then [] else [part]
  | part :: before => if part = "" ∨ part = "." then dropVoid before else part :: before

/-- The path without its last part. An absolute path without parts and the empty path have no
parent. -/
def parent? (path : String) : Option String :=
  match dropVoid (parts path).reverse with
  | [] => none
  | _ :: before =>
    match dropVoid before with
    | [] => some (if isAbsolute path then "/" else "")
    | kept => some (ofParts kept.reverse)

def fileName? (path : String) : Option String :=
  match dropVoid (parts path).reverse with
  | [] => none
  | part :: _ => if part = "." ∨ part = ".." then none else some part

/-- The characters before the last dot, if there is a dot and it is not the first character. -/
def beforeLastDot? (name : List Char) : Option (List Char) :=
  match name.reverse.dropWhile (· != '.') with
  | [] | [_] => none
  | _ :: before => some before.reverse

def stem? (path : String) : Option String :=
  (fileName? path).map fun name =>
    match beforeLastDot? name.toList with
    | some before => String.ofList before
    | none => name

def join (base path : String) : String :=
  if isAbsolute path then path
  else
    match base.toList.getLast? with
    | none | some '/' => base ++ path
    | some _ => base ++ "/" ++ path

def normalize (path : String) : String := path.map fun c => if c = '\\' then '/' else c

end DataLayout.Path
