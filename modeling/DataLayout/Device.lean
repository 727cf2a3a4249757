import DataLayout.FileTree

/-!
# Devices

A file is written in three steps: it is made, or emptied if it is there, then its content is
written, and then what was written is flushed. A device can fail in each of them, whatever the tree
is like: it may not allow the file, take only the first bytes of the content, or not bring what it
took to the disk. What a step has done before it failed stays done.
-/

set_option autoImplicit false

namespace DataLayout

structure Device where
  /-- Why the file at a place is not made, if it is not. -/
  refusal : FileTree → Place → Option FileError
  /-- After how many bytes of a content writing fails, and why. -/
  shortage : FileTree → Place → ByteArray → Option (Nat × FileError)
  /-- Why what was written cannot be flushed. -/
  loss : FileTree → Place → Option FileError

namespace Device

def reliable : Device := ⟨fun _ _ => none, fun _ _ _ => none, fun _ _ => none⟩

/-- Makes an empty file at the place that a path leads to, whether or not there is one. -/
def create (d : Device) (t : FileTree) (path : String) : Except FileError (Place × FileTree) :=
  match t.destination path with
  | .error e => .error e
  | .ok place =>
    match d.refusal t place with
    | some e => .error e
    | none => .ok (place, t.put place (.file .empty))

def writeAll (d : Device) (t : FileTree) (place : Place) (content : ByteArray) :
    FileTree × Option FileError :=
  match d.shortage t place content with
  | some (taken, e) => (t.put place (.file (content.extract 0 taken)), some e)
  | none => (t.put place (.file content), none)

def flush (d : Device) (t : FileTree) (place : Place) : Option FileError := d.loss t place

/-- Makes, writes and flushes a file, up to the first step that fails. -/
def writeFile (d : Device) (t : FileTree) (path : String) (content : ByteArray) :
    FileTree × Option FileError :=
  match d.create t path with
  | .error e => (t, some e)
  | .ok (place, made) =>
    match d.writeAll made place content with
    | (written, some e) => (written, some e)
    | (written, none) => (written, d.flush written place)

end Device

end DataLayout
