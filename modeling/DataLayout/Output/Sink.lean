/-!
# Sinks

Where output goes. A sink may have a limit: it takes that many bytes in all, and of a text that
does not fit it takes the part that does.
-/

set_option autoImplicit false

namespace DataLayout

structure Sink where
  /-- The number of bytes the sink takes in all; without one it takes everything. -/
  limit : Option Nat
  taken : ByteArray

namespace Sink

def unlimited : Sink := ⟨none, .empty⟩

def limited (limit : Nat) : Sink := ⟨some limit, .empty⟩

def write (s : Sink) (text : String) : Bool × Sink :=
  let bytes := text.toUTF8
  match s.limit with
  | none => (true, { s with taken := s.taken ++ bytes })
  | some limit =>
    let room := limit - s.taken.size
    (decide (bytes.size ≤ room), { s with taken := s.taken ++ bytes.extract 0 room })

/-- The text of some bytes. A character that was cut short at the end, after up to `spare` of its
bytes, reads as the replacement character. -/
def textOf (bytes : ByteArray) : (spare : Nat) → String
  | 0 => (String.fromUTF8? bytes).getD ""
  | spare + 1 =>
    match String.fromUTF8? bytes with
    | some s => s
    | none =>
      let shorter := bytes.extract 0 (bytes.size - 1)
      match String.fromUTF8? shorter with
      | some s => s.push '�'
      | none => textOf shorter spare

def text (s : Sink) : String := textOf s.taken 3

end Sink

end DataLayout
