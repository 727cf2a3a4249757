import DataLayout.Token.Characters
import DataLayout.Token.Lexer

/-!
# Reading tokens character by character

A lexer that reads its text one character at a time and gives characters back. It hands out tokens
in the way a lexer with the whole text before it does.
-/

set_option autoImplicit false

namespace DataLayout

structure Reader where
  file : String
  line : Nat
  characters : Characters
  peeked : Option Token
  deriving Repr

namespace Reader

open Lexer (Outcome)

def ofText (file text : String) : Reader := ⟨file, 1, ⟨[], text.toList⟩, none⟩

def location (r : Reader) : Location := ⟨r.file, r.line⟩

def read (r : Reader) : Outcome × Reader :=
  let trivia := r.characters.skipTrivia r.line
  let scan := trivia.2.scan
  let after := { r with line := trivia.1, characters := scan.2 }
  match scan.1 with
  | .ok s => (.ok ⟨after.location, s⟩, after)
  | .error e => (.error ⟨after.location, e⟩, after)

def next (r : Reader) : Outcome × Reader :=
  match r.peeked with
  | some t => (.ok t, { r with peeked := none })
  | none => r.read

def peek (r : Reader) : Outcome × Reader :=
  match r.peeked with
  | some t => (.ok t, r)
  | none =>
    match r.read with
    | (.ok t, r') => (.ok t, { r' with peeked := some t })
    | (.error e, r') => (.error e, r')

def nextIf (k : Kind) (r : Reader) : Except (Located LexError) (Option Token) × Reader :=
  match r.peek with
  | (.error e, r') => (.error e, r')
  | (.ok t, r') => if t.kind = k then (.ok (some t), { r' with peeked := none }) else (.ok none, r')

end Reader

end DataLayout
