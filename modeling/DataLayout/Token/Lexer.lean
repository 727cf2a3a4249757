import DataLayout.Token.Lexeme

/-!
# Lexer

A lexer stands somewhere in the text of a file and hands out its tokens. One token can be
looked at before it is taken. A failure to read a token moves the lexer on like a token does,
so it can be asked again.
-/

set_option autoImplicit false

namespace DataLayout

structure Lexer where
  file : String
  line : Nat
  /-- The characters that have not been read. -/
  input : List Char
  /-- The token that was looked at and not taken. -/
  peeked : Option Token
  deriving Repr

namespace Lexer

abbrev Outcome := Except (Located LexError) Token

def ofText (file text : String) : Lexer := ⟨file, 1, text.toList, none⟩

def location (l : Lexer) : Location := ⟨l.file, l.line⟩

/-- Reads a token off the input, whether or not one has been looked at. -/
def read (l : Lexer) : Outcome × Lexer :=
  let trivia := Lexeme.skipTrivia l.input l.line
  let scan := Lexeme.scan trivia.2
  let after := { l with line := trivia.1, input := scan.2 }
  match scan.1 with
  | .ok s => (.ok ⟨after.location, s⟩, after)
  | .error e => (.error ⟨after.location, e⟩, after)

/-- Takes the next token. At the end of the text this is the end of file, every time. -/
def next (l : Lexer) : Outcome × Lexer :=
  match l.peeked with
  | some t => (.ok t, { l with peeked := none })
  | none => l.read

/-- Looks at the next token and keeps it. An error is not kept. -/
def peek (l : Lexer) : Outcome × Lexer :=
  match l.peeked with
  | some t => (.ok t, l)
  | none =>
    match l.read with
    | (.ok t, l') => (.ok t, { l' with peeked := some t })
    | (.error e, l') => (.error e, l')

def nextIf (k : Kind) (l : Lexer) : Except (Located LexError) (Option Token) × Lexer :=
  match l.peek with
  | (.error e, l') => (.error e, l')
  | (.ok t, l') => if t.kind = k then (.ok (some t), { l' with peeked := none }) else (.ok none, l')

end Lexer

end DataLayout
