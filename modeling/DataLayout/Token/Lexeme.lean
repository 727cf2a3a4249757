import DataLayout.Token
import DataLayout.Text.Alphabetic
import DataLayout.Text.Blank
import DataLayout.Text.Numeric

/-!
# Lexemes

One symbol is taken off the front of a list of characters. Before it there may be blanks and
comments that run from two slashes to the end of the line. A symbol ends where its longest
spelling ends. When no symbol can be read the characters looked at so far are still consumed,
so that reading can go on behind them.
-/

set_option autoImplicit false

namespace DataLayout

inductive LexError where
  | illegalCharacter (c : Char)
  | unterminatedString
  | newlineInString
  | unknownEscape (c : Char)
  | integerOutOfRange
  deriving DecidableEq, Repr

def LexError.message : LexError → String
  | .illegalCharacter c => "illegal character: '" ++ c.toString ++ "'"
  | .unterminatedString => "end of file inside quoted string"
  | .newlineInString => "newline in quoted string"
  | .unknownEscape c => "unsupported escape: '" ++ c.toString ++ "'"
  | .integerOutOfRange => "integer literal out of range"

namespace Lexeme

open Text

mutual

/-- Skips blanks and comments and counts the lines that end in them. -/
def skipTrivia : List Char → Nat → Nat × List Char
  | [], line => (line, [])
  | '\n' :: cs, line => skipTrivia cs (line + 1)
  | '/' :: '/' :: cs, line => skipComment cs line
  | c :: cs, line => if isBlank c then skipTrivia cs line else (line, c :: cs)

def skipComment : List Char → Nat → Nat × List Char
  | [], line => (line, [])
  | '\n' :: cs, line => skipTrivia cs (line + 1)
  | _ :: cs, line => skipComment cs line

end

/-- What reading one symbol gives: the symbol or an error, and the characters left over. -/
abbrev Scan := Except LexError Symbol × List Char

/-- The greatest magnitude that is looked at while digits are added up is below this. -/
def accumulatorLimit : Nat := 18446744073709551616

/-- Adds decimal digits to `value` for as long as there are any. The digit that takes the value
over the limit is consumed and ends the reading with nothing. -/
def digits : List Char → Nat → Option Nat × List Char
  | [], value => (some value, [])
  | c :: cs, value =>
    if c.isDigit then
      let value' := value * 10 + (c.toNat - '0'.toNat)
      if value' < accumulatorLimit then digits cs value' else (none, cs)
    else (some value, c :: cs)

def signedLimit : Nat := 9223372036854775808

/-- The signed word with the given magnitude. A negative one may be greater by one. -/
def signed (negative : Bool) (magnitude : Nat) : Option Int64 :=
  if negative then
    if magnitude ≤ signedLimit then some (Int64.ofInt (-magnitude)) else none
  else if magnitude < signedLimit then some (Int64.ofInt magnitude) else none

def scanInteger (negative : Bool) (cs : List Char) : Scan :=
  match digits cs 0 with
  | (none, rest) => (.error .integerOutOfRange, rest)
  | (some magnitude, rest) =>
    match signed negative magnitude with
    | some v => (.ok (.integer v), rest)
    | none => (.error .integerOutOfRange, rest)

def isWordStart (c : Char) : Bool := isAlphabetic c || c == '_'

def isWordPart (c : Char) : Bool := isAlphabetic c || isNumeric c || c == '_'

def scanWord (cs : List Char) : Scan :=
  (.ok (Symbol.ofWord (String.ofList (cs.takeWhile isWordPart))), cs.dropWhile isWordPart)

def escape? : Char → Option Char
  | '\\' => some '\\'
  | 'n' => some '\n'
  | 'r' => some '\r'
  | 't' => some '\t'
  | '"' => some '"'
  | _ => none

/-- Reads up to the closing quote, which is consumed. -/
def quotedBody : List Char → Except LexError (List Char) × List Char
  | [] => (.error .unterminatedString, [])
  | '"' :: cs => (.ok [], cs)
  | '\n' :: cs => (.error .newlineInString, cs)
  | ['\\'] => (.error .unterminatedString, [])
  | '\\' :: c :: cs =>
    match escape? c with
    | none => (.error (.unknownEscape c), cs)
    | some d => ((quotedBody cs).1.map (d :: ·), (quotedBody cs).2)
  | c :: cs => ((quotedBody cs).1.map (c :: ·), (quotedBody cs).2)

def scanQuoted (cs : List Char) : Scan :=
  ((quotedBody cs).1.map fun body => .quoted (String.ofList body), (quotedBody cs).2)

def mark? : Char → Option Mark
  | '\x7b' => some .lbrace
  | '\x7d' => some .rbrace
  | '(' => some .lparen
  | ')' => some .rparen
  | '[' => some .lbracket
  | ']' => some .rbracket
  | ',' => some .comma
  | ':' => some .colon
  | ';' => some .semicolon
  | '*' => some .star
  | '+' => some .plus
  | '-' => some .minus
  | '/' => some .slash
  | '=' => some .equals
  | '~' => some .tilde
  | _ => none

/-- Reads a mark. Angle brackets occur in pairs only, as the shift operators. -/
def scanMark (c : Char) (cs : List Char) : Scan :=
  match c, cs with
  | '<', '<' :: rest => (.ok (.mark .shiftLeft), rest)
  | '>', '>' :: rest => (.ok (.mark .shiftRight), rest)
  | _, _ =>
    match mark? c with
    | some m => (.ok (.mark m), cs)
    | none => (.error (.illegalCharacter c), cs)

def startsWithDigit : List Char → Bool
  | [] => false
  | c :: _ => c.isDigit

def scan : List Char → Scan
  | [] => (.ok .eof, [])
  | c :: cs =>
    if c.isDigit then scanInteger false (c :: cs)
    else if isWordStart c then scanWord (c :: cs)
    else if c = '-' ∧ startsWithDigit cs then scanInteger true cs
    else if c = '"' then scanQuoted cs
    else scanMark c cs

end Lexeme

end DataLayout
