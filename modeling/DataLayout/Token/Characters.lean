import DataLayout.Token.Lexeme

/-!
# Characters that can be given back

Characters are read one at a time. One that belongs to what follows is given back, and the last
one that was given back is the next one read. Before a symbol up to two are given back: a slash
that begins no comment, and the character behind it.
-/

set_option autoImplicit false

namespace DataLayout

structure Characters where
  /-- Characters that were read and given back, the last one given back first. -/
  pushback : List Char
  chars : List Char
  deriving DecidableEq, Repr

namespace Characters

open Text

/-- What is still to be read, in the order in which it is read. -/
def unread (s : Characters) : List Char := s.pushback ++ s.chars

def get : Characters → Option (Char × Characters)
  | ⟨c :: back, chars⟩ => some (c, ⟨back, chars⟩)
  | ⟨[], c :: chars⟩ => some (c, ⟨[], chars⟩)
  | ⟨[], []⟩ => none

def unget (c : Char) (s : Characters) : Characters := { s with pushback := c :: s.pushback }

def peek (s : Characters) : Option Char × Characters :=
  match s.get with
  | none => (none, s)
  | some (c, s') => (some c, s'.unget c)

/-- Reads a character if it is the given one. -/
def nextIf (t : Char) (s : Characters) : Bool × Characters :=
  match s.get with
  | none => (false, s)
  | some (c, s') => if c = t then (true, s') else (false, s'.unget c)

section Unread

variable {s s' : Characters} {c : Char}

theorem unread_of_get_none (h : s.get = none) : s.unread = [] := by
  obtain ⟨back, chars⟩ := s
  cases back with
  | cons d back => cases h
  | nil =>
    cases chars with
    | cons d chars => cases h
    | nil => rfl

theorem unread_of_get (h : s.get = some (c, s')) : s.unread = c :: s'.unread := by
  obtain ⟨back, chars⟩ := s
  cases back with
  | cons d back =>
    cases h
    rfl
  | nil =>
    cases chars with
    | cons d chars =>
      cases h
      rfl
    | nil => cases h

theorem unget_unread (c : Char) (s : Characters) : (s.unget c).unread = c :: s.unread := rfl

theorem length_of_get (h : s.get = some (c, s')) : s'.unread.length < s.unread.length := by
  rw [unread_of_get h]
  exact Nat.lt_succ_self _

theorem next_if_length_le (t : Char) (s : Characters) :
    (s.nextIf t).2.unread.length ≤ s.unread.length := by
  rw [nextIf]
  split
  · exact Nat.le_refl _
  · next c s' h =>
    split
    · exact Nat.le_of_lt (length_of_get h)
    · exact Nat.le_of_eq (by rw [unget_unread, unread_of_get h])

end Unread

/-- Reads up to the end of the line, which is left to be counted. -/
def skipComment (s : Characters) : Characters :=
  match _h : s.get with
  | none => s
  | some (c, s') => if c = '\n' then s'.unget c else s'.skipComment
termination_by s.unread.length
decreasing_by exact length_of_get _h

theorem skip_comment_unread (s : Characters) :
    s.skipComment.unread = s.unread.dropWhile (· != '\n') := by
  fun_induction skipComment s with
  | case1 s h => rw [unread_of_get_none h, List.dropWhile_nil]
  | case2 s s' h => rw [unread_of_get h, unget_unread, List.dropWhile_cons_of_neg (by simp)]
  | case3 s c s' h hc ih =>
    rw [unread_of_get h, List.dropWhile_cons_of_pos (by simpa using hc), ih]

theorem skip_comment_length_le (s : Characters) :
    s.skipComment.unread.length ≤ s.unread.length := by
  rw [skip_comment_unread]
  exact (List.dropWhile_sublist _).length_le

/-- Skips blanks and comments and counts lines. A slash is given back, and the character behind it
before it, if there is no second slash. -/
def skipTrivia (s : Characters) (line : Nat) : Nat × Characters :=
  match _h : s.get with
  | none => (line, s)
  | some (c, s') =>
    if c = '\n' then s'.skipTrivia (line + 1)
    else if isBlank c then s'.skipTrivia line
    else if c = '/' then
      if (s'.nextIf '/').1 then (s'.nextIf '/').2.skipComment.skipTrivia line
      else (line, (s'.nextIf '/').2.unget c)
    else (line, s'.unget c)
termination_by s.unread.length
decreasing_by
  · exact length_of_get _h
  · exact length_of_get _h
  · exact Nat.lt_of_le_of_lt (Nat.le_trans (skip_comment_length_le _) (next_if_length_le _ _))
      (length_of_get _h)

abbrev Scan := Except LexError Symbol × Characters

def digits (s : Characters) (value : Nat) : Option Nat × Characters :=
  match _h : s.get with
  | none => (some value, s)
  | some (c, s') =>
    if c.isDigit then
      if value * 10 + (c.toNat - '0'.toNat) < Lexeme.accumulatorLimit then
        s'.digits (value * 10 + (c.toNat - '0'.toNat))
      else (none, s')
    else (some value, s'.unget c)
termination_by s.unread.length
decreasing_by exact length_of_get _h

def scanInteger (negative : Bool) (s : Characters) : Scan :=
  match s.digits 0 with
  | (none, s') => (.error .integerOutOfRange, s')
  | (some magnitude, s') =>
    match Lexeme.signed negative magnitude with
    | some v => (.ok (.integer v), s')
    | none => (.error .integerOutOfRange, s')

def word (s : Characters) : List Char × Characters :=
  match _h : s.get with
  | none => ([], s)
  | some (c, s') =>
    if Lexeme.isWordPart c then s'.word.map (c :: ·) id else ([], s'.unget c)
termination_by s.unread.length
decreasing_by exact length_of_get _h

def scanWord (s : Characters) : Scan :=
  s.word.map (fun cs => .ok (Symbol.ofWord (String.ofList cs))) id

def quotedBody (s : Characters) : Except LexError (List Char) × Characters :=
  match _h : s.get with
  | none => (.error .unterminatedString, s)
  | some (c, s') =>
    if c = '"' then (.ok [], s')
    else if c = '\n' then (.error .newlineInString, s')
    else if c = '\\' then
      match _h' : s'.get with
      | none => (.error .unterminatedString, s')
      | some (d, s'') =>
        match Lexeme.escape? d with
        | none => (.error (.unknownEscape d), s'')
        | some e => s''.quotedBody.map (·.map (e :: ·)) id
    else s'.quotedBody.map (·.map (c :: ·)) id
termination_by s.unread.length
decreasing_by
  · exact Nat.lt_trans (length_of_get _h') (length_of_get _h)
  · exact length_of_get _h

def scanQuoted (s : Characters) : Scan :=
  s.quotedBody.map (·.map fun body => .quoted (String.ofList body)) id

/-- Reads the second character of a mark that is the same character twice. -/
def scanPair (c : Char) (m : Mark) (s : Characters) : Scan :=
  (s.nextIf c).map (fun twice => if twice then .ok (.mark m) else .error (.illegalCharacter c)) id

def scanMark (c : Char) (s : Characters) : Scan :=
  if c = '<' then s.scanPair c .shiftLeft
  else if c = '>' then s.scanPair c .shiftRight
  else
    match Lexeme.mark? c with
    | some m => (.ok (.mark m), s)
    | none => (.error (.illegalCharacter c), s)

/-- Reads the symbol that comes next. The first character tells what kind it is of, and is given
back if it is a part of the number or the word. -/
def scan (s : Characters) : Scan :=
  match s.get with
  | none => (.ok .eof, s)
  | some (c, s') =>
    if c.isDigit then (s'.unget c).scanInteger false
    else if Lexeme.isWordStart c then (s'.unget c).scanWord
    else if c = '-' then
      if s'.peek.1.any Char.isDigit then s'.peek.2.scanInteger true else s'.peek.2.scanMark c
    else if c = '"' then s'.scanQuoted
    else s'.scanMark c

end Characters

end DataLayout
