import DataLayout.Token.Stream

/-!
# Phrases

The grammar is read by functions that take a phrase off the front of a list of tokens. What
they leave is shorter than what they were given, and says so in its type; this is why reading
nested phrases ends. A file whose tokens stop at a lexical error fails with that error when
the reader gets there, and not before.
-/

set_option autoImplicit false

namespace DataLayout

inductive ParseError where
  | lexical (error : LexError)
  | expected (kind : Kind) (found : Symbol)
  | unexpectedAtFileScope (found : Symbol)
  | expectedType (found : Symbol)
  | expectedAtom (found : Symbol)
  | negativeArrayBound (bound : Int64)
  | pointerToArray
  | includeNotFound (path reason : String)
  | includeCycle (path : String)
  deriving DecidableEq, Repr

def ParseError.message : ParseError → String
  | .lexical e => e.message
  | .expected k s => "expected " ++ k.text ++ ", got " ++ s.text
  | .unexpectedAtFileScope s => "unexpected " ++ s.text ++ " at file scope"
  | .expectedType s => "expected type; got " ++ s.text
  | .expectedAtom s => "expected atom; got " ++ s.text
  | .negativeArrayBound n => "array bounds must be positive; got " ++ toString n.toInt
  | .pointerToArray => "cannot declare pointer to array type"
  | .includeNotFound path reason => "file not found: '" ++ path ++ "' - " ++ reason
  | .includeCycle path => "include cycle: '" ++ path ++ "' is already being parsed"

abbrev ParseFailure := Located ParseError

/-- A phrase that was read: what it says, and the tokens behind it, of which there are fewer
than `n`. -/
structure Phrase (n : Nat) (α : Type) where
  value : α
  rest : List Token
  fewer : rest.length < n

abbrev Reading (n : Nat) (α : Type) := Except ParseFailure (Phrase n α)

namespace Phrase

def map {n : Nat} {α β : Type} (f : α → β) (p : Phrase n α) : Phrase n β :=
  ⟨f p.value, p.rest, p.fewer⟩

def one {α : Type} (value : α) (t : Token) (rest : List Token) : Phrase (t :: rest).length α :=
  ⟨value, rest, Nat.lt_succ_self _⟩

def none {α : Type} (value : α) (ts : List Token) : Phrase (ts.length + 1) α :=
  ⟨value, ts, Nat.lt_succ_self _⟩

theorem fewer_trans {a b c : List Token} (h : a.length < b.length) (h' : b.length < c.length) :
    a.length < c.length :=
  Nat.lt_trans h h'

theorem fewer_succ {a b : List Token} (h : a.length < b.length) : a.length < b.length + 1 :=
  Nat.lt_succ_of_lt h

end Phrase

namespace Ending

def failure (ending : Ending) (complain : Symbol → ParseError) : ParseFailure :=
  match ending with
  | .fault e => e.map .lexical
  | .eof location => ⟨location, complain .eof⟩

def look (ending : Ending) : Except ParseFailure Unit :=
  match ending with
  | .fault e => .error (e.map .lexical)
  | .eof _ => .ok ()

def take {α : Type} (ending : Ending) (accept : Token → Option α) (complain : Symbol → ParseError) :
    (ts : List Token) → Reading ts.length α
  | [] => .error (ending.failure complain)
  | t :: rest =>
    match accept t with
    | some v => .ok (.one v t rest)
    | none => .error ⟨t.location, complain t.value⟩

def expect (ending : Ending) (k : Kind) (ts : List Token) : Reading ts.length Token :=
  ending.take (fun t => if t.kind = k then some t else none) (.expected k) ts

def expectValue {α : Type} (ending : Ending) (k : Kind) (pick : Symbol → Option α)
    (ts : List Token) : Reading ts.length (Located α) :=
  ending.take (fun t => (pick t.value).map (⟨t.location, ·⟩)) (.expected k) ts

def expectName (ending : Ending) (ts : List Token) : Reading ts.length (Located String) :=
  ending.expectValue .identifier Symbol.identifier? ts

def expectQuoted (ending : Ending) (ts : List Token) : Reading ts.length (Located String) :=
  ending.expectValue .quoted Symbol.quoted? ts

def expectInteger (ending : Ending) (ts : List Token) : Reading ts.length (Located Int64) :=
  ending.expectValue .integer Symbol.integer? ts

def skip (ending : Ending) (k : Kind) (ts : List Token) : Reading (ts.length + 1) Unit :=
  match ts with
  | [] =>
    match ending.look with
    | .error f => .error f
    | .ok _ => .ok (.none () [])
  | t :: rest =>
    if t.kind = k then .ok ⟨(), rest, by simp only [List.length_cons]; omega⟩
    else .ok (.none () (t :: rest))

end Ending

end DataLayout
