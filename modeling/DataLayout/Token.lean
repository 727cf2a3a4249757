import DataLayout.Location
import DataLayout.Primitive

/-!
# Tokens

The words and marks a declaration file is made of. A token is a symbol and the place where
it stood. The kind of a symbol forgets what an integer, a name or a string holds; the grammar
asks for kinds.
-/

set_option autoImplicit false

namespace DataLayout

inductive Keyword where
  | struct
  | incl
  | const
  | void
  deriving DecidableEq, Repr

def Keyword.text : Keyword → String
  | .struct => "struct"
  | .incl => "include"
  | .const => "const"
  | .void => "void"

inductive Mark where
  | lbrace
  | rbrace
  | lparen
  | rparen
  | lbracket
  | rbracket
  | comma
  | colon
  | semicolon
  | star
  | plus
  | minus
  | slash
  | equals
  | tilde
  | shiftLeft
  | shiftRight
  deriving DecidableEq, Repr

def Mark.text : Mark → String
  | .lbrace => "\x7b"
  | .rbrace => "\x7d"
  | .lparen => "("
  | .rparen => ")"
  | .lbracket => "["
  | .rbracket => "]"
  | .comma => ","
  | .colon => ":"
  | .semicolon => ";"
  | .star => "*"
  | .plus => "+"
  | .minus => "-"
  | .slash => "/"
  | .equals => "="
  | .tilde => "~"
  | .shiftLeft => "<<"
  | .shiftRight => ">>"

inductive Symbol where
  | integer (value : Int64)
  | identifier (name : String)
  | quoted (text : String)
  | primitive (type : Primitive)
  | keyword (word : Keyword)
  | mark (mark : Mark)
  | eof
  deriving DecidableEq, Repr

/-- The kind of a symbol. Keywords and marks are kinds of their own, all primitives are one. -/
inductive Kind where
  | integer
  | identifier
  | quoted
  | primitive
  | keyword (word : Keyword)
  | mark (mark : Mark)
  | eof
  deriving DecidableEq, Repr

namespace Symbol

def kind : Symbol → Kind
  | .integer _ => .integer
  | .identifier _ => .identifier
  | .quoted _ => .quoted
  | .primitive _ => .primitive
  | .keyword w => .keyword w
  | .mark m => .mark m
  | .eof => .eof

def integer? : Symbol → Option Int64
  | .integer v => some v
  | .identifier _ | .quoted _ | .primitive _ | .keyword _ | .mark _ | .eof => none

def identifier? : Symbol → Option String
  | .identifier x => some x
  | _ => none

def quoted? : Symbol → Option String
  | .quoted s => some s
  | _ => none

/-- The words with a meaning of their own; every other word is an identifier. -/
def ofWord : String → Symbol
  | "struct" => .keyword .struct
  | "include" => .keyword .incl
  | "const" => .keyword .const
  | "void" => .keyword .void
  | "u8" => .primitive .u8
  | "u16" => .primitive .u16
  | "u32" => .primitive .u32
  | "i8" => .primitive .i8
  | "i16" => .primitive .i16
  | "i32" => .primitive .i32
  | "f32" => .primitive .f32
  | "f64" => .primitive .f64
  | word => .identifier word

def text : Symbol → String
  | .integer v => "integer literal " ++ toString v.toInt
  | .identifier x => "identifier " ++ x
  | .quoted s => "string \"" ++ s ++ "\""
  | .primitive p => p.name
  | .keyword w => w.text
  | .mark m => m.text
  | .eof => "end of file"

end Symbol

def Kind.text : Kind → String
  | .integer => "integer literal"
  | .identifier => "identifier"
  | .quoted => "string"
  | .primitive => "primitive"
  | .keyword w => w.text
  | .mark m => m.text
  | .eof => "end of file"

abbrev Token := Located Symbol

namespace Token

def kind (t : Token) : Kind := t.value.kind

def text (t : Token) : String := Located.text Symbol.text t

end Token

end DataLayout
