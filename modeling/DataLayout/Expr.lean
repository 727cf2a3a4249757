import DataLayout.Token

/-!
# Constant expressions

Expressions over signed 64-bit words. Every node remembers where it was written: a literal
and a name at their own token, an operation at its operator.
-/

set_option autoImplicit false

namespace DataLayout

inductive UnaryOp where
  | negate
  | complement
  deriving DecidableEq, Repr

def UnaryOp.text : UnaryOp → String
  | .negate => "-"
  | .complement => "~"

inductive BinaryOp where
  | add
  | sub
  | mul
  | div
  | shiftLeft
  | shiftRight
  deriving DecidableEq, Repr

namespace BinaryOp

def text : BinaryOp → String
  | .add => "+"
  | .sub => "-"
  | .mul => "*"
  | .div => "/"
  | .shiftLeft => "<<"
  | .shiftRight => ">>"

def precedence : BinaryOp → Nat
  | .shiftLeft | .shiftRight => 1
  | .add | .sub => 2
  | .mul | .div => 3

def ofSymbol? : Symbol → Option BinaryOp
  | .mark .shiftLeft => some .shiftLeft
  | .mark .shiftRight => some .shiftRight
  | .mark .plus => some .add
  | .mark .minus => some .sub
  | .mark .star => some .mul
  | .mark .slash => some .div
  | _ => none

end BinaryOp

inductive Expr where
  | literal (location : Location) (value : Int64)
  | constant (location : Location) (name : String)
  | unary (location : Location) (op : UnaryOp) (operand : Expr)
  | binary (location : Location) (op : BinaryOp) (left right : Expr)
  deriving DecidableEq, Repr

namespace Expr

def location : Expr → Location
  | .literal l _ | .constant l _ | .unary l _ _ | .binary l _ _ _ => l

def rootText : Expr → String
  | .literal _ v => toString v.toInt
  | .constant _ x => x
  | .unary _ op _ => op.text
  | .binary _ op _ _ => op.text

/-- The expression as it may be written, with parentheses around every binary operation. -/
def text : Expr → String
  | .literal _ v => toString v.toInt
  | .constant _ x => x
  | .unary _ op e => op.text ++ e.text
  | .binary _ op l r => "(" ++ l.text ++ " " ++ op.text ++ " " ++ r.text ++ ")"

def nodes : Expr → List Expr
  | .literal l v => [.literal l v]
  | .constant l x => [.constant l x]
  | .unary l op e => .unary l op e :: e.nodes
  | .binary l op a b => .binary l op a b :: (a.nodes ++ b.nodes)

end Expr

end DataLayout
