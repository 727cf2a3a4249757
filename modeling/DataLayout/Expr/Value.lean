import DataLayout.Expr

/-!
# Values of expressions

Arithmetic wraps around at 64 bits. Division truncates. Shifts are defined for operands that
are not negative and counts below 64, and `<<` drops the bits that leave the word.
-/

set_option autoImplicit false

namespace DataLayout

inductive ArithmeticError where
  | divisionByZero
  | shiftNegativeOperand (value : Int64)
  | shiftNegativeCount (count : Int64)
  | shiftCountTooLarge (count : Int64)
  deriving DecidableEq, Repr

def ArithmeticError.message : ArithmeticError → String
  | .divisionByZero => "division by zero"
  | .shiftNegativeOperand v => "cannot shift negative value " ++ toString v.toInt
  | .shiftNegativeCount c => "negative shift count " ++ toString c.toInt
  | .shiftCountTooLarge c => "shift count " ++ toString c.toInt ++ " is larger than 63"

def UnaryOp.apply : UnaryOp → Int64 → Int64
  | .negate, v => -v
  | .complement, v => ~~~v

namespace BinaryOp

def shift (f : Int64 → Int64 → Int64) (l r : Int64) : Except ArithmeticError Int64 :=
  if l < 0 then .error (.shiftNegativeOperand l)
  else if r < 0 then .error (.shiftNegativeCount r)
  else if 63 < r then .error (.shiftCountTooLarge r)
  else .ok (f l r)

def apply : BinaryOp → Int64 → Int64 → Except ArithmeticError Int64
  | .add, l, r => .ok (l + r)
  | .sub, l, r => .ok (l - r)
  | .mul, l, r => .ok (l * r)
  | .div, l, r => if r = 0 then .error .divisionByZero else .ok (l / r)
  | .shiftLeft, l, r => shift (· <<< ·) l r
  | .shiftRight, l, r => shift (· >>> ·) l r

end BinaryOp

/-- The value of an expression, given the values of names. Operands are evaluated from left to
right and the first failure is the result. -/
def Expr.value {ε : Type} (arithmetic : Located ArithmeticError → ε)
    (name : Location → String → Except ε Int64) : Expr → Except ε Int64
  | .literal _ v => .ok v
  | .constant loc x => name loc x
  | .unary _ op e =>
    match e.value arithmetic name with
    | .error f => .error f
    | .ok v => .ok (op.apply v)
  | .binary loc op l r =>
    match l.value arithmetic name with
    | .error f => .error f
    | .ok a =>
      match r.value arithmetic name with
      | .error f => .error f
      | .ok b =>
        match op.apply a b with
        | .error f => .error (arithmetic ⟨loc, f⟩)
        | .ok v => .ok v

end DataLayout
