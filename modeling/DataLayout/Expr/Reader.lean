import DataLayout.Expr
import DataLayout.Phrase

/-!
# Reading expressions

Binary operators are folded into the operand to their left for as long as they bind tightly
enough. The operand to their right is read one level tighter, so operators of one level group
to the left.
-/

set_option autoImplicit false

namespace DataLayout.Expr

inductive AtomStart where
  | leaf (e : Expr)
  | group
  | unary (location : Location) (op : UnaryOp)
  deriving DecidableEq, Repr

def AtomStart.ofToken? (t : Token) : Option AtomStart :=
  match t.value with
  | .integer v => some (.leaf (.literal t.location v))
  | .identifier x => some (.leaf (.constant t.location x))
  | .mark m =>
    match m with
    | .lparen => some .group
    | .minus => some (.unary t.location .negate)
    | .tilde => some (.unary t.location .complement)
    | _ => none
  | .quoted _ | .primitive _ | .keyword _ | .eof => none

mutual

/-- A literal, a name, an expression in parentheses, or a unary operator and its atom. -/
def readAtom (ending : Ending) (ts : List Token) : Reading ts.length Expr :=
  match ending.take AtomStart.ofToken? .expectedAtom ts with
  | .error f => .error f
  | .ok ⟨.leaf e, r₁, h₁⟩ => .ok ⟨e, r₁, h₁⟩
  | .ok ⟨.group, r₁, h₁⟩ =>
    match readBinary ending 1 r₁ with
    | .error f => .error f
    | .ok ⟨e, r₂, h₂⟩ =>
      match ending.expect (.mark .rparen) r₂ with
      | .error f => .error f
      | .ok ⟨_, r₃, h₃⟩ => .ok ⟨e, r₃, by omega⟩
  | .ok ⟨.unary location op, r₁, h₁⟩ =>
    match readAtom ending r₁ with
    | .error f => .error f
    | .ok ⟨e, r₂, h₂⟩ => .ok ⟨.unary location op e, r₂, Phrase.fewer_trans h₂ h₁⟩
termination_by 2 * ts.length

/-- An expression whose operators outside parentheses have at least the given precedence. -/
def readBinary (ending : Ending) (level : Nat) (ts : List Token) : Reading ts.length Expr :=
  match readAtom ending ts with
  | .error f => .error f
  | .ok ⟨left, r₁, h₁⟩ =>
    match readOperators ending level left r₁ with
    | .error f => .error f
    | .ok ⟨e, r₂, h₂⟩ => .ok ⟨e, r₂, by omega⟩
termination_by 2 * ts.length + 1

/-- Goes on with operators, and their right operands, behind the operand `left`. -/
def readOperators (ending : Ending) (level : Nat) (left : Expr) (ts : List Token) :
    Reading (ts.length + 1) Expr :=
  match ts with
  | [] =>
    match ending.look with
    | .error f => .error f
    | .ok _ => .ok (.none left [])
  | t :: rest =>
    match BinaryOp.ofSymbol? t.value with
    | none => .ok (.none left (t :: rest))
    | some op =>
      if level ≤ op.precedence then
        match readBinary ending (op.precedence + 1) rest with
        | .error f => .error f
        | .ok ⟨right, r₁, h₁⟩ =>
          match readOperators ending level (.binary t.location op left right) r₁ with
          | .error f => .error f
          | .ok ⟨e, r₂, h₂⟩ => .ok ⟨e, r₂, by simp only [List.length_cons]; omega⟩
      else .ok (.none left (t :: rest))
termination_by 2 * ts.length

end

def read (ending : Ending) (ts : List Token) : Reading ts.length Expr := readBinary ending 1 ts

end DataLayout.Expr
