import DataLayout.Expr.Value
import DataLayout.Location

/-!
# Errors of resolution

What can be wrong with a unit that could be read. Resolution improves a unit step by step; a
failure leaves it with the improvements made before.
-/

set_option autoImplicit false

namespace DataLayout

inductive ResolveError where
  | unknownStruct (name : String)
  | duplicateStruct (name : String)
  | duplicateField (name : String)
  | recursiveStruct (name : String)
  | voidStorage
  | functionStorage
  | sizeOverflow (struct : String)
  | weightOverflow (struct : String)
  | danglingReference (struct : String)
  | duplicateConstant (name : String)
  | undefinedConstant (name : String)
  | recursiveConstant (name : String)
  | arithmetic (error : ArithmeticError)
  deriving DecidableEq, Repr

def ResolveError.message : ResolveError → String
  | .unknownStruct x => "struct " ++ x ++ " unknown"
  | .duplicateStruct x => "struct '" ++ x ++ "' already defined"
  | .duplicateField x => "duplicate field name '" ++ x ++ "'"
  | .recursiveStruct x => "type " ++ x ++ " has a recursive relationship with itself"
  | .voidStorage => "void cannot be used as a field or array element type"
  | .functionStorage => "function types do not have storage"
  | .sizeOverflow x => "size of struct '" ++ x ++ "' overflows"
  | .weightOverflow x => "struct '" ++ x ++ "' has too many nested struct fields to be ordered"
  | .danglingReference x => "struct reference " ++ x ++ " was not linked"
  | .duplicateConstant x => "constant '" ++ x ++ "' already defined"
  | .undefinedConstant x => "undefined constant '" ++ x ++ "'"
  | .recursiveConstant x => "constant '" ++ x ++ "' has a recursive definition"
  | .arithmetic e => e.message

abbrev ResolveFailure := Located ResolveError

/-- A value on its way to being resolved, and the failure that stopped it there, if any. -/
structure Progress (α : Type) where
  state : α
  failure : Option ResolveFailure
  deriving DecidableEq, Repr

namespace Progress

def done {α : Type} (a : α) : Progress α := ⟨a, none⟩

def stopped {α : Type} (a : α) (f : ResolveFailure) : Progress α := ⟨a, some f⟩

def andThen {α : Type} (p : Progress α) (f : α → Progress α) : Progress α :=
  match p.failure with
  | none => f p.state
  | some _ => p

def map {α β : Type} (f : α → β) (p : Progress α) : Progress β := ⟨f p.state, p.failure⟩

/-- Takes the elements of a list forward from left to right, up to the first failure. -/
def list {α : Type} (f : α → Progress α) : List α → Progress (List α)
  | [] => done []
  | a :: as =>
    match f a with
    | ⟨b, some e⟩ => ⟨b :: as, some e⟩
    | ⟨b, none⟩ => (list f as).map (b :: ·)

def ofExcept {α : Type} (a : α) : Except ResolveFailure α → Progress α
  | .ok b => done b
  | .error f => stopped a f

end Progress

def firstRepeat? {α : Type} (key : α → String) : List α → List String → Option α
  | [], _ => none
  | a :: as, seen => if key a ∈ seen then some a else firstRepeat? key as (key a :: seen)

end DataLayout
