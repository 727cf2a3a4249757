import DataLayout.CompilationUnit
import DataLayout.Resolution.Error
import Std.Data.HashMap

/-!
# Evaluating constants

A constant may mention others, in any order of definition. A name stands for the value of its
definition; a definition that is come back to while it is being evaluated has no value.
-/

set_option autoImplicit false

namespace DataLayout.Constant

abbrev Index := Std.HashMap String (Nat × Constant)

/-- The index of some constants. Of those that share a name it has the first. -/
def index (constants : List Constant) : Index :=
  constants.zipIdx.foldr (fun (c, i) rest => rest.insert c.name (i, c)) ∅

theorem index_get_elem? (constants : List Constant) (name : String) :
    (index constants)[name]? =
      (constants.zipIdx.find? (·.1.name == name)).map fun (c, i) => (i, c) := by
  unfold index
  induction constants.zipIdx with
  | nil => rw [List.foldr_nil, Std.HashMap.getElem?_empty, List.find?_nil, Option.map_none]
  | cons entry rest ih =>
    rw [List.foldr_cons, Std.HashMap.getElem?_insert, List.find?_cons, ih]
    cases entry.1.name == name <;> rfl

/-- The value of a name met while the definitions at the positions `underway` are being
evaluated. When there are `depth` others at most, one more level of nesting must lead back to one
underway. -/
def valueOf (index : Index) :
    (depth : Nat) → (underway : List Nat) → Location → String → Except ResolveFailure Int64
  | depth, underway, loc, name =>
    match index[name]? with
    | none => .error ⟨loc, .undefinedConstant name⟩
    | some (i, c) =>
      if underway.any (· == i) then .error ⟨loc, .recursiveConstant name⟩
      else
        match depth with
        | 0 => .error ⟨loc, .recursiveConstant name⟩
        | depth + 1 => c.expr.value (Located.map .arithmetic) (valueOf index depth (i :: underway))

/-- The values of definitions that stand one after another from position `i` on. -/
def valuesFrom (index : Index) (depth : Nat) :
    (i : Nat) → List Constant → Except ResolveFailure (List (Nat × Int64))
  | _, [] => .ok []
  | i, c :: cs =>
    match c.expr.value (Located.map .arithmetic) (valueOf index depth [i]) with
    | .error f => .error f
    | .ok v =>
      match valuesFrom index depth (i + 1) cs with
      | .error f => .error f
      | .ok vs => .ok ((i, v) :: vs)

def values (constants : List Constant) : Except ResolveFailure (List (Nat × Int64)) :=
  match firstRepeat? Constant.name constants [] with
  | some c => .error ⟨c.location, .duplicateConstant c.name⟩
  | none => valuesFrom (index constants) constants.length 0 constants

end DataLayout.Constant
