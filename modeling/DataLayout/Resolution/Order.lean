import DataLayout.CompilationUnit
import DataLayout.Resolution.Error

/-!
# Ordering structs

A struct of the unit's own file weighs one more than the structs it contains by value weigh
together, so it comes after them when structs are ordered by weight. Included structs weigh
nothing. Structs of one weight are ordered by name. Weighing goes depth first and finds the
structs that contain themselves.
-/

set_option autoImplicit false

namespace DataLayout

inductive Weighing where
  | untouched
  | underway
  | finished (weight : Nat)
  deriving DecidableEq, Repr

namespace Weighing

/-- The weight of a struct, and what is known of all weights after it was found. -/
abbrev Result := Except ResolveFailure (Nat × List Weighing)

def fields (weigh : List Weighing → StructRef → Result) (overflow : ResolveFailure) :
    List Field → Nat → List Weighing → Result
  | [], total, known => .ok (total, known)
  | f :: fs, total, known =>
    match f.ty.embedded with
    | none => fields weigh overflow fs total known
    | some r =>
      match weigh known r with
      | .error e => .error e
      | .ok (weight, known') =>
        match fits? (total + weight) with
        | none => .error overflow
        | some total' => fields weigh overflow fs total' known'

/-- The weight of a struct whose weight is not known yet, given how to weigh those it contains. -/
def fresh (weigh : List Weighing → StructRef → Result) (known : List Weighing) (i : Nat)
    (s : Struct) : Result :=
  let overflow := ⟨s.location, .weightOverflow s.name⟩
  match fields weigh overflow s.fields 0 (known.set i .underway) with
  | .error e => .error e
  | .ok (total, known') =>
    match if s.included then some 0 else fits? (total + 1) with
    | none => .error overflow
    | some weight => .ok (weight, known'.set i (.finished weight))

def target? (structs : List Struct) (r : StructRef) : Option (Nat × Struct) :=
  r.target.bind fun i => (structs[i]?).map (i, ·)

/-- Weighs the struct `s` at position `i`. With as many levels of nesting as there are structs,
all structs are underway, and one more must be one of them. -/
def struct (structs : List Struct) : Nat → List Weighing → Nat → Struct → Result
  | depth, known, i, s =>
    match (known[i]?).getD .untouched with
    | .finished weight => .ok (weight, known)
    | .underway => .error ⟨s.location, .recursiveStruct s.name⟩
    | .untouched =>
      match depth with
      | 0 => .error ⟨s.location, .recursiveStruct s.name⟩
      | depth + 1 =>
        let weigh known r :=
          match target? structs r with
          | none => .error ⟨r.location, .danglingReference r.name⟩
          | some (j, t) => struct structs depth known j t
        fresh weigh known i s

def all (structs : List Struct) :
    List (Struct × Nat) → List Weighing → Except ResolveFailure (List Weighing)
  | [], known => .ok known
  | (s, i) :: rest, known =>
    match struct structs structs.length known i s with
    | .error e => .error e
    | .ok (_, known') => all structs rest known'

def weight : Weighing → Nat
  | .finished w => w
  | _ => 0

end Weighing

namespace CompilationUnit

def weights (u : CompilationUnit) : Except ResolveFailure (List Nat) :=
  (Weighing.all u.structs u.structs.zipIdx
    (List.replicate u.structs.length .untouched)).map (·.map Weighing.weight)

def precedes (a b : Nat × Struct) : Bool :=
  a.1 < b.1 || (a.1 == b.1 && decide (a.2.name ≤ b.2.name))

def moveRef (moved : Nat → Option Nat) (r : StructRef) : StructRef :=
  { r with target := r.target.bind moved }

/-- Orders the structs by weight and name and keeps all references on their structs. -/
def sort (u : CompilationUnit) (weights : List Nat) : CompilationUnit :=
  let keyed := (weights.zip u.structs).zipIdx
  let sorted := keyed.mergeSort fun a b => precedes a.1 b.1
  let order := sorted.map (·.2)
  let move := Ty.mapRef (moveRef fun old => order.findIdx? (· == old))
  { u with
    structs := sorted.map fun entry => entry.1.2.mapTy move
    functions := u.functions.map (·.mapTy move) }

/-- Orders the structs of a unit whose references are bound. -/
def order (u : CompilationUnit) : Progress CompilationUnit :=
  .ofExcept u (u.weights.map u.sort)

end CompilationUnit

end DataLayout
