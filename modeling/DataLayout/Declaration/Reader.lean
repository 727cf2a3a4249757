import DataLayout.Declaration
import DataLayout.Expr.Reader

/-!
# Reading declarations

A file is a sequence of statements: struct definitions, constant definitions and includes.
Type suffixes apply to everything to their left, so `u8*[4]` is an array of four pointers.
The function types of a statement are numbered from zero, each after those it mentions; they
are moved to their place when the statement joins a unit.
-/

set_option autoImplicit false

namespace DataLayout

inductive Statement where
  | struct (struct : Struct) (functions : List FunctionType)
  | constant (constant : Constant)
  | inclusion (location : Location) (path : String)
  deriving DecidableEq, Repr

namespace Ty

def ofToken? (t : Token) : Option Ty :=
  match t.value with
  | .primitive p => some (.primitive p)
  | .keyword .void => some .void
  | .identifier x => some (.struct ⟨t.location, x, none⟩)
  | _ => none

def readBound (ending : Ending) (ts : List Token) : Reading ts.length Nat :=
  match ending.expectInteger ts with
  | .error f => .error f
  | .ok ⟨n, r₁, h₁⟩ =>
    if n.value < 0 then .error ⟨n.location, .negativeArrayBound n.value⟩
    else
      match ending.expect (.mark .rbracket) r₁ with
      | .error f => .error f
      | .ok ⟨_, r₂, h₂⟩ => .ok ⟨n.value.toInt.toNat, r₂, Phrase.fewer_trans h₂ h₁⟩

abbrev WithFunctions (α : Type) := α × List FunctionType

mutual

def read (ending : Ending) (fns : List FunctionType) (ts : List Token) :
    Reading ts.length (WithFunctions Ty) :=
  match ending.take ofToken? .expectedType ts with
  | .error f => .error f
  | .ok ⟨base, r₁, h₁⟩ =>
    match readSuffixes ending fns base r₁ with
    | .error f => .error f
    | .ok ⟨ty, r₂, h₂⟩ => .ok ⟨ty, r₂, by omega⟩
termination_by 3 * ts.length + 1

def readSuffixes (ending : Ending) (fns : List FunctionType) (ty : Ty) (ts : List Token) :
    Reading (ts.length + 1) (WithFunctions Ty) :=
  match ts with
  | [] =>
    match ending.look with
    | .error f => .error f
    | .ok _ => .ok (.none (ty, fns) [])
  | ⟨_, .mark .lbracket⟩ :: rest =>
    match readBound ending rest with
    | .error f => .error f
    | .ok ⟨n, r₁, h₁⟩ =>
      match readSuffixes ending fns (.array ty n) r₁ with
      | .error f => .error f
      | .ok ⟨t, r₂, h₂⟩ => .ok ⟨t, r₂, by simp only [List.length_cons]; omega⟩
  | ⟨loc, .mark .star⟩ :: rest =>
    if ty.isArray then .error ⟨loc, .pointerToArray⟩
    else
      match readSuffixes ending fns (.pointer ty) rest with
      | .error f => .error f
      | .ok ⟨t, r₁, h₁⟩ => .ok ⟨t, r₁, by simp only [List.length_cons]; omega⟩
  | ⟨loc, .mark .lparen⟩ :: rest =>
    match readParams ending fns rest with
    | .error f => .error f
    | .ok ⟨(params, fns'), r₁, h₁⟩ =>
      match readSuffixes ending (fns' ++ [⟨loc, ty, params, false⟩]) (.function fns'.length) r₁ with
      | .error f => .error f
      | .ok ⟨t, r₂, h₂⟩ => .ok ⟨t, r₂, by simp only [List.length_cons]; omega⟩
  | t :: rest => .ok (.none (ty, fns) (t :: rest))
termination_by 3 * ts.length

def readParams (ending : Ending) (fns : List FunctionType) (ts : List Token) :
    Reading ts.length (WithFunctions (List Parameter)) :=
  match ts with
  | ⟨_, .mark .rparen⟩ :: rest => .ok ⟨([], fns), rest, by simp⟩
  | ts =>
    match read ending fns ts with
    | .error f => .error f
    | .ok ⟨(ty, fns₁), r₁, h₁⟩ =>
      match ending.expectName r₁ with
      | .error f => .error f
      | .ok ⟨name, r₂, h₂⟩ =>
        match readMoreParams ending fns₁ r₂ with
        | .error f => .error f
        | .ok ⟨(params, fns₂), r₃, h₃⟩ => .ok ⟨(⟨name.value, ty⟩ :: params, fns₂), r₃, by omega⟩
termination_by 3 * ts.length + 2

/-- The parameters behind a parameter, each after a comma, and the closing parenthesis. -/
def readMoreParams (ending : Ending) (fns : List FunctionType) (ts : List Token) :
    Reading ts.length (WithFunctions (List Parameter)) :=
  match ts with
  | ⟨_, .mark .rparen⟩ :: rest => .ok ⟨([], fns), rest, by simp⟩
  | ts =>
    match ending.expect (.mark .comma) ts with
    | .error f => .error f
    | .ok ⟨_, r₁, h₁⟩ =>
      match read ending fns r₁ with
      | .error f => .error f
      | .ok ⟨(ty, fns₁), r₂, h₂⟩ =>
        match ending.expectName r₂ with
        | .error f => .error f
        | .ok ⟨name, r₃, h₃⟩ =>
          match readMoreParams ending fns₁ r₃ with
          | .error f => .error f
          | .ok ⟨(params, fns₂), r₄, h₄⟩ => .ok ⟨(⟨name.value, ty⟩ :: params, fns₂), r₄, by omega⟩
termination_by 3 * ts.length

end

end Ty

namespace Statement

def readMoreNames (ending : Ending) (ts : List Token) :
    Reading ts.length (List (Located String)) :=
  match ts with
  | ⟨_, .mark .comma⟩ :: rest =>
    match ending.expectName rest with
    | .error f => .error f
    | .ok ⟨name, r₁, h₁⟩ =>
      have := Phrase.fewer_succ h₁
      match readMoreNames ending r₁ with
      | .error f => .error f
      | .ok ⟨names, r₂, h₂⟩ => .ok ⟨name :: names, r₂, by simp only [List.length_cons]; omega⟩
  | ts =>
    match ending.expect (.mark .semicolon) ts with
    | .error f => .error f
    | .ok ⟨_, r₁, h₁⟩ => .ok ⟨[], r₁, h₁⟩
termination_by ts.length
decreasing_by exact this

def readNames (ending : Ending) (ts : List Token) : Reading ts.length (List (Located String)) :=
  match ending.expectName ts with
  | .error f => .error f
  | .ok ⟨name, r₁, h₁⟩ =>
    match readMoreNames ending r₁ with
    | .error f => .error f
    | .ok ⟨names, r₂, h₂⟩ => .ok ⟨name :: names, r₂, Phrase.fewer_trans h₂ h₁⟩

/-- Field declarations up to the closing brace. The names of one declaration share its type. -/
def readFields (ending : Ending) (fns : List FunctionType) (ts : List Token) :
    Reading ts.length (Ty.WithFunctions (List Field)) :=
  match ts with
  | ⟨_, .mark .rbrace⟩ :: rest => .ok ⟨([], fns), rest, by simp⟩
  | ts =>
    match Ty.read ending fns ts with
    | .error f => .error f
    | .ok ⟨(ty, fns₁), r₁, h₁⟩ =>
      match readNames ending r₁ with
      | .error f => .error f
      | .ok ⟨names, r₂, h₂⟩ =>
        match readFields ending fns₁ r₂ with
        | .error f => .error f
        | .ok ⟨(fields, fns₂), r₃, h₃⟩ =>
          .ok ⟨(names.map (fun x => ⟨x.location, x.value, ty, none⟩) ++ fields, fns₂), r₃, by omega⟩
termination_by ts.length

def readStruct (ending : Ending) (ts : List Token) : Reading ts.length Statement :=
  match ending.expectName ts with
  | .error f => .error f
  | .ok ⟨name, r₁, h₁⟩ =>
    match ending.expect (.mark .lbrace) r₁ with
    | .error f => .error f
    | .ok ⟨_, r₂, h₂⟩ =>
      match readFields ending [] r₂ with
      | .error f => .error f
      | .ok ⟨(fields, fns), r₃, h₃⟩ =>
        match ending.skip (.mark .semicolon) r₃ with
        | .error f => .error f
        | .ok ⟨_, r₄, h₄⟩ =>
          .ok ⟨.struct ⟨name.location, name.value, fields, false, none⟩ fns, r₄, by omega⟩

def readConstant (ending : Ending) (ts : List Token) : Reading ts.length Statement :=
  match ending.expectName ts with
  | .error f => .error f
  | .ok ⟨name, r₁, h₁⟩ =>
    match ending.expect (.mark .equals) r₁ with
    | .error f => .error f
    | .ok ⟨_, r₂, h₂⟩ =>
      match Expr.read ending r₂ with
      | .error f => .error f
      | .ok ⟨expr, r₃, h₃⟩ =>
        match ending.skip (.mark .semicolon) r₃ with
        | .error f => .error f
        | .ok ⟨_, r₄, h₄⟩ => .ok ⟨.constant ⟨name.location, name.value, expr, false⟩, r₄, by omega⟩

def readInclusion (ending : Ending) (ts : List Token) : Reading ts.length Statement :=
  match ending.expectQuoted ts with
  | .error f => .error f
  | .ok ⟨path, r₁, h₁⟩ =>
    match ending.skip (.mark .semicolon) r₁ with
    | .error f => .error f
    | .ok ⟨_, r₂, h₂⟩ => .ok ⟨.inclusion path.location path.value, r₂, by omega⟩

def read (ending : Ending) (first : Token) (ts : List Token) : Reading ts.length Statement :=
  match first.value with
  | .keyword .struct => readStruct ending ts
  | .keyword .const => readConstant ending ts
  | .keyword .incl => readInclusion ending ts
  | s => .error ⟨first.location, .unexpectedAtFileScope s⟩

end Statement

/-- The statements of a file up to its end or up to the first that cannot be read. -/
structure Script where
  statements : List Statement
  failure : Option ParseFailure
  deriving DecidableEq, Repr

namespace Script

def push (s : Statement) (script : Script) : Script :=
  { script with statements := s :: script.statements }

def ofTokens (ending : Ending) (ts : List Token) : Script :=
  match ts with
  | [] =>
    match ending.look with
    | .error f => ⟨[], some f⟩
    | .ok _ => ⟨[], none⟩
  | first :: rest =>
    match Statement.read ending first rest with
    | .error f => ⟨[], some f⟩
    | .ok ⟨s, r₁, h₁⟩ =>
      have := Phrase.fewer_succ h₁
      (ofTokens ending r₁).push s
termination_by ts.length
decreasing_by exact this

def ofText (file text : String) : Script :=
  let stream := TokenStream.ofText file text
  ofTokens stream.ending stream.tokens

end Script

end DataLayout
