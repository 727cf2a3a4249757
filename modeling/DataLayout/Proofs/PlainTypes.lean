import DataLayout.Proofs.Enrichment
import DataLayout.Proofs.Expansion
import DataLayout.Proofs.WrittenTypes

/-!
# Plain types

A plain type has its function types in full and no trace of where it is written and of the structs
that its names are bound to. Every type of a unit unfolds to one plain type, which neither moving
function types nor binding names changes. The text that a report shows is the text of that plain
type.
-/

set_option autoImplicit false

namespace DataLayout

inductive PlainType where
  | primitive (type : Primitive)
  | void
  | struct (name : String)
  | pointer (target : PlainType)
  | array (element : PlainType) (length : Nat)
  | function (returns : PlainType) (params : List (String × PlainType))

namespace PlainType

mutual

def text : PlainType → String
  | .primitive p => p.name
  | .void => "void"
  | .struct name => name
  | .pointer p => p.text ++ "*"
  | .array p n => p.text ++ "[" ++ toString n ++ "]"
  | .function returns params =>
    returns.text ++ "(" ++ ", ".intercalate (paramTexts params) ++ ")"

def paramTexts : List (String × PlainType) → List String
  | [] => []
  | (name, p) :: params => (p.text ++ " " ++ name) :: paramTexts params

end

end PlainType

namespace WrittenType

mutual

def plain : WrittenType → PlainType
  | .primitive p => .primitive p
  | .void => .void
  | .struct _ name => .struct name
  | .pointer w => .pointer w.plain
  | .array w n => .array w.plain n
  | .function _ returns params => .function returns.plain (plainParams params)

def plainParams : List (String × WrittenType) → List (String × PlainType)
  | [] => []
  | (name, w) :: params => (name, w.plain) :: plainParams params

end

end WrittenType

mutual

inductive Ty.Unfolds (fns : List FunctionType) : Ty → PlainType → Prop
  | primitive {p : Primitive} : Ty.Unfolds fns (.primitive p) (.primitive p)
  | void : Ty.Unfolds fns .void .void
  | struct {r : StructRef} : Ty.Unfolds fns (.struct r) (.struct r.name)
  | pointer {t : Ty} {p : PlainType} (h : Ty.Unfolds fns t p) :
      Ty.Unfolds fns (.pointer t) (.pointer p)
  | array {t : Ty} {p : PlainType} {n : Nat} (h : Ty.Unfolds fns t p) :
      Ty.Unfolds fns (.array t n) (.array p n)
  | function {id : Nat} {f : FunctionType} {returns : PlainType}
      {params : List (String × PlainType)} (hf : fns[id]? = some f)
      (hr : Ty.Unfolds fns f.returns returns) (hp : UnfoldParams fns f.params params) :
      Ty.Unfolds fns (.function id) (.function returns params)

inductive UnfoldParams (fns : List FunctionType) :
    List Parameter → List (String × PlainType) → Prop
  | nil : UnfoldParams fns [] []
  | cons {param : Parameter} {ps : List Parameter} {p : PlainType}
      {params : List (String × PlainType)} (h : Ty.Unfolds fns param.ty p)
      (hs : UnfoldParams fns ps params) :
      UnfoldParams fns (param :: ps) ((param.name, p) :: params)

end

section Unfolding

variable {fns fns' : List FunctionType}

mutual

theorem Ty.Unfolds.unique {t : Ty} {p p' : PlainType} (h : t.Unfolds fns p)
    (h' : t.Unfolds fns p') : p' = p :=
  match h, h' with
  | .primitive, .primitive => rfl
  | .void, .void => rfl
  | .struct, .struct => rfl
  | .pointer h, .pointer h' => by rw [h.unique h']
  | .array h, .array h' => by rw [h.unique h']
  | .function hf hr hp, .function hf' hr' hp' => by
    cases hf.symm.trans hf'
    rw [hr.unique hr', hp.unique hp']

theorem UnfoldParams.unique {ps : List Parameter} {params params' : List (String × PlainType)}
    (h : UnfoldParams fns ps params) (h' : UnfoldParams fns ps params') : params' = params :=
  match h, h' with
  | .nil, .nil => rfl
  | .cons h hs, .cons h' hs' => by rw [h.unique h', hs.unique hs']

end

theorem Ty.Unfolds.iff_eq {t : Ty} {p : PlainType} (h : t.Unfolds fns p) (p' : PlainType) :
    t.Unfolds fns p' ↔ p' = p :=
  ⟨h.unique, fun hp => hp ▸ h⟩

mutual

theorem Ty.Means.unfolds {t : Ty} {w : WrittenType} (h : t.Means fns w) : t.Unfolds fns w.plain :=
  match h with
  | .primitive => by rw [WrittenType.plain]; exact .primitive
  | .void => by rw [WrittenType.plain]; exact .void
  | .struct => by rw [WrittenType.plain]; exact .struct
  | .pointer h => by rw [WrittenType.plain]; exact .pointer h.unfolds
  | .array h => by rw [WrittenType.plain]; exact .array h.unfolds
  | .function hid (.mk hr hp) => by
    rw [WrittenType.plain]
    exact .function hid hr.unfolds hp.unfolds

theorem Parameter.Mean.unfolds {ps : List Parameter} {params : List (String × WrittenType)}
    (h : Parameter.Mean fns ps params) : UnfoldParams fns ps (WrittenType.plainParams params) :=
  match h with
  | .nil => by rw [WrittenType.plainParams]; exact .nil
  | .cons h hs => by rw [WrittenType.plainParams]; exact .cons h.unfolds hs.unfolds

end

theorem FunctionType.exists_of_bare (hb : fns'.map bare = fns.map bare) {id : Nat}
    {f : FunctionType} (hf : fns[id]? = some f) : ∃ f', fns'[id]? = some f' ∧ f'.bare = f.bare := by
  have hget := congrArg (·[id]?) hb
  simp only [List.getElem?_map, hf, Option.map_some, Option.map_eq_some_iff] at hget
  exact hget

mutual

theorem Ty.Unfolds.of_bare (hb : fns'.map FunctionType.bare = fns.map FunctionType.bare) {t t' : Ty}
    {p : PlainType} (h : t.Unfolds fns p) (ht : t'.bare = t.bare) : t'.Unfolds fns' p :=
  match h with
  | .primitive => by cases t' <;> cases ht; exact .primitive
  | .void => by cases t' <;> cases ht; exact .void
  | .struct => by
    cases t' with
    | struct r' =>
      have hname := congrArg StructRef.name (Ty.struct.inj ht)
      exact hname ▸ .struct
    | primitive | void | pointer | array | function => cases ht
  | .pointer h => by
    cases t' with
    | pointer t' => exact .pointer (h.of_bare hb (Ty.pointer.inj ht))
    | primitive | void | struct | array | function => cases ht
  | .array h => by
    cases t' with
    | array t' n' =>
      obtain ⟨hel, rfl⟩ := Ty.array.inj ht
      exact .array (h.of_bare hb hel)
    | primitive | void | struct | pointer | function => cases ht
  | .function hf hr hp => by
    cases t' with
    | function id' =>
      obtain rfl := Ty.function.inj ht
      obtain ⟨f', hf', hbare⟩ := FunctionType.exists_of_bare hb hf
      obtain ⟨-, hreturns, hparams, -⟩ := FunctionType.mk.inj hbare
      exact .function hf' (hr.of_bare hb hreturns) (hp.of_bare hb hparams)
    | primitive | void | struct | pointer | array => cases ht

theorem UnfoldParams.of_bare (hb : fns'.map FunctionType.bare = fns.map FunctionType.bare)
    {ps ps' : List Parameter} {params : List (String × PlainType)} (h : UnfoldParams fns ps params)
    (hps : ps'.map (·.mapTy Ty.bare) = ps.map (·.mapTy Ty.bare)) : UnfoldParams fns' ps' params :=
  match h with
  | .nil => by
    rw [List.map_eq_nil_iff.mp hps]
    exact .nil
  | .cons h hs => by
    obtain ⟨param, ps, rfl, hparam, hrest⟩ := List.map_eq_cons_iff.mp hps
    obtain ⟨hname, hty⟩ := Parameter.mk.inj hparam
    rw [← hname]
    exact .cons (h.of_bare hb hty) (hs.of_bare hb hrest)

end

mutual

theorem Ty.Unfolds.expands {t : Ty} {p : PlainType} (h : t.Unfolds fns p) : t.Expands fns p.text :=
  match h with
  | .primitive => by rw [PlainType.text]; exact .primitive _
  | .void => by rw [PlainType.text]; exact .void
  | .struct => by rw [PlainType.text]; exact .struct _
  | .pointer h => by rw [PlainType.text]; exact .pointer h.expands
  | .array h => by rw [PlainType.text]; exact .array _ h.expands
  | .function hf hr hp => by rw [PlainType.text]; exact .function hf hr.expands hp.expands

theorem UnfoldParams.expands {ps : List Parameter} {params : List (String × PlainType)}
    (h : UnfoldParams fns ps params) : ExpandsParams fns ps (PlainType.paramTexts params) :=
  match h with
  | .nil => by rw [PlainType.paramTexts]; exact .nil
  | .cons h hs => by rw [PlainType.paramTexts]; exact .cons h.expands hs.expands

end

end Unfolding

end DataLayout
