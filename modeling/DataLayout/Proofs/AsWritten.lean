import DataLayout.Proofs.Enrichment
import Mathlib.Data.List.Perm.Basic

/-!
# Declarations stay as written

Resolution moves structs, binds references and notes offsets and extents. Everything that was
written stands there afterwards, whether it came to an end or failed on the way: a type is the
type it was but for what its struct reference is bound to.
-/

set_option autoImplicit false

namespace DataLayout

inductive Ty.SameWritten : Ty → Ty → Prop
  | primitive (p : Primitive) : SameWritten (.primitive p) (.primitive p)
  | void : SameWritten .void .void
  | struct (location : Location) (name : String) (target target' : Option Nat) :
      SameWritten (.struct ⟨location, name, target⟩) (.struct ⟨location, name, target'⟩)
  | pointer {t t' : Ty} (h : SameWritten t t') : SameWritten (.pointer t) (.pointer t')
  | array {t t' : Ty} (n : Nat) (h : SameWritten t t') : SameWritten (.array t n) (.array t' n)
  | function (id : Nat) : SameWritten (.function id) (.function id)

structure Field.SameWritten (f f' : Field) : Prop where
  location : f'.location = f.location
  name : f'.name = f.name
  ty : f.ty.SameWritten f'.ty

/-- A struct as it was written, with its fields in order. Its extent is not part of that. -/
structure Struct.SameWritten (s s' : Struct) : Prop where
  location : s'.location = s.location
  name : s'.name = s.name
  included : s'.included = s.included
  fields : List.Forall₂ Field.SameWritten s.fields s'.fields

structure Parameter.SameWritten (p p' : Parameter) : Prop where
  name : p'.name = p.name
  ty : p.ty.SameWritten p'.ty

structure FunctionType.SameWritten (f f' : FunctionType) : Prop where
  location : f'.location = f.location
  included : f'.included = f.included
  returns : f.returns.SameWritten f'.returns
  params : List.Forall₂ Parameter.SameWritten f.params f'.params

theorem forall₂_of_map_eq {α β : Type} {g : α → β} {R : α → α → Prop}
    (hR : ∀ a b, g b = g a → R a b) {as bs : List α} (h : bs.map g = as.map g) :
    List.Forall₂ R as bs := by
  induction as generalizing bs with
  | nil =>
    rw [List.map_eq_nil_iff.mp h]
    exact .nil
  | cons a as ih =>
    obtain ⟨b, bs, rfl, hb, hbs⟩ := List.map_eq_cons_iff.mp h
    exact .cons (hR a b hb) (ih hbs)

theorem Ty.same_written_of_bare {t t' : Ty} (h : t'.bare = t.bare) : t.SameWritten t' := by
  induction t generalizing t' with
  | primitive p =>
    cases t' <;> cases h
    exact .primitive p
  | void =>
    cases t' <;> cases h
    exact .void
  | struct r =>
    cases t' with
    | struct r' =>
      obtain ⟨loc, name, target⟩ := r
      obtain ⟨loc', name', target'⟩ := r'
      cases h
      exact .struct loc name target target'
    | _ => cases h
  | pointer t ih =>
    cases t' with
    | pointer t' => exact .pointer (ih (Ty.pointer.inj h))
    | _ => cases h
  | array t n ih =>
    cases t' with
    | array t' n' =>
      obtain ⟨ht, rfl⟩ := Ty.array.inj h
      exact .array n' (ih ht)
    | _ => cases h
  | function id =>
    cases t' <;> cases h
    exact .function id

theorem Field.same_written_of_bare (f f' : Field) (h : f'.bare = f.bare) : f.SameWritten f' := by
  obtain ⟨hlocation, hname, hty, _⟩ := Field.mk.inj h
  exact ⟨hlocation, hname, Ty.same_written_of_bare hty⟩

theorem Struct.same_written_of_bare (s s' : Struct) (h : s'.bare = s.bare) : s.SameWritten s' := by
  obtain ⟨hlocation, hname, hfields, hincluded, _⟩ := Struct.mk.inj h
  exact ⟨hlocation, hname, hincluded, forall₂_of_map_eq Field.same_written_of_bare hfields⟩

theorem Parameter.same_written_of_bare (p p' : Parameter)
    (h : p'.mapTy Ty.bare = p.mapTy Ty.bare) : p.SameWritten p' := by
  obtain ⟨hname, hty⟩ := Parameter.mk.inj h
  exact ⟨hname, Ty.same_written_of_bare hty⟩

theorem FunctionType.same_written_of_bare (f f' : FunctionType) (h : f'.bare = f.bare) :
    f.SameWritten f' := by
  obtain ⟨hlocation, hreturns, hparams, hincluded⟩ := FunctionType.mk.inj h
  exact ⟨hlocation, hincluded, Ty.same_written_of_bare hreturns,
    forall₂_of_map_eq Parameter.same_written_of_bare hparams⟩

theorem SameStructs.exists_perm {structs structs' : List Struct}
    (h : SameStructs structs' structs) :
    ∃ ordered, ordered.Perm structs ∧ List.Forall₂ Struct.SameWritten ordered structs' := by
  rw [SameStructs] at h
  have hcomp := congrFun₂ (List.eq_map_comp_perm Struct.bare) (structs'.map Struct.bare) structs
  obtain ⟨ordered, heq, hperm⟩ := hcomp.mpr h
  exact ⟨ordered, hperm, forall₂_of_map_eq Struct.same_written_of_bare heq⟩

/-- Whatever comes of resolving a unit, it has all that was written in it, and the structs are a
permutation of what they were. A failure leaves the values of constants and the mark as they
were. -/
theorem CompilationUnit.resolve_only_enriches (u : CompilationUnit) :
    u.resolve.state.filename = u.filename ∧
    u.resolve.state.includes = u.includes ∧
    u.resolve.state.constants = u.constants ∧
    List.Forall₂ FunctionType.SameWritten u.functions u.resolve.state.functions ∧
    (∃ ordered, ordered.Perm u.structs ∧
      List.Forall₂ Struct.SameWritten ordered u.resolve.state.structs) ∧
    (u.resolve.failure ≠ none →
      u.resolve.state.resolved = u.resolved ∧ u.resolve.state.values = u.values) := by
  have he := u.resolve_enriches
  refine ⟨he.filename, he.includes, he.constants, ?_, he.structs.exists_perm, fun hf => ?_⟩
  · exact forall₂_of_map_eq FunctionType.same_written_of_bare he.functions
  · rcases u.resolve_cases with ⟨_, hkeeps⟩ | ⟨values, hdone⟩
    · exact ⟨hkeeps.resolved, hkeeps.values⟩
    · rw [hdone] at hf
      exact absurd rfl hf

end DataLayout
