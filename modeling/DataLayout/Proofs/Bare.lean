import DataLayout.CompilationUnit
import Mathlib.Data.List.Permutation

/-!
# Declarations as written

Resolution binds the references in a declaration and adds offsets and extents, and it moves
structs. What was written stays: a declaration stripped of everything resolution adds.
-/

set_option autoImplicit false

namespace DataLayout

def StructRef.unbound (r : StructRef) : StructRef := { r with target := none }

namespace Ty

def ref? : Ty → Option StructRef
  | .struct r => some r
  | .pointer t | .array t _ => t.ref?
  | .primitive _ | .void | .function _ => none

def bare (t : Ty) : Ty := t.mapRef StructRef.unbound

theorem map_ref_map_ref (f g : StructRef → StructRef) (t : Ty) :
    (t.mapRef f).mapRef g = t.mapRef (g ∘ f) := by
  induction t with
  | pointer t ih => simp [mapRef, ih]
  | array t n ih => simp [mapRef, ih]
  | primitive | void | struct | function => rfl

theorem ref?_map_ref (f : StructRef → StructRef) (t : Ty) :
    (t.mapRef f).ref? = t.ref?.map f := by
  induction t with
  | pointer t ih => exact ih
  | array t n ih => exact ih
  | primitive | void | struct | function => rfl

theorem embedded_map_ref (f : StructRef → StructRef) (t : Ty) :
    (t.mapRef f).embedded = t.embedded.map f := by
  induction t with
  | array t n ih => exact ih
  | primitive | void | struct | function | pointer => rfl

theorem ref?_of_embedded {t : Ty} {r : StructRef} (h : t.embedded = some r) : t.ref? = some r := by
  induction t with
  | array t n ih => exact ih h
  | struct => exact h
  | primitive | void | function | pointer => cases h

theorem bare_map_ref {f : StructRef → StructRef} (hf : ∀ r, (f r).unbound = r.unbound) (t : Ty) :
    (t.mapRef f).bare = t.bare := by
  rw [bare, map_ref_map_ref, show StructRef.unbound ∘ f = StructRef.unbound from funext hf]
  rfl

end Ty

def Field.bare (f : Field) : Field := { f with ty := f.ty.bare, offset := none }

namespace Struct

def bare (s : Struct) : Struct := { s with fields := s.fields.map Field.bare, extent := none }

theorem bare_map_ty {f : StructRef → StructRef} (hf : ∀ r, (f r).unbound = r.unbound)
    (s : Struct) : (s.mapTy (Ty.mapRef f)).bare = s.bare := by
  simp [bare, mapTy, Field.bare, Field.mapTy, Function.comp_def, Ty.bare_map_ref hf]

end Struct

def SameStructs (structs structs' : List Struct) : Prop :=
  (structs.map Struct.bare).Perm (structs'.map Struct.bare)

namespace SameStructs

variable {structs structs' : List Struct}

theorem symm (h : SameStructs structs structs') : SameStructs structs' structs := List.Perm.symm h

theorem exists_mem (h : SameStructs structs structs') {s : Struct} (hs : s ∈ structs) :
    ∃ s' ∈ structs', s'.bare = s.bare :=
  List.mem_map.mp (h.mem_iff.mp (List.mem_map_of_mem hs))

theorem names (h : SameStructs structs structs') :
    (structs.map Struct.name).Perm (structs'.map Struct.name) := by
  have hn := List.Perm.map Struct.name h
  rw [List.map_map, List.map_map] at hn
  exact hn

theorem forall_mem (h : SameStructs structs structs') {P : Struct → Prop}
    (hP : ∀ s, P s.bare ↔ P s) (hs : ∀ s ∈ structs, P s) : ∀ s ∈ structs', P s := by
  intro s' hs'
  obtain ⟨s, hmem, hb⟩ := h.symm.exists_mem hs'
  rw [← hP, ← hb, hP]
  exact hs s hmem

theorem forall_mem_iff (h : SameStructs structs structs') {P : Struct → Prop}
    (hP : ∀ s, P s.bare ↔ P s) : (∀ s ∈ structs, P s) ↔ ∀ s ∈ structs', P s :=
  ⟨h.forall_mem hP, h.symm.forall_mem hP⟩

end SameStructs

end DataLayout
