import DataLayout.Proofs.Layout
import DataLayout.Proofs.Loading
import Mathlib.Logic.Relation

/-!
# Included declarations

A unit declares what the files declare that it includes, at any depth. A declaration is moved and
marked on its way into a unit; its outline stays, and that is all that layout depends on.
-/

set_option autoImplicit false

namespace DataLayout
open Relation

namespace Ty

/-- The type without the positions that its struct and its function type have in a unit. -/
def outline : Ty → Ty
  | .primitive p => .primitive p
  | .void => .void
  | .struct r => .struct r.unbound
  | .pointer t => .pointer t.outline
  | .array t n => .array t.outline n
  | .function _ => .function 0

@[simp] theorem outline_shift (offset : Nat) (t : Ty) : (t.shift offset).outline = t.outline := by
  induction t with
  | pointer t ih => rw [shift, outline, ih, outline]
  | array t n ih => rw [shift, outline, ih, outline]
  | primitive | void | struct | function => rfl

@[simp] theorem outline_bare (t : Ty) : t.bare.outline = t.outline := by
  induction t with
  | pointer t ih => exact congrArg Ty.pointer ih
  | array t n ih => exact congrArg (Ty.array · n) ih
  | primitive | void | struct | function => rfl

theorem extent_in_outline (extent : String → Extent) (t : Ty) :
    t.outline.extentIn extent = t.extentIn extent := by
  induction t with
  | array t n ih => rw [outline, extentIn, ih, extentIn]
  | primitive | void | struct | pointer | function => rfl

end Ty

namespace Struct

def outline (s : Struct) : String × List (String × Ty) :=
  (s.name, s.fields.map fun f => (f.name, f.ty.outline))

theorem outline_bare (s : Struct) : s.bare.outline = s.outline := by
  simp [outline, bare, Field.bare, Function.comp_def]

theorem outline_of_bare {s s' : Struct} (h : s.bare = s'.bare) : s.outline = s'.outline := by
  rw [← outline_bare, h, outline_bare]

theorem outline_included (offset : Nat) (s : Struct) :
    (s.mapTy (Ty.shift offset)).markIncluded.outline = s.outline := by
  simp [outline, mapTy, markIncluded, Field.mapTy, Function.comp_def]

theorem map_name_outline {s s' : Struct} (h : s.outline = s'.outline) :
    s.fields.map Field.name = s'.fields.map Field.name := by
  have hf : ∀ s : Struct, s.fields.map Field.name = s.outline.2.map Prod.fst := by
    intro s
    simp [outline, Function.comp_def]
  rw [hf, h, hf]

theorem field_extents_outline {s s' : Struct} (h : s.outline = s'.outline)
    (extent : String → Extent) : s.fieldExtents extent = s'.fieldExtents extent := by
  have hf : ∀ s : Struct, s.fieldExtents extent = s.outline.2.map (·.2.extentIn extent) := by
    intro s
    simp [outline, fieldExtents, Function.comp_def, Ty.extent_in_outline]
  rw [hf, h, hf]

end Struct

structure CompilationUnit.Declares (u w : CompilationUnit) : Prop where
  structs : ∀ s ∈ w.structs, ∃ s' ∈ u.structs, s'.outline = s.outline
  constants : ∀ c ∈ w.constants, ∃ c' ∈ u.constants, c'.name = c.name ∧ c'.expr = c.expr

namespace CompilationUnit.Declares

variable {u v w : CompilationUnit}

theorem refl (u : CompilationUnit) : u.Declares u :=
  ⟨fun s hs => ⟨s, hs, rfl⟩, fun c hc => ⟨c, hc, rfl, rfl⟩⟩

theorem trans (huv : u.Declares v) (hvw : v.Declares w) : u.Declares w where
  structs s hs := by
    obtain ⟨s', hs', ho⟩ := hvw.structs s hs
    obtain ⟨s'', hs'', ho'⟩ := huv.structs s' hs'
    exact ⟨s'', hs'', ho'.trans ho⟩
  constants c hc := by
    obtain ⟨c', hc', hn, he⟩ := hvw.constants c hc
    obtain ⟨c'', hc'', hn', he'⟩ := huv.constants c' hc'
    exact ⟨c'', hc'', hn'.trans hn, he'.trans he⟩

theorem of_subset (hs : w.structs ⊆ u.structs) (hc : w.constants ⊆ u.constants) : u.Declares w :=
  ⟨fun s h => ⟨s, hs h, rfl⟩, fun c h => ⟨c, hc h, rfl, rfl⟩⟩

theorem add_struct (u : CompilationUnit) (s : Struct) (fns : List FunctionType) :
    (u.addStruct s fns).Declares u :=
  .of_subset (List.subset_append_left _ _) (List.Subset.refl _)

theorem add_constant (u : CompilationUnit) (c : Constant) : (u.addConstant c).Declares u :=
  .of_subset (List.Subset.refl _) (List.subset_append_left _ _)

theorem add_included (u : CompilationUnit) (path : String) (w : CompilationUnit) :
    (u.addIncluded path w).Declares u :=
  .of_subset (List.subset_append_left _ _) (List.subset_append_left _ _)

theorem add_included_nested (u : CompilationUnit) (path : String) (w : CompilationUnit) :
    (u.addIncluded path w).Declares w where
  structs s hs := ⟨_, List.mem_append_right _ (List.mem_map_of_mem hs), s.outline_included _⟩
  constants _ hc := ⟨_, List.mem_append_right _ (List.mem_map_of_mem hc), rfl, rfl⟩

end CompilationUnit.Declares

namespace Loader

variable {sources : Sources} {file : String} {nested : Source → CompilationUnit → Prop}
  {statements : List Statement} {u v : CompilationUnit}

theorem Gathers.declares (h : Gathers sources nested file statements u v) : v.Declares u := by
  induction h with
  | nil => exact .refl _
  | struct _ ih => exact ih.trans (.add_struct _ _ _)
  | constant _ ih => exact ih.trans (.add_constant _ _)
  | inclusion _ _ _ ih => exact ih.trans (.add_included _ _ _)

theorem Gathers.declares_nested (h : Gathers sources nested file statements u v)
    {loc : Location} {path : String} (hm : .inclusion loc path ∈ statements) {b : Source}
    (hb : sources.fetch (some file) path = .ok b) : ∃ w, nested b w ∧ v.Declares w := by
  induction h with
  | nil => cases hm
  | struct _ ih =>
    cases hm with
    | tail _ hm => exact ih hm
  | constant _ ih =>
    cases hm with
    | tail _ hm => exact ih hm
  | inclusion hb' hw hrest ih =>
    cases hm with
    | tail _ hm => exact ih hm
    | head =>
      cases hb.symm.trans hb'
      exact ⟨_, hw, hrest.declares.trans (.add_included_nested _ _ _)⟩

end Loader

def Includes (sources : Sources) (a b : Source) : Prop :=
  ∃ loc path, .inclusion loc path ∈ (Script.ofText a.name a.text).statements ∧
    sources.fetch (some a.name) path = .ok b

namespace Loader

variable {sources : Sources} {a b : Source} {u : CompilationUnit}

theorem load_to_included {depth : Nat} {loading : List String}
    (hu : (loadTo sources depth a loading).1 = .ok u) (h : ReflTransGen (Includes sources) a b) :
    ∃ depth' ≤ depth, ∃ loading' w, (loadTo sources depth' b loading').1 = .ok w ∧
      u.Declares w := by
  induction h with
  | refl => exact ⟨depth, Nat.le_refl _, loading, u, hu, .refl u⟩
  | tail _ hbc ih =>
    obtain ⟨depth', hle, loading', w, hw, hdecl⟩ := ih
    obtain ⟨loc, path, hm, hc⟩ := hbc
    obtain ⟨w', ⟨_, load', hload, hw'⟩, hdecl'⟩ := (load_to_eq_ok.mp hw).2.declares_nested hm hc
    cases depth' with
    | zero => cases hload
    | succ depth' =>
      cases hload
      exact ⟨depth', (Nat.le_succ _).trans hle, _, w', hw', hdecl.trans hdecl'⟩

theorem load_included (hu : ((ofSources sources).load a).1 = .ok u)
    (h : ReflTransGen (Includes sources) a b) :
    ∃ w, ((ofSources sources).load b).1 = .ok w ∧ u.Declares w := by
  obtain ⟨depth, hle, loading, w, hw, hdecl⟩ := load_to_included hu h
  exact ⟨w, load_to_mono hle (List.nil_subset _) hw, hdecl⟩

end Loader

end DataLayout
