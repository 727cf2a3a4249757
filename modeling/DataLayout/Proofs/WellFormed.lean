import DataLayout.Proofs.Placement
import DataLayout.Proofs.Sorting
import DataLayout.Proofs.Weighing
import DataLayout.Resolution

/-!
# Resolution accepts the well-formed units

A unit is well formed when its names are distinct and defined, its fields have storage, no struct
contains itself and no number that its weights and its layout come to is too large. All this is
said of the declarations as they were written. Resolution succeeds for these units and gives every
struct its reference layout.
-/

set_option autoImplicit false

namespace DataLayout

namespace CompilationUnit

variable {u v : CompilationUnit} {extent : String → Extent}

structure WellFormed (u : CompilationUnit) : Prop extends u.Bindable where
  acyclic : Dependency.Acyclic (Contains u.structs)
  /-- The exact weights, of which there is one for each name, fit in words. -/
  weights_fit : ∃ weight, Weighting u.structs weight ∧ ∀ s ∈ u.structs, s.WeightFits weight
  /-- The exact layout, of which there is one for each name, fits in words. -/
  layout_fits : ∃ extent, Layout u.structs extent ∧ ∀ s ∈ u.structs, s.ExtentFits extent

theorem Bound.parts_bound (h : u.Bound) : PartsBound u.structs :=
  fun s hs f hf r hr => h.fields s hs f hf r (Ty.ref?_of_embedded hr)

theorem order_failure (hd : (u.structs.map Struct.name).Nodup) (hb : u.Bound) :
    u.order.failure = none ↔ Dependency.Acyclic (Contains u.structs) ∧
      ∃ weight, Weighting u.structs weight ∧ ∀ s ∈ u.structs, s.WeightFits weight := by
  rw [← exists_weights hd hb.parts_bound, order, Progress.of_except_failure]
  simp [except_map_eq_ok]

/-- The unit `v` has the structs of `u` in some order, with references bound, and the constants
of `u`. -/
structure Arranges (u v : CompilationUnit) : Prop where
  same : SameStructs v.structs u.structs
  bound : v.Bound
  constants : v.constants = u.constants

theorem order_arranges (hd : (u.structs.map Struct.name).Nodup) (hb : u.Bound)
    (h : u.order.failure = none) : u.Arranges u.order.state := by
  obtain ⟨_, weight, hwt, _⟩ := (order_failure hd hb).mp h
  rw [order, Progress.of_except_failure] at h
  obtain ⟨_, hw⟩ := h
  obtain ⟨ws, hws, rfl⟩ := except_map_eq_ok.mp hw
  have hspec := weights_spec hd hb.parts_bound
  rw [hws] at hspec
  have hl : ws.length = u.structs.length := by
    rw [(hspec.2 weight hwt).2, List.length_map]
  rw [order, hw]
  exact ⟨sort_same_structs hl, sort_bound hl hb, rfl⟩

theorem bind_refs_order_failure : (u.bindRefs.andThen order).failure = none ↔
    u.Bindable ∧ Dependency.Acyclic (Contains u.structs) ∧
      ∃ weight, Weighting u.structs weight ∧ ∀ s ∈ u.structs, s.WeightFits weight := by
  rw [Progress.and_then_failure, bind_refs_failure]
  refine and_congr_right fun hb => ?_
  -- binding changes nothing that the other conditions look at
  have hsame := u.linked_same_structs
  have hd := hsame.names.nodup_iff.mpr hb.structs_distinct
  rw [bind_refs_state (bind_refs_failure.mpr hb), order_failure hd (linked_bound hb),
    hsame.contains]
  refine and_congr_right fun _ => exists_congr fun weight => and_congr ?_ ?_
  · exact hsame.assigns Struct.weight_from_bare
  · exact hsame.forall_mem_iff (Struct.weight_fits_bare weight)

theorem bind_refs_order_arranges (h : (u.bindRefs.andThen order).failure = none) :
    u.Arranges (u.bindRefs.andThen order).state := by
  obtain ⟨hb, ho⟩ := Progress.and_then_failure.mp h
  have hbind := bind_refs_failure.mp hb
  have hd := u.linked_same_structs.names.nodup_iff.mpr hbind.structs_distinct
  rw [Progress.and_then_of_failure_eq_none hb]
  rw [bind_refs_state hb] at ho ⊢
  have harr := order_arranges hd (linked_bound hbind) ho
  exact ⟨harr.same.trans u.linked_same_structs, harr.bound, harr.constants⟩

theorem Bindable.parts_defined (h : u.Bindable) : PartsDefined u.structs := by
  intro s hs p hp
  obtain ⟨f, hf, r, hr, rfl⟩ := s.field_of_mem_part_names hp
  exact h.fields_defined s hs f hf r (Ty.ref?_of_embedded hr)

theorem Bindable.exists_layout (h : u.Bindable)
    (ha : Dependency.Acyclic (Contains u.structs)) : ∃ extent, Layout u.structs extent :=
  exists_assigns h.structs_distinct (contains_well_founded h.parts_defined ha)
    Struct.extent_from_from_parts

theorem Arranges.placeable (h : u.Arranges v) (hb : u.Bindable)
    (ha : Dependency.Acyclic (Contains u.structs)) (hl : Layout u.structs extent) :
    Placeable extent v.structs where
  bound := h.bound.parts_bound
  storable := h.same.symm.forall_mem Struct.storable_bare hb.storable
  acyclic := h.same.contains ▸ ha
  layout := (h.same.assigns Struct.extent_from_bare).mpr hl

structure Resolves (extent : String → Extent) (u v : CompilationUnit) : Prop
    extends u.Arranges v where
  layout : Layout u.structs extent
  fits : ∀ s ∈ u.structs, s.ExtentFits extent
  placed : ∀ s ∈ v.structs, s.LaidOutBy extent

theorem Arranges.resolves (h : u.Arranges v) (hb : u.Bindable)
    (ha : Dependency.Acyclic (Contains u.structs)) (hl : Layout u.structs extent)
    (hp : v.place.failure = none) : u.Resolves extent v.place.state := by
  have hv := h.placeable hb ha hl
  rw [place_state hv hp]
  refine ⟨⟨?_, h.bound.laid_out, h.constants⟩, hl, ?_, fun s hs => ?_⟩
  · refine .trans ?_ h.same
    simp only [List.map_map, Function.comp_def, Struct.bare_laid_out, List.Perm.refl]
  · exact h.same.forall_mem (Struct.extent_fits_bare extent) ((place_failure hv).mp hp)
  · obtain ⟨s, _, rfl⟩ := List.mem_map.mp hs
    exact s.laid_out_laid_out_by extent

theorem resolve_structs_spec (h : u.resolveStructs.failure = none) :
    u.WellFormed ∧ ∃ extent, u.Resolves extent u.resolveStructs.state := by
  obtain ⟨ho, hp⟩ := Progress.and_then_failure.mp h
  obtain ⟨hb, ha, hw⟩ := bind_refs_order_failure.mp ho
  have harr := bind_refs_order_arranges ho
  obtain ⟨extent, hl⟩ := hb.exists_layout ha
  have hres := harr.resolves hb ha hl hp
  rw [resolveStructs, Progress.and_then_of_failure_eq_none ho]
  exact ⟨⟨hb, ha, hw, extent, hl, hres.fits⟩, extent, hres⟩

theorem WellFormed.of_same_structs (hu : u.WellFormed) (h : SameStructs v.structs u.structs)
    (hb : v.Bindable) : v.WellFormed := by
  obtain ⟨weight, hw, hweights⟩ := hu.weights_fit
  obtain ⟨extent, hl, hextents⟩ := hu.layout_fits
  refine ⟨hb, h.contains ▸ hu.acyclic, ⟨weight, ?_, ?_⟩, extent, ?_, ?_⟩
  · exact (h.assigns Struct.weight_from_bare).mpr hw
  · exact h.symm.forall_mem (Struct.weight_fits_bare weight) hweights
  · exact (h.assigns Struct.extent_from_bare).mpr hl
  · exact h.symm.forall_mem (Struct.extent_fits_bare extent) hextents

theorem WellFormed.resolve_structs_failure (h : u.WellFormed) :
    u.resolveStructs.failure = none := by
  obtain ⟨extent, hl, hfits⟩ := h.layout_fits
  have ho := bind_refs_order_failure.mpr ⟨h.toBindable, h.acyclic, h.weights_fit⟩
  have harr := bind_refs_order_arranges ho
  have hplaceable := harr.placeable h.toBindable h.acyclic hl
  refine Progress.and_then_failure.mpr ⟨ho, (place_failure hplaceable).mpr ?_⟩
  exact harr.same.symm.forall_mem (Struct.extent_fits_bare extent) hfits

/-- Resolution succeeds for the well-formed units and for no others. -/
theorem resolve_structs_succeeds_iff (u : CompilationUnit) :
    u.resolveStructs.failure = none ↔ u.WellFormed := by
  constructor
  · exact fun h => (resolve_structs_spec h).1
  · rintro ⟨hb, ha, hw, extent, hl, hfits⟩
    have ho := bind_refs_order_failure.mpr ⟨hb, ha, hw⟩
    have harr := bind_refs_order_arranges ho
    refine Progress.and_then_failure.mpr ⟨ho, (place_failure (harr.placeable hb ha hl)).mpr ?_⟩
    exact harr.same.symm.forall_mem (Struct.extent_fits_bare extent) hfits

end CompilationUnit

end DataLayout
