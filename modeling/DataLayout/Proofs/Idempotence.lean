import DataLayout.Proofs.Ordering
import DataLayout.Proofs.Rebinding

/-!
# Resolving again

Resolving a unit a second time gives what the first time gave, whether that was success or a
failure. The second run starts from structs that were moved, references that were bound and
layouts of which some may be missing; each of its passes finds its work done as far as it was
done before, and stops where it stopped.
-/

set_option autoImplicit false

namespace DataLayout

theorem Ty.map_ref_eq_self {f : StructRef → StructRef} {t : Ty}
    (h : ∀ r, t.ref? = some r → f r = r) : t.mapRef f = t := by
  induction t with
  | struct r => rw [mapRef, h r rfl]
  | pointer t ih => rw [mapRef, ih h]
  | array t n ih => rw [mapRef, ih h]
  | primitive | void | function => rfl

theorem Struct.map_ty_eq_self {g : Ty → Ty} {s : Struct} (h : ∀ f ∈ s.fields, g f.ty = f.ty) :
    s.mapTy g = s := by
  have hf : s.fields.map (·.mapTy g) = s.fields := by
    conv_rhs => rw [← s.fields.map_id]
    apply List.map_congr_left
    intro f hf
    rw [Field.mapTy, h f hf, id]
  rw [mapTy, hf]

theorem FunctionType.map_ty_eq_self {g : Ty → Ty} {f : FunctionType} (h : ∀ t ∈ f.types, g t = t) :
    f.mapTy g = f := by
  obtain ⟨hr, hp⟩ := List.forall_mem_cons.mp h
  have hparams : f.params.map (·.mapTy g) = f.params := by
    conv_rhs => rw [← f.params.map_id]
    apply List.map_congr_left
    intro p hmem
    rw [Parameter.mapTy, hp p.ty (List.mem_map_of_mem hmem), id]
  rw [mapTy, hr, hparams]

/-- The name of a struct and the types of its fields: all that placing it asks of the others. -/
def Struct.shape (s : Struct) : String × List Ty := (s.name, s.fields.map Field.ty)

namespace CompilationUnit

variable {u v w : CompilationUnit} {weight : String → Nat} {extent : String → Extent}

theorem Bound.map_ty_eq_self (h : u.Bound) {f : StructRef → StructRef}
    (hf : ∀ r, r.BoundIn u.structs → f r = r) :
    u.structs.map (·.mapTy (Ty.mapRef f)) = u.structs ∧
      u.functions.map (·.mapTy (Ty.mapRef f)) = u.functions := by
  constructor
  · conv_rhs => rw [← u.structs.map_id]
    apply List.map_congr_left
    intro s hs
    apply Struct.map_ty_eq_self
    intro g hg
    exact Ty.map_ref_eq_self fun r hr => hf r (h.fields s hs g hg r hr)
  · conv_rhs => rw [← u.functions.map_id]
    apply List.map_congr_left
    intro fn hfn
    apply FunctionType.map_ty_eq_self
    intro t ht
    exact Ty.map_ref_eq_self fun r hr => hf r (h.functions fn hfn t ht r hr)

theorem bind_to_eq_self (hd : (u.structs.map Struct.name).Nodup) {r : StructRef}
    (hr : r.BoundIn u.structs) : r.bindTo u.position? = r := by
  obtain ⟨i, s, hi, hs, hn⟩ := hr
  have hname : r.name ∈ u.structs.map Struct.name :=
    hn ▸ List.mem_map_of_mem (List.mem_of_getElem? hs)
  obtain ⟨j, hj⟩ := Option.isSome_iff_exists.mp (position?_is_some.mpr hname)
  obtain ⟨t, ht, htn⟩ := get_elem?_of_position? hj
  have hij : i = j := by
    have hi' := Struct.get_elem?_name hs
    have hj' := Struct.get_elem?_name ht
    rw [hn, ← htn] at hi'
    have hlt := (List.getElem?_eq_some_iff.mp hi').1
    exact (List.getElem?_inj hlt hd).mp (hi'.trans hj'.symm)
  rw [StructRef.bindTo, hj, ← hij, ← hi]

theorem bind_refs_eq_self (hb : u.Bindable) (h : u.Bound) : u.bindRefs = .done u := by
  have hf := bind_refs_failure.mpr hb
  obtain ⟨hs, hfn⟩ := h.map_ty_eq_self fun r hr => bind_to_eq_self hb.structs_distinct hr
  have hl : u.linked = u := by
    rw [linked, Ty.linked, hs, hfn]
  rw [Progress.eq_done hf, bind_refs_state hf, hl]

theorem sort_eq_self (hb : u.Bound)
    (ho : (u.structs.map Struct.name).Pairwise (Precedes weight)) :
    u.sort (u.structs.map fun s => weight s.name) = u := by
  let weights := u.structs.map fun s => weight s.name
  have hl : weights.length = u.structs.length := List.length_map _
  have hentries : u.sortedEntries weights = (weights.zip u.structs).zipIdx := by
    apply List.mergeSort_of_pairwise
    rw [List.pairwise_iff_getElem]
    intro i j hi hj hij
    rw [List.pairwise_map, List.pairwise_iff_getElem] at ho
    simp only [List.getElem_zipIdx, List.getElem_zip, weights, List.getElem_map, precedes_iff]
    simp only [List.length_zipIdx, List.length_zip, hl, Nat.min_self] at hi hj
    rcases ho i j hi hj hij with hlt | ⟨heq, hname⟩
    · exact .inl hlt
    · exact .inr ⟨heq, le_of_lt (code_points_lt.mp hname)⟩
  have hposition : ∀ i < u.structs.length, u.newPosition weights i = some i := by
    intro i hi
    rw [newPosition, hentries, List.findIdx?_eq_some_iff_getElem]
    simp [hl, hi]
    omega
  have hmove : ∀ r : StructRef, r.BoundIn u.structs → moveRef (u.newPosition weights) r = r := by
    rintro r ⟨i, s, hi, hs, _⟩
    rw [moveRef, hi, Option.bind_some, hposition i (List.getElem?_eq_some_iff.mp hs).1, ← hi]
  obtain ⟨hs, hfn⟩ := hb.map_ty_eq_self hmove
  have hstructs : (u.sort weights).structs = u.structs := by
    rw [sort_structs, hentries]
    conv_rhs => rw [← hs]
    calc
      _ = (((weights.zip u.structs).zipIdx.map Prod.fst).map Prod.snd).map
          (·.mapTy (u.moveTy weights)) := by simp only [List.map_map, Function.comp_def]
      _ = _ := by
        rw [List.zipIdx_map_fst, List.map_snd_zip (Nat.le_of_eq hl.symm)]
        rfl
  have hfunctions : (u.sort weights).functions = u.functions := hfn
  calc
    u.sort weights = { u with
      structs := (u.sort weights).structs, functions := (u.sort weights).functions } := rfl
    _ = u := by rw [hstructs, hfunctions]

/-- The unit `w` is the unit `v` with offsets, extents and values filled in or left out. -/
structure Elaborates (v w : CompilationUnit) : Prop where
  bare : w.structs.map Struct.bare = v.structs.map Struct.bare
  shape : w.structs.map Struct.shape = v.structs.map Struct.shape
  functions : w.functions = v.functions
  constants : w.constants = v.constants

theorem Elaborates.refl (v : CompilationUnit) : v.Elaborates v := ⟨rfl, rfl, rfl, rfl⟩

theorem Elaborates.names (h : v.Elaborates w) :
    w.structs.map Struct.name = v.structs.map Struct.name := by
  have hn := congrArg (List.map Prod.fst) h.shape
  rw [List.map_map, List.map_map] at hn
  exact hn

theorem Elaborates.bound_in (h : v.Elaborates w) {r : StructRef} (hr : r.BoundIn v.structs) :
    r.BoundIn w.structs := by
  obtain ⟨i, s, hi, hs, hn⟩ := hr
  have hname := Struct.get_elem?_name hs
  rw [← h.names, List.getElem?_map, Option.map_eq_some_iff] at hname
  obtain ⟨t, ht, htn⟩ := hname
  exact ⟨i, t, hi, ht, htn.trans hn⟩

theorem Elaborates.bound (h : v.Elaborates w) (hb : v.Bound) : w.Bound := by
  constructor
  · intro s hs f hf r hr
    have hshape := List.mem_map_of_mem (f := Struct.shape) hs
    rw [h.shape] at hshape
    obtain ⟨t, ht, hts⟩ := List.mem_map.mp hshape
    have hty := List.mem_map_of_mem (f := Field.ty) hf
    rw [← show t.fields.map Field.ty = s.fields.map Field.ty from congrArg Prod.snd hts] at hty
    obtain ⟨g, hg, hgf⟩ := List.mem_map.mp hty
    exact h.bound_in (hb.fields t ht g hg r (hgf ▸ hr))
  · intro f hf t ht r hr
    rw [h.functions] at hf
    exact h.bound_in (hb.functions f hf t ht r hr)

theorem Arranges.elaborates (h : u.Arranges v) (he : v.Elaborates w) : u.Arranges w where
  same := (List.Perm.of_eq he.bare).trans h.same
  bound := he.bound h.bound
  constants := he.constants.trans h.constants

theorem BoundIn.name_mem {structs : List Struct} {r : StructRef} (h : r.BoundIn structs) :
    r.name ∈ structs.map Struct.name := by
  obtain ⟨i, s, _, hs, hn⟩ := h
  exact hn ▸ List.mem_map_of_mem (List.mem_of_getElem? hs)

theorem Arranges.bindable (h : u.Arranges v) (hb : u.Bindable) : v.Bindable where
  structs_distinct := h.same.names.nodup_iff.mpr hb.structs_distinct
  fields_distinct := by
    refine h.same.symm.forall_mem (P := fun s => (s.fields.map Field.name).Nodup) ?_
      hb.fields_distinct
    intro s
    rw [Struct.bare, List.map_map]
    rfl
  storable := h.same.symm.forall_mem Struct.storable_bare hb.storable
  fields_defined s hs f hf r hr := BoundIn.name_mem (h.bound.fields s hs f hf r hr)
  functions_defined f hf t ht r hr := BoundIn.name_mem (h.bound.functions f hf t ht r hr)

theorem bind_refs_order_again (ho : (u.bindRefs.andThen order).failure = none)
    (he : Elaborates (u.bindRefs.andThen order).state w) :
    w.bindRefs = .done w ∧ w.order = .done w := by
  have harr := (bind_refs_order_arranges ho).elaborates he
  obtain ⟨hb, ha, weight, hw, hfit⟩ := bind_refs_order_failure.mp ho
  have hbw := harr.bindable hb
  have hww : Weighting w.structs weight := (harr.same.assigns Struct.weight_from_bare).mpr hw
  have hof : w.order.failure = none := by
    refine (order_failure hbw.structs_distinct harr.bound).mpr ⟨harr.same.contains ▸ ha, weight,
      hww, ?_⟩
    exact harr.same.symm.forall_mem (Struct.weight_fits_bare weight) hfit
  have hordered : (w.structs.map Struct.name).Pairwise (Precedes weight) := by
    rw [he.names]
    exact bind_refs_order_ordered ho hw
  refine ⟨bind_refs_eq_self hbw harr.bound, ?_⟩
  rw [order_eq_sort hbw.structs_distinct harr.bound hof hww, sort_eq_self harr.bound hordered]

theorem placement_order_congr (h : w.structs.map Struct.shape = v.structs.map Struct.shape) :
    w.placementOrder = v.placementOrder := by
  have hparts : ∀ structs : List Struct, (fun i : Nat => ((structs[i]?).map Struct.parts).getD []) =
      fun i => (((structs.map Struct.shape)[i]?).map fun shape : String × List Ty =>
        shape.2.filterMap fun t => t.embedded.bind StructRef.target).getD [] := by
    intro structs
    funext i
    rw [List.getElem?_map, Option.map_map]
    congr 2
    funext s
    simp [Struct.parts, Struct.shape, List.filterMap_map]
  have hlength : w.structs.length = v.structs.length := by
    simpa using congrArg List.length h
  simp only [placementOrder, hparts, h, hlength]

theorem laid_out_at_elaborates (v : CompilationUnit) (extent : String → Extent) (placed : List Nat)
    (values : List (Nat × Int64)) (resolved : Bool) :
    v.Elaborates
      { v with structs := laidOutAt extent placed v.structs, values, resolved } := by
  have hkeep : ∀ {β : Type} {key : Struct → β}, (∀ s, key (s.laidOut extent) = key s) →
      (laidOutAt extent placed v.structs).map key = v.structs.map key := by
    intro β key hkey
    apply List.ext_getElem?
    intro i
    rw [List.getElem?_map, get_elem?_laid_out_at, Option.map_map, List.getElem?_map]
    congr 1
    funext s
    by_cases hi : i ∈ placed
    · simp [hi, hkey]
    · simp [hi]
  refine ⟨hkeep (Struct.bare_laid_out extent), hkeep fun s => ?_, rfl, rfl⟩
  rw [Struct.shape, Struct.map_ty_laid_out]
  rfl

end CompilationUnit

theorem Field.set_offset_again (fs : List Field) (offsets : List Nat) :
    List.zipWith setOffset (List.zipWith setOffset fs offsets) offsets =
      List.zipWith setOffset fs offsets := by
  induction fs generalizing offsets with
  | nil => rfl
  | cons f fs ih =>
    cases offsets with
    | nil => rfl
    | cons offset offsets =>
      simp only [List.zipWith_cons_cons, ih]
      rfl

theorem Struct.laid_out_laid_out (extent : String → Extent) (s : Struct) :
    (s.laidOut extent).laidOut extent = s.laidOut extent := by
  have hextents : (s.laidOut extent).fieldExtents extent = s.fieldExtents extent := by
    rw [← field_extents_bare, bare_laid_out, field_extents_bare]
  have hextent : (s.laidOut extent).extentFrom extent = s.extentFrom extent := by
    rw [← extent_from_bare, bare_laid_out, extent_from_bare]
  rw [laidOut, hextents, hextent]
  simp only [laidOut, Field.set_offset_again]

namespace CompilationUnit

variable {u v w : CompilationUnit} {extent : String → Extent} {positions placed : List Nat}

theorem place_at_placed (h : Placeable extent u.structs) (ho : PartsFirst u.structs positions)
    (hs : positions ⊆ placed)
    (hfits : ∀ i ∈ positions, ∀ s, u.structs[i]? = some s → s.ExtentFits extent) :
    placeAt positions { u with structs := laidOutAt extent placed u.structs } =
      .done { u with structs := laidOutAt extent placed u.structs } := by
  induction ho with
  | nil => rfl
  | @snoc positions i s ho hi hm hp ih =>
    have hio : i ∈ positions ++ [i] := List.mem_append_right _ (List.mem_singleton_self i)
    have hsub : positions ⊆ placed := List.Subset.trans (List.subset_append_left _ _) hs
    have hi' : (laidOutAt extent placed u.structs)[i]? = some (s.laidOut extent) := by
      rw [get_elem?_laid_out_at, hi, Option.map_some, if_pos (hs hio)]
    -- the fields are as they were but for their offsets, so they are ready again
    have hready := h.ready hi fun j hj => hsub (hp j hj)
    have hready' : ∀ f ∈ (s.laidOut extent).fields, f.Ready
        (extent? { u with structs := laidOutAt extent placed u.structs }) extent := by
      intro f hf
      have hty := List.mem_map_of_mem (f := Field.ty) hf
      rw [Struct.map_ty_laid_out] at hty
      obtain ⟨g, hg, hgf⟩ := List.mem_map.mp hty
      obtain ⟨hk, hst, hr⟩ := hready g hg
      exact ⟨hgf ▸ hk, hgf ▸ hst, hgf ▸ hr⟩
    have hfit : (s.laidOut extent).ExtentFits extent := by
      rw [← Struct.extent_fits_bare, Struct.bare_laid_out, Struct.extent_fits_bare]
      exact hfits i hio s hi
    have hplace := (Struct.place_eq_some hready' _).mpr ⟨hfit, Struct.laid_out_laid_out extent s⟩
    have hset : (laidOutAt extent placed u.structs).set i (s.laidOut extent) =
        laidOutAt extent placed u.structs := by
      obtain ⟨hlt, hget⟩ := List.getElem?_eq_some_iff.mp hi'
      rw [← hget, List.set_getElem_self]
    rw [place_at_append, ih hsub fun j hj => hfits j (List.mem_append_left _ hj),
      Progress.and_then_of_failure_eq_none (Progress.done_failure _), Progress.done_state]
    simp only [placeAt, hi', hplace, hset]

theorem place_at_singleton_of_failure {i : Nat} (h : (placeAt [i] u).failure ≠ none) :
    (placeAt [i] u).state = u := by
  simp only [placeAt] at h ⊢
  split
  · rfl
  · next s hs =>
    simp only [hs] at h
    split
    · rfl
    · next s' hs' =>
      simp only [hs'] at h
      exact absurd rfl h

theorem place_at_again (h : Placeable extent u.structs) (ho : PartsFirst u.structs positions) :
    (∃ placed, (placeAt positions u).state =
      { u with structs := laidOutAt extent placed u.structs }) ∧
    placeAt positions (placeAt positions u).state = placeAt positions u := by
  induction ho with
  | nil => exact ⟨⟨[], by rw [laid_out_at_nil]; rfl⟩, rfl⟩
  | @snoc positions i s ho hi hm hp ih =>
    obtain ⟨⟨placed, hstate⟩, hagain⟩ := ih
    by_cases hf : (placeAt positions u).failure = none
    · have hlast : placeAt (positions ++ [i]) u = placeAt [i] (placeAt positions u).state := by
        rw [place_at_append, Progress.and_then_of_failure_eq_none hf]
      by_cases hf' : (placeAt (positions ++ [i]) u).failure = none
      · -- all of them are placed
        have hspec := place_at_spec h (.snoc ho hi hm hp)
        rw [hf'] at hspec
        obtain ⟨hdone, hfits⟩ := hspec
        refine ⟨⟨_, hdone⟩, ?_⟩
        rw [hdone, place_at_placed h (.snoc ho hi hm hp) (List.Subset.refl _) hfits]
        rw [Progress.done, ← hdone, ← hf']
      · -- the last one does not fit, and those before it are placed
        have hkept := place_at_singleton_of_failure (hlast ▸ hf')
        refine ⟨⟨placed, by rw [hlast, hkept, hstate]⟩, ?_⟩
        rw [hlast, hkept, place_at_append, hagain, Progress.and_then_of_failure_eq_none hf]
    · have hstop : placeAt (positions ++ [i]) u = placeAt positions u := by
        rw [place_at_append, Progress.and_then_of_failure hf]
      refine ⟨⟨placed, by rw [hstop, hstate]⟩, ?_⟩
      rw [hstop, place_at_append, hagain, Progress.and_then_of_failure hf]

theorem place_again (h : Placeable extent v.structs) :
    (∃ placed, v.place.state = { v with structs := laidOutAt extent placed v.structs }) ∧
      v.place.state.place = v.place := by
  obtain ⟨⟨placed, hstate⟩, hagain⟩ :
      (∃ placed, v.place.state = { v with structs := laidOutAt extent placed v.structs }) ∧
        placeAt v.placementOrder v.place.state = v.place :=
    place_at_again h (placement_order_visits h.bound h.acyclic).order
  refine ⟨⟨placed, hstate⟩, ?_⟩
  have hshape := (v.laid_out_at_elaborates extent placed v.values v.resolved).shape
  rw [← hstate] at hshape
  calc
    v.place.state.place = placeAt v.place.state.placementOrder v.place.state := rfl
    _ = v.place := by rw [placement_order_congr hshape, hagain]

theorem place_valued (h : Placeable extent v.structs) (hp : v.place.failure = none)
    (values : List (Nat × Int64)) (resolved : Bool) :
    ({ v.place.state with values, resolved } : CompilationUnit).place =
      .done { v.place.state with values, resolved } := by
  have hv := placement_order_visits h.bound h.acyclic
  have hspec := place_at_spec h hv.order
  rw [show (placeAt v.placementOrder v).failure = none from hp] at hspec
  obtain ⟨hdone, hfits⟩ := hspec
  have hstate : v.place.state =
      { v with structs := laidOutAt extent v.placementOrder v.structs } := hdone
  let v' : CompilationUnit := { v with values, resolved }
  have horder := placement_order_congr
    (v.laid_out_at_elaborates extent v.placementOrder values resolved).shape
  rw [hstate, place, horder]
  exact place_at_placed (u := v') h hv.order (List.Subset.refl _) hfits

/-- What follows placing: constants are evaluated and the unit is marked. -/
def finish (u : CompilationUnit) : Progress CompilationUnit :=
  u.resolveConstants.andThen fun u => .done { u with resolved := true }

def placeAndFinish (u : CompilationUnit) : Progress CompilationUnit := u.place.andThen finish

def orderAndFinish (u : CompilationUnit) : Progress CompilationUnit :=
  u.order.andThen placeAndFinish

theorem resolve_eq (u : CompilationUnit) : u.resolve = u.bindRefs.andThen orderAndFinish := by
  simp only [resolve, resolveStructs, Progress.and_then_assoc]
  rfl

theorem finish_again (u : CompilationUnit) :
    (∃ values resolved, u.finish.state = { u with values, resolved }) ∧
      u.finish.state.finish = u.finish := by
  cases h : Constant.values u.constants with
  | error e =>
    have hf : u.finish = .stopped u e := by
      rw [finish, resolveConstants, h]
      rfl
    rw [hf]
    exact ⟨⟨u.values, u.resolved, rfl⟩, hf⟩
  | ok vs =>
    have hf : ∀ v : CompilationUnit, v.constants = u.constants →
        v.finish = .done { v with values := vs, resolved := true } := by
      intro v hv
      rw [finish, resolveConstants, hv, h]
      rfl
    rw [hf u rfl]
    exact ⟨⟨vs, true, rfl⟩, hf _ rfl⟩

theorem place_and_finish_again (h : Placeable extent v.structs) :
    v.Elaborates v.placeAndFinish.state ∧
      v.placeAndFinish.state.placeAndFinish = v.placeAndFinish := by
  obtain ⟨⟨placed, hstate⟩, hagain⟩ := place_again h
  obtain ⟨⟨values, resolved, hfinish⟩, hfinish'⟩ := finish_again v.place.state
  constructor
  · by_cases hp : v.place.failure = none
    · rw [placeAndFinish, Progress.and_then_of_failure_eq_none hp, hfinish, hstate]
      exact v.laid_out_at_elaborates extent placed values resolved
    · rw [placeAndFinish, Progress.and_then_of_failure hp, hstate]
      exact v.laid_out_at_elaborates extent placed v.values v.resolved
  · refine Progress.and_then_repeats hagain fun hp => ⟨?_, hfinish'⟩
    rw [hfinish]
    exact place_valued h hp values resolved

theorem exists_placeable (ho : (u.bindRefs.andThen order).failure = none) :
    ∃ extent, Placeable extent (u.bindRefs.andThen order).state.structs := by
  obtain ⟨hb, ha, _⟩ := bind_refs_order_failure.mp ho
  obtain ⟨extent, hl⟩ := hb.exists_layout ha
  exact ⟨extent, (bind_refs_order_arranges ho).placeable hb ha hl⟩

theorem order_of_failure (h : u.order.failure ≠ none) : u.order.state = u := by
  rw [order] at h ⊢
  cases hw : u.weights.map u.sort with
  | error e => rfl
  | ok v =>
    rw [hw] at h
    exact absurd rfl h

/-- Resolving a unit again, after a success or a failure, ends as it did and changes nothing. -/
theorem resolve_resolve (u : CompilationUnit) : u.resolve.state.resolve = u.resolve := by
  rw [resolve_eq, resolve_eq]
  refine Progress.and_then_repeats (bind_refs_repeatable u) fun hb => ?_
  have hbound : u.bindRefs.state.bindRefs = .done u.bindRefs.state := by
    rw [bind_refs_repeatable u]
    cases hp : u.bindRefs with
    | mk state failure =>
      rw [hp] at hb
      rw [Progress.done, ← hb]
  by_cases ho : u.bindRefs.state.order.failure = none
  · have hbo : (u.bindRefs.andThen order).failure = none :=
      Progress.and_then_failure.mpr ⟨hb, ho⟩
    obtain ⟨extent, hplaceable⟩ := exists_placeable hbo
    have hfixed : ∀ w, Elaborates (u.bindRefs.andThen order).state w →
        w.bindRefs = .done w ∧ w.order = .done w := fun w hw => bind_refs_order_again hbo hw
    rw [Progress.and_then_of_failure_eq_none hb] at hplaceable hfixed
    obtain ⟨he, hagain⟩ := place_and_finish_again hplaceable
    have hrest : u.bindRefs.state.orderAndFinish = u.bindRefs.state.order.state.placeAndFinish :=
      Progress.and_then_of_failure_eq_none ho _
    rw [hrest]
    refine ⟨(hfixed _ he).1, ?_⟩
    rw [orderAndFinish, (hfixed _ he).2,
      Progress.and_then_of_failure_eq_none (Progress.done_failure _), Progress.done_state, hagain]
  · -- a unit that cannot be ordered is left as binding has left it
    have hrest : u.bindRefs.state.orderAndFinish = u.bindRefs.state.order :=
      Progress.and_then_of_failure ho _
    rw [hrest, order_of_failure ho]
    exact ⟨hbound, hrest⟩

end CompilationUnit

end DataLayout
