import DataLayout.Proofs.Agreement

/-!
# The order of declarations does not matter

Structs and constants may be declared in any order. Whether a unit can be resolved is seen of the
declarations it has, and what it is resolved to can be made again from them: structs are sorted,
bound by name and laid out from their parts, and a constant has the value that its definition has.
-/

set_option autoImplicit false

namespace DataLayout

namespace Constant

variable {constants constants' : List Constant}

theorem Evaluates.of_subset (h : constants ⊆ constants') {e : Expr} {v : Int}
    (hv : Evaluates constants e v) : Evaluates constants' e v := by
  induction hv with
  | literal loc v => exact .literal loc v
  | constant loc hc _ ih => exact .constant loc (h hc) ih
  | unary loc op _ ih => exact .unary loc op ih
  | binary loc op _ _ hd ihl ihr => exact .binary loc op ihl ihr hd

theorem Meaningful.perm (h : Meaningful constants) (hp : constants'.Perm constants) :
    Meaningful constants' where
  distinct := (hp.map Constant.name).nodup_iff.mpr h.distinct
  defined c hc x hx :=
    (hp.map Constant.name).mem_iff.mpr (h.defined c (hp.mem_iff.mp hc) x hx)
  acyclic := by
    have hused : UsedBy constants' = UsedBy constants := by
      funext x y
      simp only [UsedBy, hp.mem_iff]
    rw [hused]
    exact h.acyclic
  legal c hc loc op l r hmem a b ha hb :=
    h.legal c (hp.mem_iff.mp hc) loc op l r hmem a b (ha.of_subset hp.subset)
      (hb.of_subset hp.subset)

end Constant

theorem Struct.LaidOutBy.congr {extent extent' : String → Extent} {s : Struct}
    (h : s.LaidOutBy extent) (hp : ∀ p ∈ s.partNames, extent p = extent' p) :
    s.LaidOutBy extent' := by
  constructor
  · rw [← field_extents_congr hp]
    exact h.offsets
  · rw [← extent_from_from_parts extent extent' s hp]
    exact h.extent

theorem FunctionType.rebuild {f : FunctionType} {g : Ty → Ty} (hg : ∀ t ∈ f.types, g t.bare = t) :
    f.bare.mapTy g = f := by
  rw [bare, map_ty_map_ty]
  exact map_ty_eq_self hg

namespace CompilationUnit

variable {u u' v v' : CompilationUnit} {extent extent' : String → Extent}

theorem linked_bare (hd : (u.structs.map Struct.name).Nodup) {t : Ty}
    (ht : ∀ r, t.ref? = some r → r.BoundIn u.structs) : t.bare.linked u.position? = t := by
  rw [Ty.linked, Ty.bare, Ty.map_ref_map_ref]
  exact Ty.map_ref_eq_self fun r hr => bind_to_eq_self hd (ht r hr)

theorem ResolvedAs.placed_by (h : u.ResolvedAs extent v) (hl : Layout v.structs extent') :
    ∀ s ∈ v.structs, s.LaidOutBy extent' := by
  have hparts := h.laid_out.bound.defined
  have hagree := assigns_unique (contains_well_founded hparts h.laid_out.acyclic) hparts
    Struct.extent_from_from_parts h.laid_out.layout hl
  intro s hs
  refine (h.placed s hs).congr fun p hp => ?_
  obtain ⟨t, ht, rfl⟩ := List.mem_map.mp (hparts s hs p hp)
  exact hagree t ht

theorem ResolvedAs.rebuild_structs (h : u.ResolvedAs extent v) (hl : Layout v.structs extent') :
    v.structs = (v.structs.map Struct.bare).map fun s =>
      (s.mapTy (Ty.linked v.position?)).laidOut extent' := by
  rw [List.map_map]
  conv_lhs => rw [← v.structs.map_id]
  apply List.map_congr_left
  intro s hs
  refine ((h.placed_by hl s hs).rebuild fun f hf => ?_).symm
  exact linked_bare h.names_distinct (h.bound.fields s hs f hf)

theorem ResolvedAs.rebuild_functions (h : u.ResolvedAs extent v) :
    v.functions =
      (v.functions.map FunctionType.bare).map (·.mapTy (Ty.linked v.position?)) := by
  rw [List.map_map]
  conv_lhs => rw [← v.functions.map_id]
  apply List.map_congr_left
  intro f hf
  refine (FunctionType.rebuild fun t ht => ?_).symm
  exact linked_bare h.names_distinct (h.bound.functions f hf t ht)

/-- The two units have the same declarations; structs and constants may be in another order. -/
structure Reorders (u u' : CompilationUnit) : Prop where
  structs : u'.structs.Perm u.structs
  constants : u'.constants.Perm u.constants
  functions : u'.functions = u.functions

theorem Reorders.symm (h : u.Reorders u') : u'.Reorders u :=
  ⟨h.structs.symm, h.constants.symm, h.functions.symm⟩

theorem Reorders.same_structs (h : u.Reorders u') : SameStructs u'.structs u.structs :=
  h.structs.map Struct.bare

theorem Reorders.bindable (h : u.Reorders u') (hb : u.Bindable) : u'.Bindable := by
  have hnames := h.structs.map Struct.name
  have hdefined : ∀ {t : Ty}, t.DefinedIn (u.structs.map Struct.name) →
      t.DefinedIn (u'.structs.map Struct.name) :=
    fun ht r hr => hnames.mem_iff.mpr (ht r hr)
  constructor
  · exact hnames.nodup_iff.mpr hb.structs_distinct
  · exact fun s hs => hb.fields_distinct s (h.structs.mem_iff.mp hs)
  · exact fun s hs => hb.storable s (h.structs.mem_iff.mp hs)
  · exact fun s hs f hf => hdefined (hb.fields_defined s (h.structs.mem_iff.mp hs) f hf)
  · rw [h.functions]
    exact fun f hf t ht => hdefined (hb.functions_defined f hf t ht)

theorem Reorders.resolve_failure (h : u.Reorders u') (hu : u.resolve.failure = none) :
    u'.resolve.failure = none := by
  obtain ⟨hw, hm⟩ := resolve_failure_iff.mp hu
  exact resolve_failure_iff.mpr
    ⟨hw.of_same_structs h.same_structs (h.bindable hw.toBindable), hm.perm h.constants⟩

theorem Reorders.bare_structs_eq (h : u.Reorders u') (hu : u.resolve = .done v)
    (hu' : u'.resolve = .done v') : v'.structs.map Struct.bare = v.structs.map Struct.bare := by
  obtain ⟨extent, hr⟩ := resolve_spec hu
  obtain ⟨extent', hr'⟩ := resolve_spec hu'
  have hsame : SameStructs v'.structs v.structs :=
    (hr'.same.trans h.same_structs).trans hr.same.symm
  obtain ⟨weight, hw, _⟩ := hr.wellFormed.weights_fit
  have hwv : Weighting v.structs weight := (hr.same.assigns Struct.weight_from_bare).mpr hw
  have hwv' : Weighting v'.structs weight := (hsame.assigns Struct.weight_from_bare).mpr hwv
  have hsorted : ∀ {structs : List Struct},
      (structs.map Struct.name).Pairwise (Precedes weight) →
      (structs.map Struct.bare).Pairwise fun a b => Precedes weight a.name b.name := by
    intro structs ho
    rw [List.pairwise_map] at ho ⊢
    exact ho
  refine List.Perm.eq_of_pairwise ?_ (hsorted (resolve_ordered hu' hwv'))
    (hsorted (resolve_ordered hu hwv)) hsame
  intro a b _ _ hab hba
  exact absurd hba hab.asymm

theorem Reorders.names_eq (h : u.Reorders u') (hu : u.resolve = .done v)
    (hu' : u'.resolve = .done v') : v'.structs.map Struct.name = v.structs.map Struct.name := by
  have hnames := congrArg (List.map Struct.name) (h.bare_structs_eq hu hu')
  rw [List.map_map, List.map_map] at hnames
  exact hnames

theorem Reorders.structs_eq (h : u.Reorders u') (hu : u.resolve = .done v)
    (hu' : u'.resolve = .done v') : v'.structs = v.structs := by
  obtain ⟨extent, hr⟩ := resolve_spec hu
  obtain ⟨extent', hr'⟩ := resolve_spec hu'
  have hbare := h.bare_structs_eq hu hu'
  have hlayout : Layout v'.structs extent := by
    have hsame : SameStructs v'.structs v.structs := .of_eq hbare
    exact (hsame.assigns Struct.extent_from_bare).mpr hr.laid_out.layout
  rw [hr'.rebuild_structs hlayout, hr.rebuild_structs hr.laid_out.layout, hbare,
    position?_congr (h.names_eq hu hu')]

theorem Reorders.functions_eq (h : u.Reorders u') (hu : u.resolve = .done v)
    (hu' : u'.resolve = .done v') : v'.functions = v.functions := by
  obtain ⟨extent, hr⟩ := resolve_spec hu
  obtain ⟨extent', hr'⟩ := resolve_spec hu'
  have hbare : v'.functions.map FunctionType.bare = v.functions.map FunctionType.bare := by
    rw [(enriches_of_resolve hu').functions, h.functions, (enriches_of_resolve hu).functions]
  rw [hr'.rebuild_functions, hr.rebuild_functions, hbare, position?_congr (h.names_eq hu hu')]

theorem constant_value?_of_not_mem {name : String}
    (h : name ∉ u.constants.map Constant.name) : u.constantValue? name = none := by
  rw [constantValue?, Option.map_eq_none_iff, List.find?_eq_none]
  intro value _ hfound
  obtain ⟨c, hc, hname⟩ := (Option.any_eq_true _ _).mp hfound
  rw [beq_iff_eq] at hname
  exact h (hname ▸ List.mem_map_of_mem (List.mem_of_getElem? hc))

theorem Reorders.constant_value?_eq (h : u.Reorders u') (hu : u.resolve = .done v)
    (hu' : u'.resolve = .done v') (name : String) :
    v'.constantValue? name = v.constantValue? name := by
  obtain ⟨extent, hr⟩ := resolve_spec hu
  obtain ⟨extent', hr'⟩ := resolve_spec hu'
  have hperm : v'.constants.Perm v.constants := by
    rw [hr'.constants, hr.constants]
    exact h.constants
  by_cases hname : name ∈ v.constants.map Constant.name
  · obtain ⟨c, hc, rfl⟩ := List.mem_map.mp hname
    obtain ⟨values, hs, _⟩ := hr.values_to_int
    have hs' : Constant.Satisfied v'.constants values := fun d hd => hs d (hperm.mem_iff.mp hd)
    obtain ⟨x, hx, hvalue⟩ := hr.constant_value? hs hc
    obtain ⟨x', hx', hvalue'⟩ := hr'.constant_value? hs' (hperm.mem_iff.mpr hc)
    rw [hx, hx', Int64.toInt_inj.mp (hvalue'.trans hvalue.symm)]
  · have hname' : name ∉ v'.constants.map Constant.name :=
      fun hmem => hname ((hperm.map Constant.name).mem_iff.mp hmem)
    rw [constant_value?_of_not_mem hname, constant_value?_of_not_mem hname']

/-- Structs and constants can be declared in any order: a unit can be resolved in one order when it
can in another, and then its structs come out in the same order with the same bindings, offsets and
extents, its function types have the same bindings and its constants the same values. -/
theorem resolve_reordered (u : CompilationUnit) {structs : List Struct} {constants : List Constant}
    (hs : structs.Perm u.structs) (hc : constants.Perm u.constants) :
    (({ u with structs, constants } : CompilationUnit).resolve.failure = none ↔
      u.resolve.failure = none) ∧
    ∀ v v', u.resolve = .done v →
      ({ u with structs, constants } : CompilationUnit).resolve = .done v' →
      v'.structs = v.structs ∧ v'.functions = v.functions ∧
      ∀ name, v'.constantValue? name = v.constantValue? name := by
  have h : u.Reorders { u with structs, constants } := ⟨hs, hc, rfl⟩
  refine ⟨⟨h.symm.resolve_failure, h.resolve_failure⟩, fun v v' hu hu' => ?_⟩
  exact ⟨h.structs_eq hu hu', h.functions_eq hu hu', h.constant_value?_eq hu hu'⟩

def mixedSource : Source where
  name := "a"
  identity := "a"
  text := "const M=N*2 struct F\x7bZ a;B b;\x7dconst N=3 " ++
    "struct B\x7bZ[2]f;F*(Z z)*g;\x7dstruct Z\x7bu16 a;\x7d"

def mixedUnit : CompilationUnit :=
  let here : Location := ⟨"a", 1⟩
  let z : Ty := .struct ⟨here, "Z", none⟩
  { empty "a" with
    structs :=
      [⟨here, "F", [⟨here, "a", z, none⟩, ⟨here, "b", .struct ⟨here, "B", none⟩, none⟩],
          false, none⟩,
        ⟨here, "B", [⟨here, "f", .array z 2, none⟩, ⟨here, "g", .pointer (.function 0), none⟩],
          false, none⟩,
        ⟨here, "Z", [⟨here, "a", .primitive .u16, none⟩], false, none⟩]
    constants :=
      [⟨here, "M", .binary here .mul (.constant here "N") (.literal here 2), false⟩,
        ⟨here, "N", .literal here 3, false⟩]
    functions := [⟨here, .pointer (.struct ⟨here, "F", none⟩), [⟨"z", z⟩], false⟩] }

theorem resolve_reordered_backwards :
    ((Loader.ofSources MemorySources.empty.sources).load mixedSource).1 = .ok mixedUnit ∧
    ∃ v v' : CompilationUnit, mixedUnit.resolve = .done v ∧
    ({ mixedUnit with structs := mixedUnit.structs.reverse,
                      constants := mixedUnit.constants.reverse } : CompilationUnit).resolve =
      .done v' ∧
    v.structs.map (fun s => (s.name, s.extent.map Extent.size)) =
      [("Z", some 2), ("B", some 8), ("F", some 10)] ∧
    v.constantValue? "M" = some 6 ∧
    v'.structs = v.structs ∧ v'.functions = v.functions ∧
    ∀ name, v'.constantValue? name = v.constantValue? name := by
  have hload : ((Loader.ofSources MemorySources.empty.sources).load mixedSource).1.toOption =
      some mixedUnit := by decide +kernel
  have hrun : (mixedUnit.resolve.failure == none &&
      mixedUnit.resolve.state.structs.map (fun s => (s.name, s.extent.map Extent.size)) ==
        [("Z", some 2), ("B", some 8), ("F", some 10)] &&
      mixedUnit.resolve.state.constantValue? "M" == some 6) = true := by cbv
  simp only [Bool.and_eq_true, beq_iff_eq] at hrun
  obtain ⟨⟨hdone, hsizes⟩, hvalue⟩ := hrun
  obtain ⟨hiff, hsame⟩ := resolve_reordered mixedUnit (List.reverse_perm mixedUnit.structs)
    (List.reverse_perm mixedUnit.constants)
  have hstate := Progress.eq_done hdone
  have hstate' := Progress.eq_done (hiff.mpr hdone)
  exact ⟨except_to_option_eq_some.mp hload, _, _, hstate, hstate', hsizes, hvalue,
    hsame _ _ hstate hstate'⟩

end CompilationUnit

end DataLayout
