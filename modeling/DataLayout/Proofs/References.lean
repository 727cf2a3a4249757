import DataLayout.Proofs.Flattening

/-!
# References point at what they name

A reference is a name and, once it is bound, a position in a list that resolution reorders. Every
pass, whether it goes through or stops halfway, leaves each bound reference on a struct of its
name. So this holds of a unit at any time, and a unit that is marked as resolved has all of its
references bound, all of its structs laid out and one value for each constant.
-/

set_option autoImplicit false

namespace DataLayout

def StructRef.PointsIn (structs : List Struct) (r : StructRef) : Prop :=
  ∀ i, r.target = some i → ∃ s, structs[i]? = some s ∧ s.name = r.name

def Ty.PointsIn (structs : List Struct) (t : Ty) : Prop :=
  ∀ r, t.ref? = some r → r.PointsIn structs

section Pointing

variable {structs structs' : List Struct} {position : String → Option Nat}

theorem StructRef.PointsIn.congr {r : StructRef} (h : r.PointsIn structs)
    (hn : structs'.map Struct.name = structs.map Struct.name) : r.PointsIn structs' := by
  intro i hi
  obtain ⟨s, hs, hname⟩ := h i hi
  have hname' := Struct.get_elem?_name hs
  rw [← hn, List.getElem?_map, Option.map_eq_some_iff] at hname'
  obtain ⟨s', hs', hsame⟩ := hname'
  exact ⟨s', hs', hsame.trans hname⟩

theorem StructRef.BoundIn.points_in {r : StructRef} (h : r.BoundIn structs) :
    r.PointsIn structs := by
  obtain ⟨i, s, hi, hs, hn⟩ := h
  intro j hj
  rw [hi, Option.some.injEq] at hj
  exact ⟨s, hj ▸ hs, hn⟩

def Locates (structs : List Struct) (position : String → Option Nat) : Prop :=
  ∀ name i, position name = some i → ∃ s, structs[i]? = some s ∧ s.name = name

theorem Ty.points_in_linked (hp : Locates structs position) (t : Ty) :
    (t.linked position).PointsIn structs := by
  intro r hr i hi
  rw [linked, ref?_map_ref, Option.map_eq_some_iff] at hr
  obtain ⟨r', _, rfl⟩ := hr
  exact hp r'.name i hi

theorem Ty.points_in_of_bind_ref (hp : Locates structs position) {t t' : Ty}
    (h : t.bindRef position = .ok t') : t'.PointsIn structs := by
  obtain ⟨_, rfl⟩ := bind_ref_eq_ok.mp h
  exact t.points_in_linked hp

theorem Progress.list_forall {α : Type} {f : α → Progress α} {P : α → Prop}
    (hf : ∀ a, P a → P (f a).state) {as : List α} (h : ∀ a ∈ as, P a) :
    ∀ a ∈ (list f as).state, P a := by
  induction as with
  | nil => exact h
  | cons a as ih =>
    obtain ⟨ha, has⟩ := List.forall_mem_cons.mp h
    have hstep := hf a ha
    rw [list]
    split
    · next b e hb =>
      rw [hb] at hstep
      exact List.forall_mem_cons.mpr ⟨hstep, has⟩
    · next b hb =>
      rw [hb] at hstep
      exact List.forall_mem_cons.mpr ⟨hstep, ih has⟩

theorem Field.bind_all_points_in (hp : Locates structs position) {fs : List Field}
    {seen : List String} (h : ∀ f ∈ fs, f.ty.PointsIn structs) :
    ∀ f ∈ (bindAll position fs seen).state, f.ty.PointsIn structs := by
  induction fs generalizing seen with
  | nil => exact h
  | cons f fs ih =>
    rw [bindAll]
    split
    · exact h
    · next f' hf =>
      obtain ⟨_, _, rfl⟩ := bind_ref_eq_ok.mp hf
      exact List.forall_mem_cons.mpr
        ⟨f.ty.points_in_linked hp, ih (List.forall_mem_cons.mp h).2⟩

theorem Parameter.bind_ref_points_in (hp : Locates structs position) {p : Parameter}
    (h : p.ty.PointsIn structs) : (p.bindRef position).state.ty.PointsIn structs := by
  rw [bindRef]
  cases ht : p.ty.bindRef position with
  | error e => exact h
  | ok t => exact Ty.points_in_of_bind_ref hp ht

theorem FunctionType.bind_refs_points_in (hp : Locates structs position) {f : FunctionType}
    (h : ∀ t ∈ f.types, t.PointsIn structs) :
    ∀ t ∈ (f.bindRefs position).state.types, t.PointsIn structs := by
  obtain ⟨hreturns, hparams⟩ := List.forall_mem_cons.mp h
  rw [bindRefs]
  cases ht : f.returns.bindRef position with
  | error e => exact h
  | ok t =>
    refine List.forall_mem_cons.mpr ⟨Ty.points_in_of_bind_ref hp ht, ?_⟩
    rw [List.forall_mem_map] at hparams ⊢
    exact Progress.list_forall (fun p => Parameter.bind_ref_points_in hp) hparams

end Pointing

namespace CompilationUnit

variable {u v : CompilationUnit}

/-- The types of a unit: those of the fields of its structs, and those that its function types
return and take. -/
def types (u : CompilationUnit) : List Ty :=
  u.structs.flatMap (·.fields.map Field.ty) ++ u.functions.flatMap FunctionType.types

def refs (u : CompilationUnit) : List StructRef := u.types.filterMap Ty.ref?

theorem forall_mem_types {P : Ty → Prop} : (∀ t ∈ u.types, P t) ↔
    (∀ s ∈ u.structs, ∀ f ∈ s.fields, P f.ty) ∧ ∀ f ∈ u.functions, ∀ t ∈ f.types, P t := by
  simp only [types, List.forall_mem_append, List.forall_mem_flatMap, List.forall_mem_map]

theorem forall_mem_refs {P : StructRef → Prop} :
    (∀ r ∈ u.refs, P r) ↔ ∀ t ∈ u.types, ∀ r, t.ref? = some r → P r := by
  simp only [refs, List.mem_filterMap]
  constructor
  · exact fun h t ht r hr => h r ⟨t, ht, hr⟩
  · rintro h r ⟨t, ht, hr⟩
    exact h t ht r hr

theorem bound_iff : u.Bound ↔ ∀ r ∈ u.refs, r.BoundIn u.structs := by
  rw [forall_mem_refs, forall_mem_types]
  exact ⟨fun h => ⟨h.fields, h.functions⟩, fun h => ⟨h.1, h.2⟩⟩

def RefsPoint (u : CompilationUnit) : Prop := ∀ r ∈ u.refs, r.PointsIn u.structs

theorem Bound.refs_point (h : u.Bound) : u.RefsPoint :=
  fun r hr => (bound_iff.mp h r hr).points_in

theorem locates_position? (u : CompilationUnit) : Locates u.structs u.position? :=
  fun _ _ => get_elem?_of_position?

theorem bind_refs_refs_point (h : u.RefsPoint) : u.bindRefs.state.RefsPoint := by
  have hp := u.locates_position?
  obtain ⟨hs, hf⟩ := forall_mem_types.mp (forall_mem_refs.mp h)
  have hfields : ∀ s ∈ (u.bindFields u.position?).state.structs, ∀ f ∈ s.fields,
      f.ty.PointsIn u.structs :=
    Progress.list_forall (fun s hs => Field.bind_all_points_in hp hs) hs
  have hfunctions : ∀ f ∈ (u.bindFunctions u.position?).state.functions, ∀ t ∈ f.types,
      t.PointsIn u.structs :=
    Progress.list_forall (fun f hf => FunctionType.bind_refs_points_in hp hf) hf
  have hstate : ∀ t ∈ u.bindRefs.state.types, t.PointsIn u.structs := by
    by_cases hd : (u.structs.map Struct.name).Nodup
    · rw [bind_refs_eq hd]
      by_cases hfail : (u.bindFields u.position?).failure = none
      · rw [Progress.and_then_of_failure_eq_none hfail]
        exact forall_mem_types.mpr ⟨hfields, hfunctions⟩
      · rw [Progress.and_then_of_failure hfail]
        exact forall_mem_types.mpr ⟨hfields, hf⟩
    · rw [bind_refs_of_repeat hd]
      exact forall_mem_refs.mp h
  refine forall_mem_refs.mpr fun t ht r hr => ?_
  exact (hstate t ht r hr).congr u.bind_refs_names

theorem resolve_bound_or (u : CompilationUnit) :
    u.resolve.state = u.bindRefs.state ∨ u.resolve.state.Bound := by
  rw [resolve_eq]
  by_cases hb : u.bindRefs.failure = none
  · rw [Progress.and_then_of_failure_eq_none hb, orderAndFinish]
    by_cases ho : u.bindRefs.state.order.failure = none
    · right
      have hbo : (u.bindRefs.andThen order).failure = none := Progress.and_then_failure.mpr ⟨hb, ho⟩
      obtain ⟨extent, hplaceable⟩ := exists_placeable hbo
      have hbound := (bind_refs_order_arranges hbo).bound
      rw [Progress.and_then_of_failure_eq_none hb] at hplaceable hbound
      rw [Progress.and_then_of_failure_eq_none ho]
      exact (place_and_finish_again hplaceable).1.bound hbound
    · left
      rw [Progress.and_then_of_failure ho, order_of_failure ho]
  · left
    rw [Progress.and_then_of_failure hb]

theorem resolve_refs_point (h : u.RefsPoint) : u.resolve.state.RefsPoint := by
  rcases u.resolve_bound_or with hstate | hbound
  · rw [hstate]
    exact bind_refs_refs_point h
  · exact hbound.refs_point

theorem ResolvedAs.value_positions {extent : String → Extent} (h : u.ResolvedAs extent v) :
    v.values.map Prod.fst = List.range v.constants.length := by
  obtain ⟨values, _, hall⟩ := h.values_to_int
  have hpositions := congrArg (List.map Prod.fst) hall
  rw [List.map_map, List.map_map] at hpositions
  calc
    v.values.map Prod.fst = v.constants.zipIdx.map Prod.snd := hpositions
    _ = List.range v.constants.length := by rw [List.zipIdx_map_snd, List.range_eq_range']

end CompilationUnit

theorem Ty.Means.points_in {fns : List FunctionType} {t : Ty} {w : WrittenType}
    (h : t.Means fns w) (structs : List Struct) : t.PointsIn structs := by
  intro r hr i hi
  induction t generalizing w with
  | pointer t ih =>
    cases h with
    | pointer h => exact ih h hr
  | array t n ih =>
    cases h with
    | array h => exact ih h hr
  | struct r' =>
    cases h
    cases hr
    cases hi
  | primitive | void | function => cases hr

theorem forall_mem_of_forall₂ {α β : Type} {R : α → β → Prop} {P : α → Prop} {as : List α}
    {bs : List β} (h : List.Forall₂ R as bs) (hP : ∀ a b, R a b → P a) : ∀ a ∈ as, P a :=
  ((List.forall₂_and_left as bs).mp (h.imp fun a b hab => ⟨hP a b hab, hab⟩)).1

theorem Parameter.Mean.points_in {fns : List FunctionType} {ps : List Parameter}
    {params : List (String × WrittenType)} (h : Parameter.Mean fns ps params)
    (structs : List Struct) : ∀ p ∈ ps, p.ty.PointsIn structs := by
  induction ps generalizing params with
  | nil => simp
  | cons p ps ih =>
    cases h with
    | cons hp hps => exact List.forall_mem_cons.mpr ⟨hp.points_in structs, ih hps⟩

theorem FunctionType.Means.points_in {fns : List FunctionType} {f : FunctionType} {w : WrittenType}
    (h : f.Means fns w) (structs : List Struct) : ∀ t ∈ f.types, t.PointsIn structs := by
  cases h with
  | mk hr hp =>
    exact List.forall_mem_cons.mpr
      ⟨hr.points_in structs, List.forall_mem_map.mpr (hp.points_in structs)⟩

theorem CompilationUnit.Holds.refs_point {u : CompilationUnit} {items : List Item}
    (h : u.Holds items) : u.RefsPoint := by
  refine forall_mem_refs.mpr (forall_mem_types.mpr ⟨?_, ?_⟩)
  · refine forall_mem_of_forall₂ h.structs fun s x hs => ?_
    cases hs with
    | mk _ _ hf => exact forall_mem_of_forall₂ hf fun f m hm => hm.type.points_in u.structs
  · exact forall_mem_of_forall₂ h.functions fun f x hf => hf.means.points_in u.structs

namespace Obtained

variable {sources : Sources} {u : CompilationUnit}

theorem refs_point (h : Obtained sources u) : u.RefsPoint := by
  induction h with
  | empty filename => exact List.forall_mem_nil _
  | loaded h =>
    obtain ⟨ds, items, hds, hitems⟩ := Loader.load_to_exists_flattens h
    exact (Loader.load_to_holds h ds items hds hitems).1.refs_point
  | resolved _ ih => exact CompilationUnit.resolve_refs_point ih

/-- At any time every bound reference holds the position of a struct of its name. In a unit that is
marked as resolved all references are bound, all structs are laid out and the constants have one
value each, in order. -/
theorem references_right (h : Obtained sources u) :
    (∀ r ∈ u.refs, ∀ i, r.target = some i → ∃ s, u.structs[i]? = some s ∧ s.name = r.name) ∧
    (u.resolved = true →
      (∀ r ∈ u.refs, r.target.isSome) ∧
      (∀ s ∈ u.structs, s.extent.isSome ∧ ∀ f ∈ s.fields, f.offset.isSome) ∧
      u.values.map Prod.fst = List.range u.constants.length) := by
  refine ⟨h.refs_point, fun hr => ?_⟩
  obtain ⟨u₀, extent, hres⟩ := h.resolved_as hr
  refine ⟨fun r hmem => ?_, fun s hs => ⟨?_, (hres.placed s hs).offset_is_some⟩,
    hres.value_positions⟩
  · obtain ⟨i, _, hi, _⟩ := CompilationUnit.bound_iff.mp hres.bound r hmem
    exact Option.isSome_iff_exists.mpr ⟨i, hi⟩
  · exact Option.isSome_iff_exists.mpr ⟨_, (hres.placed s hs).extent⟩

def halfwaySource : Source where
  name := "a"
  identity := "a"
  text := "struct A\x7bC[2]c;B*(C x)*f;D d;\x7dstruct B\x7bu8 x;\x7dstruct C\x7bB*b;\x7d"

/-- A file with its structs in the opposite order to the one they are laid out in. -/
def movedSource : Source where
  name := "a"
  identity := "a"
  text := "const N=2 struct A\x7bC[2]c;B*(C x)*f;\x7dstruct C\x7bB*b;B d;\x7dstruct B\x7bu8 x;\x7d"

def movedUnit : CompilationUnit :=
  let here : Location := ⟨"a", 1⟩
  let b : Ty := .struct ⟨here, "B", none⟩
  let c : Ty := .struct ⟨here, "C", none⟩
  { CompilationUnit.empty "a" with
    structs :=
      [⟨here, "A", [⟨here, "c", .array c 2, none⟩, ⟨here, "f", .pointer (.function 0), none⟩],
          false, none⟩,
        ⟨here, "C", [⟨here, "b", .pointer b, none⟩, ⟨here, "d", b, none⟩], false, none⟩,
        ⟨here, "B", [⟨here, "x", .primitive .u8, none⟩], false, none⟩]
    constants := [⟨here, "N", .literal here 2, false⟩]
    functions := [⟨here, .pointer b, [⟨"x", c⟩], false⟩] }

theorem obtained_moved_unit : Obtained MemorySources.empty.sources movedUnit := by
  have hload : ((Loader.ofSources MemorySources.empty.sources).load movedSource).1.toOption =
      some movedUnit := by decide +kernel
  exact .loaded (except_to_option_eq_some.mp hload)

/-- Resolving the first file stops inside a struct, with a reference bound before it and others not
reached. Resolving the second one moves structs, and references move with them. -/
theorem references_right_halfway :
    (∃ u, Obtained MemorySources.empty.sources u ∧ u.resolved = false ∧
      u.refs.map (fun r => (r.name, r.target)) =
        [("C", some 2), ("D", none), ("B", none), ("B", none), ("C", none)] ∧
      ∀ r ∈ u.refs, ∀ i, r.target = some i → ∃ s, u.structs[i]? = some s ∧ s.name = r.name) ∧
    ∃ u, Obtained MemorySources.empty.sources u ∧ u.resolved = true ∧
      u.structs.map Struct.name = ["B", "C", "A"] ∧
      u.refs.map (fun r => (r.name, r.target)) =
        [("B", some 0), ("B", some 0), ("C", some 1), ("B", some 0), ("C", some 1)] ∧
      (∀ r ∈ u.refs, r.target.isSome) ∧ u.values.map Prod.fst = List.range u.constants.length := by
  have hhalfway : (((Loader.ofSources MemorySources.empty.sources).load
      halfwaySource).1.toOption.any fun u => !u.resolve.state.resolved &&
        u.resolve.state.refs.map (fun r => (r.name, r.target)) ==
          [("C", some 2), ("D", none), ("B", none), ("B", none), ("C", none)]) = true := by
    decide +kernel
  obtain ⟨u, hu, hcheck⟩ := (Option.any_eq_true _ _).mp hhalfway
  simp only [Bool.and_eq_true, Bool.not_eq_true', beq_iff_eq] at hcheck
  have hleft : Obtained MemorySources.empty.sources u.resolve.state :=
    .resolved (.loaded (except_to_option_eq_some.mp hu))
  have hmoved : (movedUnit.resolve.state.resolved &&
      movedUnit.resolve.state.structs.map Struct.name == ["B", "C", "A"] &&
      movedUnit.resolve.state.refs.map (fun r => (r.name, r.target)) ==
        [("B", some 0), ("B", some 0), ("C", some 1), ("B", some 0), ("C", some 1)]) = true := by
    cbv
  simp only [Bool.and_eq_true, beq_iff_eq] at hmoved
  obtain ⟨⟨hr, hnames⟩, hrefs⟩ := hmoved
  have hdone := obtained_moved_unit.resolved
  obtain ⟨hbound, _, hvalues⟩ := hdone.references_right.2 hr
  exact ⟨⟨_, hleft, hcheck.1, hcheck.2, hleft.references_right.1⟩,
    _, hdone, hr, hnames, hrefs, hbound, hvalues⟩

end Obtained

end DataLayout
