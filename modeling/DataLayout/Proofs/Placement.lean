import DataLayout.Proofs.Placing

/-!
# Contained structs are placed first

The placement order lists every struct once and after the structs it contains, so every struct
finds its parts placed. All structs get their reference layout, unless that of one of them does
not fit in words, and then one of those is reported.
-/

set_option autoImplicit false

namespace DataLayout

theorem Struct.mem_parts {s : Struct} {j : Nat} : j ∈ s.parts ↔
    ∃ f ∈ s.fields, ∃ r, f.ty.embedded = some r ∧ r.target = some j := by
  simp [parts, List.mem_filterMap, Option.bind_eq_some_iff]

def partsAt (structs : List Struct) (i : Nat) : List Nat :=
  ((structs[i]?).map Struct.parts).getD []

/-- Positions of structs without repetition, each after those of the parts of its struct. -/
inductive PartsFirst (structs : List Struct) : List Nat → Prop
  | nil : PartsFirst structs []
  | snoc {order : List Nat} {i : Nat} {s : Struct} (ho : PartsFirst structs order)
      (hi : structs[i]? = some s) (hm : i ∉ order) (hp : ∀ j ∈ s.parts, j ∈ order) :
      PartsFirst structs (order ++ [i])

/-- A walk that is inside the structs at `entered` goes on from `visited` to `next` and has then
been at the targets. It does not come to a struct that it is inside of. -/
structure Visits (structs : List Struct) (entered visited targets next : List Nat) : Prop where
  order : PartsFirst structs next
  subset : visited ⊆ next
  avoids : ∀ j ∈ entered, j ∉ visited → j ∉ next
  reaches : targets ⊆ next

namespace Visits

variable {structs : List Struct} {entered visited targets : List Nat}

theorem foldl {step : List Nat → Nat → List Nat}
    (hstep : ∀ j ∈ targets, ∀ visited, PartsFirst structs visited →
      Visits structs entered visited [j] (step visited j))
    (ho : PartsFirst structs visited) :
    Visits structs entered visited targets (targets.foldl step visited) := by
  induction targets generalizing visited with
  | nil => exact ⟨ho, List.Subset.refl _, fun _ _ h => h, List.nil_subset _⟩
  | cons j targets ih =>
    obtain ⟨hj, hrest⟩ := List.forall_mem_cons.mp hstep
    have hfirst := hj visited ho
    have hlast := ih hrest hfirst.order
    refine ⟨hlast.order, List.Subset.trans hfirst.subset hlast.subset, ?_, ?_⟩
    · exact fun k hk hv => hlast.avoids k hk (hfirst.avoids k hk hv)
    · exact List.cons_subset.mpr
        ⟨hlast.subset (hfirst.reaches (List.mem_singleton_self j)), hlast.reaches⟩

theorem postorder (hb : PartsBound structs) (ha : Dependency.Acyclic (Contains structs))
    {depth i : Nat} {s : Struct} (hi : structs[i]? = some s)
    (hu : Dependency.Underway (Contains structs) (structs.map Struct.name) depth entered [s.name])
    (ho : PartsFirst structs visited) :
    Visits structs entered visited [i] (postorder (partsAt structs) depth visited i) := by
  induction depth generalizing i s entered visited with
  | zero =>
    -- all structs are entered, and `i` would be one more
    have hm := hu.not_mem ha (Struct.get_elem?_name hi) (List.mem_singleton_self _)
    exact absurd (hu.depth_pos (Struct.get_elem?_name hi) hm) (Nat.lt_irrefl 0)
  | succ depth ih =>
    have hm := hu.not_mem ha (Struct.get_elem?_name hi) (List.mem_singleton_self _)
    rw [DataLayout.postorder]
    split_ifs with hv
    · exact ⟨ho, List.Subset.refl _, fun _ _ h => h, by simpa using hv⟩
    · have hparts : partsAt structs i = s.parts := by rw [partsAt, hi]; rfl
      -- the parts are visited from inside `i`, so `i` is not appended on the way
      have hfold : Visits structs (i :: entered) visited (partsAt structs i)
          ((partsAt structs i).foldl (DataLayout.postorder (partsAt structs) depth) visited) := by
        refine foldl (fun j hj visited' ho' => ?_) ho
        rw [hparts, Struct.mem_parts] at hj
        obtain ⟨f, hf, r, hr, hj⟩ := hj
        obtain ⟨j', t, hj', ht, _, hc⟩ := hb.exists_part (List.mem_of_getElem? hi) hf hr
        cases hj.symm.trans hj'
        have hu' := hu.enter (Struct.get_elem?_name hi) (List.mem_singleton_self _) hm
          (List.forall_mem_singleton.mpr hc)
        exact ih ht hu' ho'
      refine ⟨.snoc hfold.order hi (hfold.avoids i List.mem_cons_self hv) ?_, ?_, ?_, ?_⟩
      · exact hparts ▸ fun j hj => hfold.reaches hj
      · exact List.Subset.trans hfold.subset (List.subset_append_left _ _)
      · intro j hj hjv hjn
        rcases List.mem_append.mp hjn with hjn | hjn
        · exact hfold.avoids j (List.mem_cons_of_mem i hj) hjv hjn
        · exact hm (List.mem_singleton.mp hjn ▸ hj)
      · exact List.subset_append_right _ _

end Visits

theorem StructRef.BoundIn.laid_out {structs : List Struct} {r : StructRef}
    (h : r.BoundIn structs) (extent : String → Extent) :
    r.BoundIn (structs.map (Struct.laidOut extent)) := by
  obtain ⟨i, s, hi, hs, hn⟩ := h
  exact ⟨i, s.laidOut extent, hi, by rw [List.getElem?_map, hs, Option.map_some], hn⟩

namespace CompilationUnit

variable {u : CompilationUnit}

theorem placement_order_visits (hb : PartsBound u.structs)
    (ha : Dependency.Acyclic (Contains u.structs)) :
    Visits u.structs [] [] (List.range u.structs.length) u.placementOrder := by
  refine Visits.foldl (fun i hi visited ho => ?_) .nil
  have hlt := List.mem_range.mp hi
  have hu := Dependency.Underway.nothing_entered (Contains u.structs)
    (u.structs.map Struct.name) [u.structs[i].name]
  rw [List.length_map] at hu
  exact Visits.postorder hb ha (List.getElem?_eq_getElem hlt) hu ho

theorem place_at_append (order order' : List Nat) (u : CompilationUnit) :
    placeAt (order ++ order') u = (placeAt order u).andThen (placeAt order') := by
  induction order generalizing u with
  | nil => rfl
  | cons i order ih =>
    simp only [List.cons_append, placeAt]
    split
    · exact ih u
    · split
      · rfl
      · exact ih _

def laidOutAt (extent : String → Extent) (order : List Nat) (structs : List Struct) :
    List Struct :=
  structs.mapIdx fun i s => if i ∈ order then s.laidOut extent else s

theorem get_elem?_laid_out_at (extent : String → Extent) (order : List Nat) (structs : List Struct)
    (i : Nat) : (laidOutAt extent order structs)[i]? =
      (structs[i]?).map fun s => if i ∈ order then s.laidOut extent else s := by
  rw [laidOutAt, List.getElem?_mapIdx]

theorem laid_out_at_nil (extent : String → Extent) (structs : List Struct) :
    laidOutAt extent [] structs = structs := by
  apply List.ext_getElem?
  intro i
  simp [get_elem?_laid_out_at]

theorem set_laid_out_at {extent : String → Extent} {order : List Nat} {structs : List Struct}
    {i : Nat} {s : Struct} (hi : structs[i]? = some s) :
    (laidOutAt extent order structs).set i (s.laidOut extent) =
      laidOutAt extent (order ++ [i]) structs := by
  have hlt := (List.getElem?_eq_some_iff.mp hi).1
  apply List.ext_getElem?
  intro k
  rw [List.getElem?_set]
  split_ifs with hk hlen
  · rw [get_elem?_laid_out_at, ← hk, hi]
    simp
  · exact absurd (by simpa [laidOutAt, hk] using hlt) hlen
  · rw [get_elem?_laid_out_at, get_elem?_laid_out_at]
    simp [Ne.symm hk]

theorem laid_out_at_all {extent : String → Extent} {order : List Nat} {structs : List Struct}
    (h : ∀ i < structs.length, i ∈ order) :
    laidOutAt extent order structs = structs.map (Struct.laidOut extent) := by
  apply List.ext_getElem?
  intro i
  rw [get_elem?_laid_out_at, List.getElem?_map]
  cases hi : structs[i]? with
  | none => rfl
  | some s => simp [h i (List.getElem?_eq_some_iff.mp hi).1]

structure Placeable (extent : String → Extent) (structs : List Struct) : Prop where
  bound : PartsBound structs
  storable : ∀ s ∈ structs, ∀ f ∈ s.fields, f.ty.Storable
  acyclic : Dependency.Acyclic (Contains structs)
  layout : Layout structs extent

variable {extent : String → Extent}

theorem Placeable.field_regular {structs : List Struct} (h : Placeable extent structs)
    {s : Struct} (hs : s ∈ structs) : ∀ f ∈ s.fields, (f.ty.extentIn extent).Regular := by
  have hp := h.bound.defined
  have hw := contains_well_founded hp h.acyclic
  exact hp.field_regular hs fun t ht _ => h.layout.regular hw hp t ht

theorem Placeable.ready (h : Placeable extent u.structs) {order : List Nat} {i : Nat}
    {s : Struct} (hi : u.structs[i]? = some s) (hp : ∀ j ∈ s.parts, j ∈ order) :
    let v : CompilationUnit := { u with structs := laidOutAt extent order u.structs }
    ∀ f ∈ s.fields, f.Ready v.extent? extent := by
  have hs := List.mem_of_getElem? hi
  intro v f hf
  refine ⟨fun r hr => ?_, h.storable s hs f hf, h.field_regular hs f hf⟩
  obtain ⟨j, t, hj, ht, hn, _⟩ := h.bound.exists_part hs hf hr
  have hjo : j ∈ order := hp j (Struct.mem_parts.mpr ⟨f, hf, r, hr, hj⟩)
  simp [v, hj, extent?, laidOutAt, ht, hjo, Struct.laidOut, ← hn,
    h.layout t (List.mem_of_getElem? ht)]

def BlamesSize (extent : String → Extent) (structs : List Struct) (e : ResolveFailure) : Prop :=
  ∃ s ∈ structs, e = ⟨s.location, .sizeOverflow s.name⟩ ∧ ¬ s.ExtentFits extent

theorem place_at_spec (h : Placeable extent u.structs) {order : List Nat}
    (ho : PartsFirst u.structs order) :
    match (placeAt order u).failure with
    | some e => BlamesSize extent u.structs e
    | none => (placeAt order u).state = { u with structs := laidOutAt extent order u.structs } ∧
      ∀ i ∈ order, ∀ s, u.structs[i]? = some s → s.ExtentFits extent := by
  induction ho with
  | nil => exact ⟨by rw [laid_out_at_nil]; rfl, by simp⟩
  | @snoc order i s ho hi hm hp ih =>
    rw [place_at_append]
    cases hf : (placeAt order u).failure with
    | some e =>
      rw [hf] at ih
      rw [Progress.andThen, hf]
      simpa only [hf] using ih
    | none =>
      rw [hf] at ih
      obtain ⟨hstate, hfits⟩ := ih
      have hi' : (laidOutAt extent order u.structs)[i]? = some s := by
        rw [get_elem?_laid_out_at, hi, Option.map_some, if_neg hm]
      have hplace := Struct.place_eq_some (h.ready hi hp)
      rw [Progress.and_then_of_failure_eq_none hf, hstate]
      simp only [placeAt, hi']
      generalize hres : Struct.place _ s = result
      cases result with
      | none => exact ⟨s, List.mem_of_getElem? hi, rfl, not_of_eq_none hplace hres⟩
      | some s' =>
        obtain ⟨hfit, rfl⟩ := (hplace s').mp hres
        refine ⟨?_, fun j hj t ht => ?_⟩
        · rw [Progress.done_state, set_laid_out_at hi]
        · rcases List.mem_append.mp hj with hj | hj
          · exact hfits j hj t ht
          · cases List.mem_singleton.mp hj
            cases hi.symm.trans ht
            exact hfit

theorem place_spec (h : Placeable extent u.structs) :
    match u.place.failure with
    | some e => BlamesSize extent u.structs e
    | none => u.place.state = { u with structs := u.structs.map (Struct.laidOut extent) } ∧
      ∀ s ∈ u.structs, s.ExtentFits extent := by
  have hv := placement_order_visits h.bound h.acyclic
  have hall : ∀ i < u.structs.length, i ∈ u.placementOrder :=
    fun i hi => hv.reaches (List.mem_range.mpr hi)
  have hspec := place_at_spec h hv.order
  rw [place]
  split at hspec
  · exact hspec
  · rw [laid_out_at_all hall] at hspec
    refine ⟨hspec.1, fun s hs => ?_⟩
    obtain ⟨i, hi⟩ := List.mem_iff_getElem?.mp hs
    exact hspec.2 i (hall i (List.getElem?_eq_some_iff.mp hi).1) s hi

theorem place_failure (h : Placeable extent u.structs) :
    u.place.failure = none ↔ ∀ s ∈ u.structs, s.ExtentFits extent := by
  have hspec := place_spec h
  split at hspec
  · next e he =>
    obtain ⟨s, hs, _, hn⟩ := hspec
    simp only [he, reduceCtorEq, false_iff]
    exact fun hfit => hn (hfit s hs)
  · next he => exact ⟨fun _ => hspec.2, fun _ => he⟩

theorem place_state (h : Placeable extent u.structs) (hf : u.place.failure = none) :
    u.place.state = { u with structs := u.structs.map (Struct.laidOut extent) } := by
  have hspec := place_spec h
  rw [hf] at hspec
  exact hspec.1

theorem Bound.laid_out (h : u.Bound) :
    ({ u with structs := u.structs.map (Struct.laidOut extent) } : CompilationUnit).Bound := by
  constructor
  · intro s hs f hf r hr
    obtain ⟨s, hs', rfl⟩ := List.mem_map.mp hs
    have hty := List.mem_map_of_mem (f := Field.ty) hf
    rw [Struct.map_ty_laid_out] at hty
    obtain ⟨f', hf', hft⟩ := List.mem_map.mp hty
    exact (h.fields s hs' f' hf' r (hft ▸ hr)).laid_out extent
  · exact fun f hf t ht r hr => (h.functions f hf t ht r hr).laid_out extent

end CompilationUnit

end DataLayout
