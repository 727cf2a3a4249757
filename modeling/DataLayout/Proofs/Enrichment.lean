import DataLayout.Proofs.Idempotence
import DataLayout.Proofs.Numbering

/-!
# Resolution only adds

Whatever comes of resolving a unit, the declarations are there as they were written: structs in
some order, function types and constants in theirs. A unit that cannot be resolved is not marked
as resolved and has the values it had.
-/

set_option autoImplicit false

namespace DataLayout

def FunctionType.bare (f : FunctionType) : FunctionType := f.mapTy Ty.bare

theorem FunctionType.bare_map_ty {g : StructRef → StructRef} (hg : ∀ r, (g r).unbound = r.unbound)
    (f : FunctionType) : (f.mapTy (Ty.mapRef g)).bare = f.bare := by
  simp [bare, mapTy, Parameter.mapTy, Function.comp_def, Ty.bare_map_ref hg]

theorem FunctionType.included_of_bare {f f' : FunctionType} (h : f'.bare = f.bare) :
    f'.included = f.included := by
  have hflag := congrArg FunctionType.included h
  exact hflag

theorem Struct.included_of_bare {s s' : Struct} (h : s'.bare = s.bare) :
    s'.included = s.included := by
  have hflag := congrArg Struct.included h
  exact hflag

theorem Ty.MentionsIn.congr {fns fns' : List FunctionType} {included : Bool} {t t' : Ty}
    (h : t.MentionsIn fns included) (ht : t'.bare = t.bare)
    (hf : fns'.map FunctionType.bare = fns.map FunctionType.bare) :
    t'.MentionsIn fns' included := by
  intro id hid
  have hid' : t.function? = some id := by
    rw [← hid, ← function?_map_ref StructRef.unbound t, ← function?_map_ref StructRef.unbound t']
    exact congrArg function? ht.symm
  obtain ⟨f, hget, hi⟩ := h id hid'
  have hbare := congrArg (·[id]?) hf
  simp only [List.getElem?_map, hget, Option.map_some, Option.map_eq_some_iff] at hbare
  obtain ⟨f', hget', hb⟩ := hbare
  exact ⟨f', hget', (FunctionType.included_of_bare hb).trans hi⟩

theorem FunctionType.exists_mem_types {f f' : FunctionType} (h : f'.bare = f.bare) {t' : Ty}
    (ht : t' ∈ f'.types) : ∃ t ∈ f.types, t'.bare = t.bare := by
  have hmem : t'.bare ∈ f.bare.types := by
    rw [← h, bare, types_map_ty]
    exact List.mem_map_of_mem ht
  rw [bare, types_map_ty] at hmem
  obtain ⟨t, ht, hb⟩ := List.mem_map.mp hmem
  exact ⟨t, ht, hb.symm⟩

theorem WellNumbered.of_bare {fns fns' : List FunctionType} (h : WellNumbered fns)
    (hb : fns'.map FunctionType.bare = fns.map FunctionType.bare) : WellNumbered fns' := by
  induction h generalizing fns' with
  | nil =>
    rw [List.map_eq_nil_iff.mp hb]
    exact .nil
  | @snoc fns f _ hf ih =>
    rw [List.map_append] at hb
    obtain ⟨init, last, rfl, hinit, hlast⟩ := List.map_eq_append_iff.mp hb
    obtain ⟨f', rfl, hf'⟩ := List.map_eq_singleton_iff.mp hlast
    refine .snoc (ih hinit) fun t' ht' => ?_
    obtain ⟨t, ht, htb⟩ := FunctionType.exists_mem_types hf' ht'
    rw [FunctionType.included_of_bare hf']
    exact (hf t ht).congr htb hinit

section Binding

variable {position : String → Option Nat}

theorem Ty.bare_of_bind_ref {t t' : Ty} (h : t.bindRef position = .ok t') : t'.bare = t.bare := by
  obtain ⟨_, rfl⟩ := bind_ref_eq_ok.mp h
  exact bare_map_ref (f := StructRef.bindTo position) (fun _ => rfl) t

theorem Field.bind_all_bare (fs : List Field) (seen : List String) :
    (bindAll position fs seen).state.map Field.bare = fs.map Field.bare := by
  induction fs generalizing seen with
  | nil => rfl
  | cons f fs ih =>
    cases h : f.bindRef position seen with
    | error e => simp only [bindAll, h, Progress.stopped]
    | ok f' =>
      obtain ⟨_, _, rfl⟩ := bind_ref_eq_ok.mp h
      have hty := Ty.bare_map_ref (f := StructRef.bindTo position) (fun _ => rfl) f.ty
      simp only [bindAll, h, Progress.map_state, List.map_cons, ih, bare, mapTy, Ty.linked, hty]

theorem Struct.bind_refs_bare (s : Struct) : (s.bindRefs position).state.bare = s.bare := by
  simp only [bindRefs, Progress.map_state, bare, Field.bind_all_bare]

theorem Parameter.bind_ref_bare (p : Parameter) :
    (p.bindRef position).state.mapTy Ty.bare = p.mapTy Ty.bare := by
  rw [bindRef]
  cases h : p.ty.bindRef position with
  | error e => rfl
  | ok t =>
    simp only [Except.map, Progress.ofExcept, Progress.done_state, mapTy, Ty.bare_of_bind_ref h]

theorem FunctionType.bind_refs_bare (f : FunctionType) :
    (f.bindRefs position).state.bare = f.bare := by
  have hparams : (Progress.list (·.bindRef position) f.params).state.map (·.mapTy Ty.bare) =
      f.params.map (·.mapTy Ty.bare) := Progress.list_state_map Parameter.bind_ref_bare f.params
  rw [bindRefs]
  cases h : f.returns.bindRef position with
  | error e => rfl
  | ok t =>
    simp only [Except.map, Progress.ofExcept, Progress.done, Progress.andThen, Progress.map_state,
      bare, mapTy, hparams, Ty.bare_of_bind_ref h]

end Binding

namespace CompilationUnit

variable {u v w : CompilationUnit}

structure Enriches (u v : CompilationUnit) : Prop where
  filename : v.filename = u.filename
  includes : v.includes = u.includes
  constants : v.constants = u.constants
  structs : SameStructs v.structs u.structs
  functions : v.functions.map FunctionType.bare = u.functions.map FunctionType.bare

structure Keeps (u v : CompilationUnit) : Prop extends u.Enriches v where
  values : v.values = u.values
  resolved : v.resolved = u.resolved

theorem Keeps.refl (u : CompilationUnit) : u.Keeps u :=
  ⟨⟨rfl, rfl, rfl, .refl _, rfl⟩, rfl, rfl⟩

theorem Keeps.trans (h : u.Keeps v) (h' : v.Keeps w) : u.Keeps w :=
  ⟨⟨h'.filename.trans h.filename, h'.includes.trans h.includes, h'.constants.trans h.constants,
    List.Perm.trans h'.structs h.structs, h'.functions.trans h.functions⟩,
    h'.values.trans h.values, h'.resolved.trans h.resolved⟩

theorem bind_refs_keeps (u : CompilationUnit) : u.Keeps u.bindRefs.state := by
  have hfields : ∀ position, u.Keeps (u.bindFields position).state := by
    intro position
    have hstructs : (Progress.list (·.bindRefs position) u.structs).state.map Struct.bare =
        u.structs.map Struct.bare := Progress.list_state_map Struct.bind_refs_bare u.structs
    exact ⟨⟨rfl, rfl, rfl, .of_eq hstructs, rfl⟩, rfl, rfl⟩
  have hfunctions : ∀ (u : CompilationUnit) position, u.Keeps (u.bindFunctions position).state := by
    intro u position
    have hfns : (Progress.list (·.bindRefs position) u.functions).state.map FunctionType.bare =
        u.functions.map FunctionType.bare :=
      Progress.list_state_map FunctionType.bind_refs_bare u.functions
    exact ⟨⟨rfl, rfl, rfl, .refl _, hfns⟩, rfl, rfl⟩
  by_cases hd : (u.structs.map Struct.name).Nodup
  · rw [bind_refs_eq hd]
    by_cases hf : (u.bindFields u.position?).failure = none
    · rw [Progress.and_then_of_failure_eq_none hf]
      exact (hfields u.position?).trans (hfunctions _ u.position?)
    · rw [Progress.and_then_of_failure hf]
      exact hfields u.position?
  · rw [bind_refs_of_repeat hd]
    exact .refl u

theorem bind_refs_order_keeps (u : CompilationUnit) : u.Keeps (u.bindRefs.andThen order).state := by
  by_cases hb : u.bindRefs.failure = none
  · by_cases ho : u.bindRefs.state.order.failure = none
    · have hsame := (bind_refs_order_arranges (Progress.and_then_failure.mpr ⟨hb, ho⟩)).same
      obtain ⟨sorted, hs⟩ := Progress.of_except_failure.mp ho
      obtain ⟨ws, _, rfl⟩ := except_map_eq_ok.mp hs
      rw [Progress.and_then_of_failure_eq_none hb, order, hs] at hsame ⊢
      have hk := u.bind_refs_keeps
      refine ⟨⟨hk.filename, hk.includes, hk.constants, hsame, ?_⟩, hk.values, hk.resolved⟩
      rw [← hk.functions, Progress.ofExcept, Progress.done_state, sort_functions, List.map_map]
      apply List.map_congr_left
      intro f _
      exact FunctionType.bare_map_ty (g := moveRef (u.bindRefs.state.newPosition ws))
        (fun _ => rfl) f
    · rw [Progress.and_then_of_failure_eq_none hb, order_of_failure ho]
      exact u.bind_refs_keeps
  · rw [Progress.and_then_of_failure hb]
    exact u.bind_refs_keeps

theorem resolve_structs_keeps (u : CompilationUnit) : u.Keeps u.resolveStructs.state := by
  rw [resolveStructs]
  by_cases ho : (u.bindRefs.andThen order).failure = none
  · obtain ⟨extent, hplaceable⟩ := exists_placeable ho
    obtain ⟨⟨placed, hstate⟩, _⟩ := place_again hplaceable
    have helaborates :=
      (u.bindRefs.andThen order).state.laid_out_at_elaborates extent placed [] false
    rw [Progress.and_then_of_failure_eq_none ho, hstate]
    exact u.bind_refs_order_keeps.trans ⟨⟨rfl, rfl, rfl, .of_eq helaborates.bare, rfl⟩, rfl, rfl⟩
  · rw [Progress.and_then_of_failure ho]
    exact u.bind_refs_order_keeps

theorem resolve_of_structs_failure (h : u.resolveStructs.failure ≠ none) :
    u.resolve = u.resolveStructs := by
  rw [resolve, Progress.and_then_of_failure h, Progress.and_then_of_failure h]

theorem resolve_of_structs (h : u.resolveStructs.failure = none) :
    u.resolve = u.resolveStructs.state.finish := by
  rw [resolve, Progress.and_then_assoc, Progress.and_then_of_failure_eq_none h]
  rfl

theorem resolve_cases (u : CompilationUnit) :
    u.resolve.failure ≠ none ∧ u.Keeps u.resolve.state ∨
      ∃ values, u.resolve = .done { u.resolveStructs.state with values, resolved := true } := by
  by_cases hs : u.resolveStructs.failure = none
  · rw [resolve_of_structs hs, finish, resolveConstants]
    cases hv : Constant.values u.resolveStructs.state.constants with
    | error e => exact .inl ⟨Option.some_ne_none e, u.resolve_structs_keeps⟩
    | ok vs => exact .inr ⟨vs, rfl⟩
  · rw [resolve_of_structs_failure hs]
    exact .inl ⟨hs, u.resolve_structs_keeps⟩

theorem resolve_enriches (u : CompilationUnit) : u.Enriches u.resolve.state := by
  rcases u.resolve_cases with ⟨_, h⟩ | ⟨values, h⟩
  · exact h.toEnriches
  · have hk := u.resolve_structs_keeps
    rw [h]
    exact ⟨hk.filename, hk.includes, hk.constants, hk.structs, hk.functions⟩

theorem enriches_of_resolve (h : u.resolve = .done v) : u.Enriches v := by
  have he := u.resolve_enriches
  rwa [h] at he

theorem resolved_of_resolve (h : u.resolve = .done v) : v.resolved = true := by
  rcases u.resolve_cases with ⟨hf, _⟩ | ⟨values, hdone⟩
  · rw [h] at hf
    exact absurd rfl hf
  · have hv := congrArg Progress.state (h.symm.trans hdone)
    rw [Progress.done_state, Progress.done_state] at hv
    rw [hv]

theorem Enriches.numbered (h : u.Enriches v) (hu : u.Numbered) : v.Numbered where
  functions := hu.functions.of_bare h.functions
  fields s' hs' f' hf' := by
    obtain ⟨s, hs, hb⟩ := h.structs.exists_mem hs'
    have hmem : f'.bare ∈ s.bare.fields := by
      rw [hb]
      exact List.mem_map_of_mem hf'
    obtain ⟨f, hf, hfb⟩ := List.mem_map.mp hmem
    rw [← Struct.included_of_bare hb]
    exact (hu.fields s hs f hf).congr (congrArg Field.ty hfb.symm) h.functions

end CompilationUnit

end DataLayout
