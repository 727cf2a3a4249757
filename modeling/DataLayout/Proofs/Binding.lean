import DataLayout.Proofs.Bare
import DataLayout.Proofs.Progress
import DataLayout.Resolution.Binding

/-!
# Binding is by name

Binding succeeds when names are distinct, fields have storage and every name is defined. Then
every reference is bound to the position of the struct it names, and nothing else has changed.
-/

set_option autoImplicit false

namespace DataLayout

def StructRef.BoundIn (structs : List Struct) (r : StructRef) : Prop :=
  ∃ i s, r.target = some i ∧ structs[i]? = some s ∧ s.name = r.name

def StructRef.bindTo (position : String → Option Nat) (r : StructRef) : StructRef :=
  { r with target := position r.name }

def FunctionType.types (f : FunctionType) : List Ty := f.returns :: f.params.map Parameter.ty

theorem FunctionType.types_map_ty (g : Ty → Ty) (f : FunctionType) :
    (f.mapTy g).types = f.types.map g := by
  simp [types, mapTy, Parameter.mapTy]

namespace Ty

/-- The type has storage: once array layers are stripped it is neither `void` nor a function. -/
def Storable : Ty → Prop
  | .void | .function _ => False
  | .array t _ => t.Storable
  | .primitive _ | .struct _ | .pointer _ => True

theorem storable_map_ref (f : StructRef → StructRef) (t : Ty) :
    (t.mapRef f).Storable ↔ t.Storable := by
  induction t with
  | array t n ih => exact ih
  | primitive | struct | pointer | void | function => rfl

/-- The struct that the type mentions, if any, is one of the given names. -/
def DefinedIn (names : List String) (t : Ty) : Prop := ∀ r, t.ref? = some r → r.name ∈ names

theorem check_storage_eq_ok (loc : Location) (t : Ty) (x : Unit) :
    t.checkStorage loc = .ok x ↔ t.Storable := by
  induction t with
  | array t n ih => exact ih
  | void | function | primitive | struct | pointer => simp [checkStorage, Storable]

theorem bind_ref_eq_ok {position : String → Option Nat} {t t' : Ty} :
    t.bindRef position = .ok t' ↔ (∀ r, t.ref? = some r → (position r.name).isSome) ∧
      t.mapRef (StructRef.bindTo position) = t' := by
  induction t generalizing t' with
  | struct r =>
    simp only [bindRef, ref?, mapRef, StructRef.bindTo]
    cases h : position r.name <;> simp [h]
  | pointer t ih => simp [bindRef, ref?, mapRef, except_map_eq_ok, ih]
  | array t n ih => simp [bindRef, ref?, mapRef, except_map_eq_ok, ih]
  | primitive | void | function => simp [bindRef, ref?, mapRef]

end Ty

/-- The type with its reference bound to the position of the struct it names. -/
def Ty.linked (position : String → Option Nat) : Ty → Ty := Ty.mapRef (StructRef.bindTo position)

/-- What a field must satisfy to be bound, whatever the fields before it. -/
def Field.Bindable (position : String → Option Nat) (f : Field) : Prop :=
  f.ty.Storable ∧ ∀ r, f.ty.ref? = some r → (position r.name).isSome

namespace Field

variable {position : String → Option Nat}

theorem bind_ref_eq_ok {seen : List String} {f f' : Field} :
    f.bindRef position seen = .ok f' ↔
      f.name ∉ seen ∧ f.Bindable position ∧ f.mapTy (Ty.linked position) = f' := by
  rw [bindRef]
  split_ifs with hs
  · simp [hs]
  · have hstore := f.ty.check_storage_eq_ok f.location ()
    cases h : f.ty.checkStorage f.location with
    | error e =>
      rw [h] at hstore
      simp [Bindable, ← hstore]
    | ok x =>
      rw [h] at hstore
      simp only [true_iff] at hstore
      simp [except_map_eq_ok, Ty.bind_ref_eq_ok, Bindable, hstore, hs, mapTy, Ty.linked]

theorem bind_all_failure {fs : List Field} {seen : List String} :
    (bindAll position fs seen).failure = none ↔
      (fs.map Field.name).Nodup ∧ ∀ f ∈ fs, f.name ∉ seen ∧ f.Bindable position := by
  induction fs generalizing seen with
  | nil => simp [bindAll]
  | cons f fs ih =>
    rw [bindAll, List.forall_mem_cons]
    cases h : f.bindRef position seen with
    | error e =>
      simp only [Progress.stopped_failure, reduceCtorEq, false_iff]
      rintro ⟨_, ⟨hs, hb⟩, _⟩
      rw [bind_ref_eq_ok.mpr ⟨hs, hb, rfl⟩] at h
      cases h
    | ok f' =>
      obtain ⟨hs, hb, _⟩ := bind_ref_eq_ok.mp h
      simp only [Progress.map_failure, ih, List.map_cons, List.nodup_cons, List.mem_map,
        List.mem_cons, not_or, hs, hb]
      constructor
      · rintro ⟨hd, hf⟩
        exact ⟨⟨fun ⟨g, hg, hn⟩ => (hf g hg).1.1 hn, hd⟩, ⟨not_false, trivial⟩,
          fun g hg => ⟨(hf g hg).1.2, (hf g hg).2⟩⟩
      · rintro ⟨⟨ha, hd⟩, _, hf⟩
        exact ⟨hd, fun g hg => ⟨⟨fun hn => ha ⟨g, hg, hn⟩, (hf g hg).1⟩, (hf g hg).2⟩⟩

theorem bind_all_state {fs : List Field} {seen : List String}
    (h : (bindAll position fs seen).failure = none) :
    (bindAll position fs seen).state = fs.map (·.mapTy (Ty.linked position)) := by
  induction fs generalizing seen with
  | nil => rfl
  | cons f fs ih =>
    rw [bindAll] at h ⊢
    split at h
    · cases h
    · next f' hf =>
      obtain ⟨_, _, rfl⟩ := bind_ref_eq_ok.mp hf
      rw [Progress.map_state, ih h, List.map_cons]

end Field

namespace Struct

theorem storable_bare (s : Struct) :
    (∀ f ∈ s.bare.fields, f.ty.Storable) ↔ ∀ f ∈ s.fields, f.ty.Storable := by
  rw [bare, List.forall_mem_map]
  exact forall₂_congr fun f _ => Ty.storable_map_ref StructRef.unbound f.ty

variable {position : String → Option Nat} {s : Struct}

theorem bind_refs_failure : (s.bindRefs position).failure = none ↔
    (s.fields.map Field.name).Nodup ∧ ∀ f ∈ s.fields, f.Bindable position := by
  simp [bindRefs, Field.bind_all_failure]

theorem bind_refs_state (h : (s.bindRefs position).failure = none) :
    (s.bindRefs position).state = s.mapTy (Ty.linked position) := by
  rw [bindRefs, Progress.map_state, Field.bind_all_state h]
  rfl

end Struct

namespace FunctionType

variable {position : String → Option Nat}

theorem param_bind_ref_failure {p : Parameter} : (p.bindRef position).failure = none ↔
    ∀ r, p.ty.ref? = some r → (position r.name).isSome := by
  simp [Parameter.bindRef, Progress.of_except_failure, except_map_eq_ok, Ty.bind_ref_eq_ok]

theorem param_bind_ref_state {p : Parameter} (h : (p.bindRef position).failure = none) :
    (p.bindRef position).state = p.mapTy (Ty.linked position) := by
  have hb := Ty.bind_ref_eq_ok.mpr ⟨param_bind_ref_failure.mp h, rfl⟩
  rw [Parameter.bindRef, hb]
  rfl

theorem bind_refs_failure {f : FunctionType} : (f.bindRefs position).failure = none ↔
    ∀ t ∈ f.types, ∀ r, t.ref? = some r → (position r.name).isSome := by
  rw [types, List.forall_mem_cons, List.forall_mem_map, bindRefs, Progress.and_then_failure,
    Progress.of_except_failure]
  cases h : f.returns.bindRef position with
  | error e =>
    have hr : ¬ ∀ r, f.returns.ref? = some r → (position r.name).isSome := by
      intro hd
      rw [Ty.bind_ref_eq_ok.mpr ⟨hd, rfl⟩] at h
      cases h
    simp [Except.map, hr]
  | ok t =>
    have hr := (Ty.bind_ref_eq_ok.mp h).1
    simp only [Except.map, Progress.ofExcept, Progress.done_state, Progress.map_failure,
      Progress.list_failure, param_bind_ref_failure]
    exact ⟨fun hp => ⟨hr, hp.2⟩, fun hp => ⟨⟨_, rfl⟩, hp.2⟩⟩

theorem bind_refs_state {f : FunctionType} (h : (f.bindRefs position).failure = none) :
    (f.bindRefs position).state = f.mapTy (Ty.linked position) := by
  obtain ⟨hr, hp⟩ := List.forall_mem_cons.mp (bind_refs_failure.mp h)
  have hparam : ∀ p ∈ f.params, (p.bindRef position).failure = none :=
    fun p hp' => param_bind_ref_failure.mpr (hp p.ty (List.mem_map_of_mem hp'))
  rw [bindRefs, Ty.bind_ref_eq_ok.mpr ⟨hr, rfl⟩, Except.map, Progress.ofExcept,
    Progress.and_then_of_failure_eq_none rfl, Progress.map_state, Progress.done_state,
    Progress.list_state (Progress.list_failure.mpr hparam),
    List.map_congr_left fun p hp' => param_bind_ref_state (hparam p hp')]
  rfl

end FunctionType

namespace CompilationUnit

def linked (u : CompilationUnit) : CompilationUnit :=
  { u with
    structs := u.structs.map (·.mapTy (Ty.linked u.position?))
    functions := u.functions.map (·.mapTy (Ty.linked u.position?)) }

structure Bindable (u : CompilationUnit) : Prop where
  structs_distinct : (u.structs.map Struct.name).Nodup
  fields_distinct : ∀ s ∈ u.structs, (s.fields.map Field.name).Nodup
  storable : ∀ s ∈ u.structs, ∀ f ∈ s.fields, f.ty.Storable
  fields_defined : ∀ s ∈ u.structs, ∀ f ∈ s.fields, f.ty.DefinedIn (u.structs.map Struct.name)
  functions_defined : ∀ f ∈ u.functions, ∀ t ∈ f.types, t.DefinedIn (u.structs.map Struct.name)

theorem position?_is_some {u : CompilationUnit} {name : String} :
    (u.position? name).isSome ↔ name ∈ u.structs.map Struct.name := by
  simp [position?, List.findIdx?_isSome]

theorem get_elem?_of_position? {u : CompilationUnit} {name : String} {i : Nat}
    (h : u.position? name = some i) : ∃ s, u.structs[i]? = some s ∧ s.name = name := by
  obtain ⟨hi, hn, _⟩ := List.findIdx?_eq_some_iff_getElem.mp h
  exact ⟨u.structs[i], List.getElem?_eq_getElem hi, by simpa using hn⟩

theorem bind_refs_of_distinct {u : CompilationUnit} (hd : (u.structs.map Struct.name).Nodup) :
    u.bindRefs = ((Progress.list (·.bindRefs u.position?) u.structs).map fun structs =>
      { u with structs }).andThen fun v =>
        (Progress.list (·.bindRefs u.position?) v.functions).map fun functions =>
          { v with functions } := by
  have hr := (first_repeat?_eq_none _ _ _).mpr ⟨hd, fun s _ => List.not_mem_nil (a := s.name)⟩
  rw [bindRefs, hr]

theorem bind_refs_failure {u : CompilationUnit} : u.bindRefs.failure = none ↔ u.Bindable := by
  by_cases hd : (u.structs.map Struct.name).Nodup
  · rw [bind_refs_of_distinct hd, Progress.and_then_failure]
    simp only [Progress.map_failure, Progress.map_state, Progress.list_failure,
      Struct.bind_refs_failure, FunctionType.bind_refs_failure, position?_is_some]
    constructor
    · rintro ⟨hs, hf⟩
      exact ⟨hd, fun s h => (hs s h).1, fun s h f hf' => ((hs s h).2 f hf').1,
        fun s h f hf' r hr => position?_is_some.mp (((hs s h).2 f hf').2 r hr), hf⟩
    · intro h
      exact ⟨fun s hs => ⟨h.fields_distinct s hs, fun f hf => ⟨h.storable s hs f hf,
        fun r hr => position?_is_some.mpr (h.fields_defined s hs f hf r hr)⟩⟩,
        h.functions_defined⟩
  · constructor
    · intro h
      rw [bindRefs] at h
      split at h
      · cases h
      · next hr => exact absurd ((first_repeat?_eq_none _ _ _).mp hr).1 hd
    · exact fun h => absurd h.structs_distinct hd

theorem bind_refs_state {u : CompilationUnit} (h : u.bindRefs.failure = none) :
    u.bindRefs.state = u.linked := by
  have hd := (bind_refs_failure.mp h).structs_distinct
  rw [bind_refs_of_distinct hd] at h ⊢
  obtain ⟨hs, hf⟩ := Progress.and_then_failure.mp h
  rw [Progress.and_then_of_failure_eq_none hs]
  simp only [Progress.map_failure, Progress.map_state] at hs hf ⊢
  rw [Progress.list_state hs, Progress.list_state hf,
    List.map_congr_left fun s h => Struct.bind_refs_state (Progress.list_failure.mp hs s h),
    List.map_congr_left fun f h => FunctionType.bind_refs_state (Progress.list_failure.mp hf f h)]
  rfl

structure Bound (u : CompilationUnit) : Prop where
  fields : ∀ s ∈ u.structs, ∀ f ∈ s.fields, ∀ r, f.ty.ref? = some r → r.BoundIn u.structs
  functions : ∀ f ∈ u.functions, ∀ t ∈ f.types, ∀ r, t.ref? = some r → r.BoundIn u.structs

theorem linked_same_structs (u : CompilationUnit) : SameStructs u.linked.structs u.structs := by
  have hb : ∀ s : Struct, (s.mapTy (Ty.linked u.position?)).bare = s.bare :=
    Struct.bare_map_ty fun _ => rfl
  simp [SameStructs, linked, Function.comp_def, hb]

theorem bound_in_of_position? {u : CompilationUnit} {r : StructRef}
    (h : r.name ∈ u.structs.map Struct.name) :
    (r.bindTo u.position?).BoundIn u.linked.structs := by
  obtain ⟨i, hi⟩ := Option.isSome_iff_exists.mp (position?_is_some.mpr h)
  obtain ⟨s, hs, hn⟩ := get_elem?_of_position? hi
  refine ⟨i, s.mapTy (Ty.linked u.position?), hi, ?_, hn⟩
  rw [linked, List.getElem?_map, hs, Option.map_some]

theorem linked_bound {u : CompilationUnit} (h : u.Bindable) : u.linked.Bound := by
  have hty : ∀ t : Ty, t.DefinedIn (u.structs.map Struct.name) → ∀ r,
      (t.linked u.position?).ref? = some r → r.BoundIn u.linked.structs := by
    intro t ht r hr
    rw [Ty.linked, Ty.ref?_map_ref, Option.map_eq_some_iff] at hr
    obtain ⟨r', hr', rfl⟩ := hr
    exact bound_in_of_position? (ht r' hr')
  constructor
  · intro s hs f hf
    obtain ⟨s, hs', rfl⟩ := List.mem_map.mp hs
    obtain ⟨f, hf', rfl⟩ := List.mem_map.mp hf
    exact hty f.ty (h.fields_defined s hs' f hf')
  · intro f hf t ht
    obtain ⟨f, hf', rfl⟩ := List.mem_map.mp hf
    obtain ⟨t, ht', rfl⟩ := List.mem_map.mp (FunctionType.types_map_ty _ f ▸ ht)
    exact hty t (h.functions_defined f hf' t ht')

end CompilationUnit

end DataLayout
