import DataLayout.Proofs.Compilation
import DataLayout.Source.Memory

/-!
# Scalars do not overlap

A path leads from a struct through fields and array elements. Where it ends in a scalar, the
scalar lies inside the struct and is aligned, and the scalars at the ends of two different paths
do not share a byte. One step of a path is treated first, with the reference layout in place of
the numbers that resolution has stored.
-/

set_option autoImplicit false

namespace DataLayout

/-- One step into a value: to a field of a struct or to an element of an array. -/
inductive Selector where
  | field (position : Nat)
  | element (index : Nat)
  deriving DecidableEq, Repr

def CompilationUnit.referent? (u : CompilationUnit) (r : StructRef) : Option Struct :=
  r.target.bind (u.structs[·]?)

namespace Ty

def scalar? : Ty → Option Extent
  | .primitive p => some ⟨p.size, p.alignment⟩
  | .pointer _ => some ⟨pointerSize, pointerAlignment⟩
  | .void | .struct _ | .array _ _ | .function _ => none

variable (u : CompilationUnit)

/-- The type of the part that a selector picks. An index is below the length of the array. -/
def part? : Ty → Selector → Option Ty
  | .struct r, .field k => (u.referent? r).bind fun s => (s.fields[k]?).map Field.ty
  | .array t n, .element i => if i < n then some t else none
  | _, _ => none

def partOffset? : Ty → Selector → Option Nat
  | .struct r, .field k => (u.referent? r).bind fun s => (s.fields[k]?).bind Field.offset
  | .array t _, .element i => (t.size? u.extent?).map (i * ·)
  | _, _ => none

def follow? : Ty → List Selector → Option Ty
  | t, [] => some t
  | t, a :: path => (t.part? u a).bind (·.follow? path)

def pathOffset? : Ty → List Selector → Option Nat
  | _, [] => some 0
  | t, a :: path => (t.part? u a).bind fun t' =>
      (t.partOffset? u a).bind fun o => (t'.pathOffset? path).map (o + ·)

end Ty

namespace Struct

/-- The type that a path leads to which begins with a field of the struct. -/
def follow? (u : CompilationUnit) (s : Struct) : List Selector → Option Ty
  | .field k :: path => (s.fields[k]?).bind fun f => f.ty.follow? u path
  | _ => none

def scalarAt? (u : CompilationUnit) (s : Struct) (path : List Selector) : Option Extent :=
  (s.follow? u path).bind Ty.scalar?

def pathOffset? (u : CompilationUnit) (s : Struct) : List Selector → Option Nat
  | .field k :: path => (s.fields[k]?).bind fun f =>
      f.offset.bind fun o => (f.ty.pathOffset? u path).map (o + ·)
  | _ => none

end Struct

namespace CompilationUnit

variable {u : CompilationUnit} {extent : String → Extent}

structure Admits (extent : String → Extent) (u : CompilationUnit) (t : Ty) : Prop where
  bound : ∀ r, t.embedded = some r → r.BoundIn u.structs
  storable : t.Storable
  layers : t.LayersFit extent

namespace LaidOut

variable {s : Struct} {t t' : Ty} {a b : Selector}

theorem admits_field (h : u.LaidOut extent) (hs : s ∈ u.structs) {f : Field}
    (hf : f ∈ s.fields) : u.Admits extent f.ty :=
  ⟨h.bound s hs f hf, h.storable s hs f hf, (h.fits s hs).layers f hf⟩

theorem regular (h : u.LaidOut extent) (ht : u.Admits extent t) :
    (t.extentIn extent).Regular := by
  refine Ty.extent_in_regular fun r hr => ?_
  obtain ⟨i, s, _, hs, hn⟩ := ht.bound r hr
  have hp := h.bound.defined
  rw [← hn]
  exact h.layout.regular (contains_well_founded hp h.acyclic) hp s (List.mem_of_getElem? hs)

theorem size?_eq (h : u.LaidOut extent) (ht : u.Admits extent t) :
    t.size? u.extent? = some (t.extentIn extent).size :=
  (Ty.size?_eq_some (h.part_known ht.bound) ht.storable _).mpr ⟨ht.layers, rfl⟩

theorem field_of_part? {r : StructRef} {k : Nat} (h : u.LaidOut extent)
    (ht : u.Admits extent (.struct r)) (hp : (Ty.struct r).part? u (.field k) = some t) :
    ∃ s ∈ u.structs, u.referent? r = some s ∧ s.name = r.name ∧
      (s.fieldExtents extent)[k]? = some (t.extentIn extent) ∧ u.Admits extent t ∧
      ∃ o, (Ty.struct r).partOffset? u (.field k) = some o ∧
        (Frontier.offsets ⟨0, 1⟩ (s.fieldExtents extent))[k]? = some o := by
  obtain ⟨i, s, hi, hs, hn⟩ := ht.bound r rfl
  have hr : u.referent? r = some s := by rw [referent?, hi, Option.bind_some, hs]
  have hm := List.mem_of_getElem? hs
  rw [Ty.part?, hr, Option.bind_some, Option.map_eq_some_iff] at hp
  obtain ⟨f, hf, rfl⟩ := hp
  have ho := congrArg (·[k]?) (h.placed s hm).offsets
  simp only [List.getElem?_map, hf, Option.map_some] at ho
  obtain ⟨o, ho, hfo⟩ := Option.map_eq_some_iff.mp ho.symm
  refine ⟨s, hm, hr, hn, ?_, h.admits_field hm (List.mem_of_getElem? hf), o, ?_, ho⟩
  · rw [Struct.fieldExtents, List.getElem?_map, hf, Option.map_some]
  · rw [Ty.partOffset?, hr, Option.bind_some, hf, Option.bind_some, hfo]

theorem field_extents_regular (h : u.LaidOut extent) (hs : s ∈ u.structs) :
    ∀ e ∈ s.fieldExtents extent, e.Regular := by
  rw [Struct.fieldExtents, List.forall_mem_map]
  exact h.field_regular hs

theorem part_inside (h : u.LaidOut extent) (ht : u.Admits extent t)
    (hp : t.part? u a = some t') : u.Admits extent t' ∧ ∃ o, t.partOffset? u a = some o ∧
      o + (t'.extentIn extent).size ≤ (t.extentIn extent).size ∧
      (t'.extentIn extent).alignment ∣ o ∧
      (t'.extentIn extent).alignment ∣ (t.extentIn extent).alignment := by
  have hreg := h.regular ht
  cases t with
  | struct r =>
    cases a with
    | field k =>
      obtain ⟨s, hs, _, hn, he, ht', o, ho, hoff⟩ := h.field_of_part? ht hp
      obtain ⟨_, hd, hend, hle⟩ := Frontier.offsets_inside _ (h.field_extents_regular hs) he hoff
      have hext : (Ty.struct r).extentIn extent = s.extentFrom extent := by
        rw [Ty.extentIn, ← hn, h.layout s hs]
      rw [hext] at hreg ⊢
      refine ⟨ht', o, ho, hend.trans ?_, hd, (h.regular ht').alignment_dvd hreg hle⟩
      exact le_round_up hreg.alignment_pos
    | element i => cases hp
  | array t n =>
    cases a with
    | field k => cases hp
    | element i =>
      have ht' : u.Admits extent t := ⟨ht.bound, ht.storable, ht.layers.1⟩
      rw [Ty.part?] at hp
      split_ifs at hp with hi
      cases hp
      refine ⟨ht', _, by rw [Ty.partOffset?, h.size?_eq ht', Option.map_some], ?_, ?_, ?_⟩
      · rw [← Nat.succ_mul, Nat.mul_comm]
        exact Nat.mul_le_mul_left _ hi
      · exact Dvd.dvd.mul_left (h.regular ht').size i
      · exact Nat.dvd_refl _
  | primitive | void | pointer | function => cases a <;> cases hp

theorem parts_apart (h : u.LaidOut extent) (ht : u.Admits extent t) {t₁ t₂ : Ty} {o₁ o₂ : Nat}
    (ha : t.part? u a = some t₁) (hb : t.part? u b = some t₂) (hne : a ≠ b)
    (hoa : t.partOffset? u a = some o₁) (hob : t.partOffset? u b = some o₂) :
    o₁ + (t₁.extentIn extent).size ≤ o₂ ∨ o₂ + (t₂.extentIn extent).size ≤ o₁ := by
  cases t with
  | struct r =>
    cases a with
    | element i => cases ha
    | field j =>
      cases b with
      | element i => cases hb
      | field k =>
        obtain ⟨s, hs, hr, _, he, _, o, ho, hoff⟩ := h.field_of_part? ht ha
        obtain ⟨s', _, hr', _, he', _, o', ho', hoff'⟩ := h.field_of_part? ht hb
        cases hr.symm.trans hr'
        cases hoa.symm.trans ho
        cases hob.symm.trans ho'
        have hreg := h.field_extents_regular hs
        rcases Nat.lt_or_gt_of_ne fun hjk : j = k => hne (hjk ▸ rfl) with hlt | hlt
        · exact .inl (Frontier.offsets_apart _ hreg hlt he hoff hoff')
        · exact .inr (Frontier.offsets_apart _ hreg hlt he' hoff' hoff)
  | array t n =>
    cases a with
    | field j => cases ha
    | element i =>
      cases b with
      | field j => cases hb
      | element j =>
        have ht' : u.Admits extent t := ⟨ht.bound, ht.storable, ht.layers.1⟩
        rw [Ty.part?] at ha hb
        split_ifs at ha hb
        cases ha
        cases hb
        rw [Ty.partOffset?, h.size?_eq ht', Option.map_some, Option.some.injEq] at hoa hob
        subst hoa hob
        rw [← Nat.succ_mul, ← Nat.succ_mul]
        rcases Nat.lt_or_gt_of_ne fun hij : i = j => hne (hij ▸ rfl) with hlt | hlt
        · exact .inl (Nat.mul_le_mul_right _ hlt)
        · exact .inr (Nat.mul_le_mul_right _ hlt)
  | primitive | void | pointer | function => cases a <;> cases ha

theorem scalar_inside (h : u.LaidOut extent) (ht : u.Admits extent t) {path : List Selector}
    {e : Extent} (hp : (t.follow? u path).bind Ty.scalar? = some e) :
    ∃ o, t.pathOffset? u path = some o ∧ o + e.size ≤ (t.extentIn extent).size ∧
      e.alignment ∣ o ∧ e.alignment ∣ (t.extentIn extent).alignment := by
  induction path generalizing t with
  | nil =>
    have he : e = t.extentIn extent := by
      rw [Ty.follow?, Option.bind_some] at hp
      cases t <;> cases hp <;> rfl
    exact ⟨0, rfl, by rw [he, Nat.zero_add], Nat.dvd_zero _, he ▸ Nat.dvd_refl _⟩
  | cons a path ih =>
    rw [Ty.follow?, Option.bind_assoc] at hp
    obtain ⟨t', ha, hp'⟩ := Option.bind_eq_some_iff.mp hp
    obtain ⟨ht', o, ho, hend, hd, hdt⟩ := h.part_inside ht ha
    obtain ⟨o', ho', hend', hd', hdt'⟩ := ih ht' hp'
    refine ⟨o + o', ?_, by omega, Nat.dvd_add (hdt'.trans hd) hd', hdt'.trans hdt⟩
    rw [Ty.pathOffset?, ha, Option.bind_some, ho, Option.bind_some, ho', Option.map_some]

theorem part?_of_scalar? {e : Extent} (ht : t.scalar? = some e) : t.part? u a = none := by
  cases t <;> cases ht <;> cases a <;> rfl

/-- Scalars at the ends of different paths lie apart: the paths part at some step, and the parts
that the two then lead to lie apart. -/
theorem scalars_apart (h : u.LaidOut extent) (ht : u.Admits extent t) {p q : List Selector}
    {e e' : Extent} {o o' : Nat} (hp : (t.follow? u p).bind Ty.scalar? = some e)
    (hq : (t.follow? u q).bind Ty.scalar? = some e') (hne : p ≠ q)
    (ho : t.pathOffset? u p = some o) (ho' : t.pathOffset? u q = some o') :
    o + e.size ≤ o' ∨ o' + e'.size ≤ o := by
  induction p generalizing t q o o' with
  | nil =>
    cases q with
    | nil => exact absurd rfl hne
    | cons b q =>
      rw [Ty.follow?, part?_of_scalar? hp] at hq
      cases hq
  | cons a p ih =>
    cases q with
    | nil =>
      rw [Ty.follow?, part?_of_scalar? hq] at hp
      cases hp
    | cons b q =>
      rw [Ty.follow?, Option.bind_assoc] at hp hq
      obtain ⟨t₁, ha, hp⟩ := Option.bind_eq_some_iff.mp hp
      obtain ⟨t₂, hb, hq⟩ := Option.bind_eq_some_iff.mp hq
      obtain ⟨ht₁, o₁, ho₁, _⟩ := h.part_inside ht ha
      obtain ⟨ht₂, o₂, ho₂, _⟩ := h.part_inside ht hb
      obtain ⟨p₁, hp₁, hend₁, _⟩ := h.scalar_inside ht₁ hp
      obtain ⟨p₂, hp₂, hend₂, _⟩ := h.scalar_inside ht₂ hq
      simp only [Ty.pathOffset?, ha, ho₁, hp₁, hb, ho₂, hp₂, Option.bind_some, Option.map_some,
        Option.some.injEq] at ho ho'
      by_cases hab : a = b
      · subst hab
        cases ha.symm.trans hb
        cases ho₁.symm.trans ho₂
        have hrest := ih ht₁ hp hq (fun hpq => hne (hpq ▸ rfl)) hp₁ hp₂
        omega
      · have hparts := h.parts_apart ht ha hb hab ho₁ ho₂
        omega

end LaidOut

end CompilationUnit

namespace Struct

variable {u : CompilationUnit} {extent : String → Extent} {s : Struct} {r : StructRef}

theorem scalar_at?_eq (hr : u.referent? r = some s) (path : List Selector) :
    s.scalarAt? u path = ((Ty.struct r).follow? u path).bind Ty.scalar? := by
  match path with
  | [] => rfl
  | .element i :: path => rfl
  | .field k :: path =>
    rw [scalarAt?, follow?, Ty.follow?, Ty.part?, hr, Option.bind_some]
    cases s.fields[k]? <;> rfl

theorem path_offset?_eq (hr : u.referent? r = some s) {path : List Selector} {e : Extent}
    (hp : s.scalarAt? u path = some e) :
    s.pathOffset? u path = (Ty.struct r).pathOffset? u path := by
  match path with
  | [] => cases hp
  | .element i :: path => rfl
  | .field k :: path =>
    rw [pathOffset?, Ty.pathOffset?, Ty.part?, Ty.partOffset?, hr, Option.bind_some,
      Option.bind_some]
    cases s.fields[k]? <;> rfl

end Struct

/-- Scalars of a compiled struct lie inside it, are aligned and do not overlap. -/
theorem compile_scalars_separate {sources : Sources} {path : String} {u : CompilationUnit}
    (h : compile sources path = .ok u) : ∀ s ∈ u.structs, ∃ extent, s.extent = some extent ∧
      (∀ p e, s.scalarAt? u p = some e → ∃ o, s.pathOffset? u p = some o ∧
        o + e.size ≤ extent.size ∧ e.alignment ∣ o) ∧
      (∀ p q e e' o o', s.scalarAt? u p = some e → s.scalarAt? u q = some e' → p ≠ q →
        s.pathOffset? u p = some o → s.pathOffset? u q = some o' →
        o + e.size ≤ o' ∨ o' + e'.size ≤ o) := by
  obtain ⟨source, v, _, _, hr⟩ := compile_eq_ok.mp h
  obtain ⟨extent, hres⟩ := CompilationUnit.resolve_spec hr
  have hu := hres.laid_out
  intro s hs
  obtain ⟨i, hi⟩ := List.mem_iff_getElem?.mp hs
  -- a value of the struct's type, to which the lemmas about paths apply
  have hr : u.referent? ⟨s.location, s.name, some i⟩ = some s := hi
  have ht : u.Admits extent (.struct ⟨s.location, s.name, some i⟩) :=
    ⟨fun r hr => by cases hr; exact ⟨i, s, rfl, hi, rfl⟩, trivial, trivial⟩
  refine ⟨extent s.name, ?_, fun p e hp => ?_, fun p q e e' o o' hp hq hne ho ho' => ?_⟩
  · rw [(hu.placed s hs).extent, hu.layout s hs]
  · rw [Struct.path_offset?_eq hr hp]
    rw [Struct.scalar_at?_eq hr] at hp
    obtain ⟨o, ho, hend, hd, _⟩ := hu.scalar_inside ht hp
    exact ⟨o, ho, hend, hd⟩
  · rw [Struct.path_offset?_eq hr hp] at ho
    rw [Struct.path_offset?_eq hr hq] at ho'
    rw [Struct.scalar_at?_eq hr] at hp hq
    exact hu.scalars_apart ht hp hq hne ho ho'

/-- A struct with an array of structs and a pointer. -/
def pairedSources : MemorySources :=
  ⟨[("m", "struct P\x7bu8 a;u16 b;\x7dstruct Q\x7bP[2] p;u8* q;\x7d")]⟩

def pairedUnit : CompilationUnit :=
  let here : Location := ⟨"m", 1⟩
  { CompilationUnit.empty "m" with
    structs :=
      [⟨here, "P", [⟨here, "a", .primitive .u8, none⟩, ⟨here, "b", .primitive .u16, none⟩], false,
          none⟩,
        ⟨here, "Q", [⟨here, "p", .array (.struct ⟨here, "P", none⟩) 2, none⟩,
          ⟨here, "q", .pointer (.primitive .u8), none⟩], false, none⟩] }

theorem compile_scalars_separate_nested :
    ∃ u s, compile (MemorySources.sources
        ⟨[("m", "struct P\x7bu8 a;u16 b;\x7dstruct Q\x7bP[2] p;u8* q;\x7d")]⟩) "m" = .ok u ∧
      s ∈ u.structs ∧ ∃ o o', s.pathOffset? u [.field 0, .element 1, .field 1] = some o ∧
        s.pathOffset? u [.field 1] = some o' ∧ 2 ∣ o ∧ 2 ∣ o' ∧ (o + 2 ≤ o' ∨ o' + 4 ≤ o) := by
  have hload : pairedSources.sources.loaded? "m" = some pairedUnit := by decide +kernel
  have hrun : (pairedUnit.resolve.failure == none &&
      (pairedUnit.resolve.state.structs[1]?).any fun s =>
        s.scalarAt? pairedUnit.resolve.state [.field 0, .element 1, .field 1] == some ⟨2, 2⟩ &&
          s.scalarAt? pairedUnit.resolve.state [.field 1] == some ⟨4, 2⟩) = true := by cbv
  rw [Bool.and_eq_true, beq_iff_eq, Option.any_eq_true] at hrun
  obtain ⟨hdone, s, hs, hpaths⟩ := hrun
  rw [Bool.and_eq_true, beq_iff_eq, beq_iff_eq] at hpaths
  have hc := compile_of_load hload (Progress.eq_done hdone)
  obtain ⟨_, _, hin, hapart⟩ := compile_scalars_separate hc s (List.mem_of_getElem? hs)
  obtain ⟨o, ho, _, hd⟩ := hin _ _ hpaths.1
  obtain ⟨o', ho', _, hd'⟩ := hin _ _ hpaths.2
  exact ⟨_, s, hc, List.mem_of_getElem? hs, o, o', ho, ho', hd, hd',
    hapart _ _ _ _ o o' hpaths.1 hpaths.2 (by decide) ho ho'⟩

end DataLayout
