import DataLayout.Proofs.Containment
import DataLayout.Proofs.Words
import DataLayout.Resolution.Placement

/-!
# Reference layout

The layout of a struct in unbounded numbers: each field at the least multiple of its alignment
that is not before the end of the field before it, the struct aligned like its most strictly
aligned field and padded to a multiple of its alignment. It depends on the names and the
extents of the structs that are contained, and on nothing that resolution adds.
-/

set_option autoImplicit false

namespace DataLayout

namespace Ty

/-- Size and alignment of a type, given those of structs by name. An array is as long as its
elements are together and aligned like one of them. -/
def extentIn (extent : String → Extent) : Ty → Extent
  | .primitive p => ⟨p.size, p.alignment⟩
  | .struct r => extent r.name
  | .pointer _ => ⟨pointerSize, pointerAlignment⟩
  | .array t n => ⟨(t.extentIn extent).size * n, (t.extentIn extent).alignment⟩
  | .void | .function _ => ⟨0, 1⟩

def LayersFit (extent : String → Extent) : Ty → Prop
  | .array t n => t.LayersFit extent ∧ (t.extentIn extent).size * n < wordLimit
  | .primitive _ | .struct _ | .pointer _ | .void | .function _ => True

theorem extent_in_congr {extent extent' : String → Extent} {t : Ty}
    (h : ∀ r, t.embedded = some r → extent r.name = extent' r.name) :
    t.extentIn extent = t.extentIn extent' := by
  induction t with
  | struct r => exact h r rfl
  | array t n ih => rw [extentIn, extentIn, ih h]
  | primitive | pointer | void | function => rfl

theorem extent_in_map_ref {f : StructRef → StructRef} (hf : ∀ r, (f r).name = r.name)
    (extent : String → Extent) (t : Ty) : (t.mapRef f).extentIn extent = t.extentIn extent := by
  induction t with
  | struct r => rw [mapRef, extentIn, hf, extentIn]
  | array t n ih => rw [mapRef, extentIn, ih, extentIn]
  | primitive | pointer | void | function => rfl

theorem layers_fit_map_ref {f : StructRef → StructRef} (hf : ∀ r, (f r).name = r.name)
    (extent : String → Extent) (t : Ty) : (t.mapRef f).LayersFit extent ↔ t.LayersFit extent := by
  induction t with
  | array t n ih => rw [mapRef, LayersFit, ih, extent_in_map_ref hf, LayersFit]
  | primitive | struct | pointer | void | function => rfl

end Ty

namespace Frontier

/-- Where placing has got to once something of the given extent is placed. -/
def past (front : Frontier) (e : Extent) : Frontier :=
  ⟨roundUp front.offset e.alignment + e.size, max front.alignment e.alignment⟩

def offsets : Frontier → List Extent → List Nat
  | _, [] => []
  | front, e :: es => roundUp front.offset e.alignment :: offsets (front.past e) es

/-- The offsets and ends of things placed one after another fit in a word. -/
def Fits : Frontier → List Extent → Prop
  | _, [] => True
  | front, e :: es => roundUp front.offset e.alignment < wordLimit ∧
      (front.past e).offset < wordLimit ∧ Fits (front.past e) es

theorem length_offsets (front : Frontier) (es : List Extent) :
    (front.offsets es).length = es.length := by
  induction es generalizing front with
  | nil => rfl
  | cons e es ih => simp [offsets, ih]

end Frontier

namespace Field

def setOffset (f : Field) (offset : Nat) : Field := { f with offset := some offset }

theorem map_set_offset {β : Type} {g : Field → β} (hg : ∀ f offset, g (setOffset f offset) = g f)
    {fs : List Field} {offsets : List Nat} (h : offsets.length = fs.length) :
    (List.zipWith setOffset fs offsets).map g = fs.map g := by
  apply List.ext_getElem
  · simp [h]
  · intro i h₁ h₂
    simp [hg]

theorem map_offset_set_offset {fs : List Field} {offsets : List Nat}
    (h : offsets.length = fs.length) :
    (List.zipWith setOffset fs offsets).map Field.offset = offsets.map some := by
  apply List.ext_getElem
  · simp [h]
  · intro i h₁ h₂
    simp [setOffset]

end Field

namespace Struct

def fieldExtents (extent : String → Extent) (s : Struct) : List Extent :=
  s.fields.map (·.ty.extentIn extent)

def frontier (extent : String → Extent) (s : Struct) : Frontier :=
  (s.fieldExtents extent).foldl Frontier.past ⟨0, 1⟩

def extentFrom (extent : String → Extent) (s : Struct) : Extent :=
  ⟨roundUp (s.frontier extent).offset (s.frontier extent).alignment, (s.frontier extent).alignment⟩

/-- No number that laying out the struct comes to is too large for a word: sizes of array
layers, offsets and ends of fields, and the padded size. -/
structure ExtentFits (extent : String → Extent) (s : Struct) : Prop where
  layers : ∀ f ∈ s.fields, f.ty.LayersFit extent
  fields : Frontier.Fits ⟨0, 1⟩ (s.fieldExtents extent)
  size : (s.extentFrom extent).size < wordLimit

def laidOut (extent : String → Extent) (s : Struct) : Struct :=
  { s with
    fields := List.zipWith Field.setOffset s.fields
      (Frontier.offsets ⟨0, 1⟩ (s.fieldExtents extent))
    extent := some (s.extentFrom extent) }

theorem field_extents_congr {extent extent' : String → Extent} {s : Struct}
    (h : ∀ p ∈ s.partNames, extent p = extent' p) :
    s.fieldExtents extent = s.fieldExtents extent' := by
  apply List.map_congr_left
  intro f hf
  apply Ty.extent_in_congr
  exact fun r hr => h r.name (s.mem_part_names hf hr)

theorem extent_from_from_parts : FromParts extentFrom := by
  intro extent extent' s h
  simp only [extentFrom, frontier, field_extents_congr h]

theorem field_extents_bare (extent : String → Extent) (s : Struct) :
    s.bare.fieldExtents extent = s.fieldExtents extent := by
  simp only [fieldExtents, bare, List.map_map]
  apply List.map_congr_left
  intro f _
  exact Ty.extent_in_map_ref (f := StructRef.unbound) (fun _ => rfl) extent f.ty

theorem extent_from_bare (extent : String → Extent) (s : Struct) :
    s.bare.extentFrom extent = s.extentFrom extent := by
  simp only [extentFrom, frontier, field_extents_bare]

theorem extent_fits_bare (extent : String → Extent) (s : Struct) :
    s.bare.ExtentFits extent ↔ s.ExtentFits extent := by
  have hl : (∀ f ∈ s.bare.fields, f.ty.LayersFit extent) ↔
      ∀ f ∈ s.fields, f.ty.LayersFit extent := by
    rw [bare, List.forall_mem_map]
    exact forall₂_congr fun f _ =>
      Ty.layers_fit_map_ref (f := StructRef.unbound) (fun _ => rfl) extent f.ty
  constructor
  · rintro ⟨h₁, h₂, h₃⟩
    exact ⟨hl.mp h₁, s.field_extents_bare extent ▸ h₂, s.extent_from_bare extent ▸ h₃⟩
  · rintro ⟨h₁, h₂, h₃⟩
    exact ⟨hl.mpr h₁, (s.field_extents_bare extent).symm ▸ h₂,
      (s.extent_from_bare extent).symm ▸ h₃⟩

theorem length_offsets (extent : String → Extent) (s : Struct) :
    (Frontier.offsets ⟨0, 1⟩ (s.fieldExtents extent)).length = s.fields.length := by
  rw [Frontier.length_offsets, fieldExtents, List.length_map]

theorem bare_laid_out (extent : String → Extent) (s : Struct) :
    (s.laidOut extent).bare = s.bare := by
  have hf := Field.map_set_offset (g := Field.bare) (fun _ _ => rfl) (s.length_offsets extent)
  simp only [bare, laidOut, hf]

theorem map_ty_laid_out (extent : String → Extent) (s : Struct) :
    (s.laidOut extent).fields.map Field.ty = s.fields.map Field.ty :=
  Field.map_set_offset (g := Field.ty) (fun _ _ => rfl) (s.length_offsets extent)

/-- The offsets and the extent of the struct are those of the reference layout. -/
structure LaidOutBy (extent : String → Extent) (s : Struct) : Prop where
  offsets : s.fields.map Field.offset =
    (Frontier.offsets ⟨0, 1⟩ (s.fieldExtents extent)).map some
  extent : s.extent = some (s.extentFrom extent)

theorem LaidOutBy.offset_is_some {extent : String → Extent} {s : Struct} (h : s.LaidOutBy extent) :
    ∀ f ∈ s.fields, f.offset.isSome := by
  intro f hf
  have ho := List.mem_map_of_mem (f := Field.offset) hf
  rw [h.offsets] at ho
  obtain ⟨o, _, ho⟩ := List.mem_map.mp ho
  rw [← ho, Option.isSome_some]

theorem laid_out_laid_out_by (extent : String → Extent) (s : Struct) :
    (s.laidOut extent).LaidOutBy extent where
  offsets := by
    rw [← field_extents_bare, bare_laid_out, field_extents_bare]
    exact Field.map_offset_set_offset (s.length_offsets extent)
  extent := by
    rw [← extent_from_bare, bare_laid_out, extent_from_bare]
    rfl

end Struct

instance : Inhabited Extent := ⟨⟨0, 1⟩⟩

abbrev Layout (structs : List Struct) (extent : String → Extent) : Prop :=
  Assigns structs Struct.extentFrom extent

structure Extent.Regular (e : Extent) : Prop where
  alignment : e.alignment = 1 ∨ e.alignment = 2
  size : e.alignment ∣ e.size

theorem Extent.Regular.alignment_pos {e : Extent} (h : e.Regular) : 0 < e.alignment := by
  rcases h.alignment with ha | ha <;> omega

theorem Extent.Regular.dvd_word_limit {e : Extent} (h : e.Regular) : e.alignment ∣ wordLimit := by
  rcases h.alignment with ha | ha <;> rw [ha] <;> decide

theorem Extent.Regular.alignment_dvd {e e' : Extent} (h : e.Regular) (h' : e'.Regular)
    (hle : e.alignment ≤ e'.alignment) : e.alignment ∣ e'.alignment := by
  rcases h.alignment with ha | ha
  · rw [ha]
    exact Nat.one_dvd _
  · have ha' := h'.alignment
    exact dvd_of_eq (by omega)

theorem Primitive.regular (p : Primitive) : Extent.Regular ⟨p.size, p.alignment⟩ := by
  cases p <;> constructor <;> decide

theorem Ty.extent_in_regular {extent : String → Extent} {t : Ty}
    (h : ∀ r, t.embedded = some r → (extent r.name).Regular) : (t.extentIn extent).Regular := by
  induction t with
  | primitive p => exact p.regular
  | struct r => exact h r rfl
  | pointer => exact ⟨.inr rfl, show 2 ∣ 4 by decide⟩
  | array t n ih => exact ⟨(ih h).alignment, Dvd.dvd.mul_right (ih h).size n⟩
  | void | function => exact ⟨.inl rfl, Nat.one_dvd _⟩

theorem Frontier.foldl_past_alignment {front : Frontier} {es : List Extent}
    (hf : front.alignment = 1 ∨ front.alignment = 2) (he : ∀ e ∈ es, e.Regular) :
    (es.foldl past front).alignment = 1 ∨ (es.foldl past front).alignment = 2 := by
  induction es generalizing front with
  | nil => exact hf
  | cons e es ih =>
    obtain ⟨h, he'⟩ := List.forall_mem_cons.mp he
    refine ih ?_ he'
    have ha := h.alignment
    simp only [past]
    omega

theorem Struct.extent_from_regular {extent : String → Extent} {s : Struct}
    (h : ∀ f ∈ s.fields, (f.ty.extentIn extent).Regular) : (s.extentFrom extent).Regular := by
  refine ⟨Frontier.foldl_past_alignment (.inl rfl) fun e he => ?_, dvd_round_up _ _⟩
  obtain ⟨f, hf, rfl⟩ := List.mem_map.mp he
  exact h f hf

theorem PartsDefined.field_regular {structs : List Struct} {extent : String → Extent}
    (hp : PartsDefined structs) {s : Struct} (hs : s ∈ structs)
    (ht : ∀ t ∈ structs, t.name ∈ s.partNames → (extent t.name).Regular) :
    ∀ f ∈ s.fields, (f.ty.extentIn extent).Regular := by
  refine fun f hf => Ty.extent_in_regular fun r hr => ?_
  have hpart := s.mem_part_names hf hr
  obtain ⟨t, htm, htr⟩ := List.mem_map.mp (hp s hs r.name hpart)
  rw [← htr] at hpart ⊢
  exact ht t htm hpart

theorem Layout.regular {structs : List Struct} {extent : String → Extent}
    (hw : WellFounded (Contains structs)) (hp : PartsDefined structs)
    (hl : Layout structs extent) : ∀ s ∈ structs, (extent s.name).Regular := by
  refine struct_induction hw fun s hs ih => ?_
  rw [hl s hs]
  exact s.extent_from_regular (hp.field_regular hs ih)

namespace Frontier

variable {es : List Extent}

theorem le_past (front : Frontier) {e : Extent} (he : e.Regular) :
    front.offset ≤ roundUp front.offset e.alignment ∧ front.alignment ≤ (front.past e).alignment :=
  ⟨le_round_up he.alignment_pos, Nat.le_max_left _ _⟩

theorem le_foldl_past (front : Frontier) (hes : ∀ e ∈ es, e.Regular) :
    front.offset ≤ (es.foldl past front).offset ∧
      front.alignment ≤ (es.foldl past front).alignment := by
  induction es generalizing front with
  | nil => exact ⟨Nat.le_refl _, Nat.le_refl _⟩
  | cons e es ih =>
    obtain ⟨he, hes'⟩ := List.forall_mem_cons.mp hes
    have hstep := front.le_past he
    have hrest := ih (front.past e) hes'
    have hpast : roundUp front.offset e.alignment ≤ (front.past e).offset := Nat.le_add_right _ _
    rw [List.foldl_cons]
    omega

theorem offsets_inside (front : Frontier) (hes : ∀ e ∈ es, e.Regular) {k : Nat} {e : Extent}
    {o : Nat} (he : es[k]? = some e) (ho : (front.offsets es)[k]? = some o) :
    front.offset ≤ o ∧ e.alignment ∣ o ∧ o + e.size ≤ (es.foldl past front).offset ∧
      e.alignment ≤ (es.foldl past front).alignment := by
  induction es generalizing front k with
  | nil => simp at he
  | cons e' es ih =>
    obtain ⟨he', hes'⟩ := List.forall_mem_cons.mp hes
    have hstep := front.le_past he'
    have hlast := (front.past e').le_foldl_past hes'
    cases k with
    | zero =>
      cases he
      cases ho
      exact ⟨hstep.1, dvd_round_up _ _, hlast.1, (Nat.le_max_right _ _).trans hlast.2⟩
    | succ k =>
      obtain ⟨h₁, h₂⟩ := ih (front.past e') hes' he ho
      have hpast : roundUp front.offset e'.alignment ≤ (front.past e').offset :=
        Nat.le_add_right _ _
      exact ⟨hstep.1.trans (hpast.trans h₁), h₂⟩

theorem offsets_apart (front : Frontier) (hes : ∀ e ∈ es, e.Regular) {j k : Nat} (hjk : j < k)
    {e : Extent} {o o' : Nat} (he : es[j]? = some e) (ho : (front.offsets es)[j]? = some o)
    (ho' : (front.offsets es)[k]? = some o') : o + e.size ≤ o' := by
  induction es generalizing front j k with
  | nil => simp at he
  | cons e' es ih =>
    have hes' := (List.forall_mem_cons.mp hes).2
    cases k with
    | zero => exact absurd hjk (Nat.not_lt_zero j)
    | succ k =>
      rw [offsets, List.getElem?_cons_succ] at ho'
      cases j with
      | zero =>
        cases he
        cases ho
        have hlt : k < es.length := by
          rw [← length_offsets (front.past e)]
          exact (List.getElem?_eq_some_iff.mp ho').1
        exact (offsets_inside _ hes' (List.getElem?_eq_getElem hlt) ho').1
      | succ j => exact ih _ hes' (Nat.lt_of_succ_lt_succ hjk) he ho ho'

end Frontier

end DataLayout
