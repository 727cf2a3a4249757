import DataLayout.Proofs.Compilation

/-!
# The layout that resolution gives

A struct is measured in numbers without a limit: the first field is at the start, each one after it
at the least multiple of its alignment that is not before the end of the field before it, and the
size is the least multiple of the alignment that is not before the end of the last. A struct that is
contained is measured in the same way. Resolution gives these numbers to every struct.
-/

set_option autoImplicit false

namespace DataLayout

def LeastMultiple (alignment bound n : Nat) : Prop := IsLeast {m | alignment ∣ m ∧ bound ≤ m} n

/-- The place of a field in a struct: where it begins, how long it is and how it is aligned. -/
structure Slot where
  offset : Nat
  extent : Extent
  deriving DecidableEq, Repr

namespace Slot

def alignment (slots : List Slot) : Nat := (slots.map (·.extent.alignment)).foldr max 1

def last (slots : List Slot) : Nat :=
  ((slots.getLast?).map fun slot => slot.offset + slot.extent.size).getD 0

theorem one_le_alignment (slots : List Slot) : 1 ≤ alignment slots := by
  induction slots with
  | nil => exact Nat.le_refl 1
  | cons slot slots ih => exact Nat.le_trans ih (Nat.le_max_right _ _)

end Slot

mutual

/-- Size and alignment of a type. A struct that is mentioned is the one of that name. -/
inductive Ty.Measures (structs : List Struct) : Ty → Extent → Prop
  | primitive (p : Primitive) : Ty.Measures structs (.primitive p) ⟨p.size, p.alignment⟩
  | pointer (t : Ty) : Ty.Measures structs (.pointer t) ⟨Ty.pointerSize, Ty.pointerAlignment⟩
  | array {t : Ty} {e : Extent} (n : Nat) (h : Ty.Measures structs t e) :
      Ty.Measures structs (.array t n) ⟨n * e.size, e.alignment⟩
  | struct {r : StructRef} {s : Struct} {slots : List Slot} {e : Extent} (hs : s ∈ structs)
      (hn : s.name = r.name) (h : Struct.Measures structs s slots e) :
      Ty.Measures structs (.struct r) e

inductive Field.Follow (structs : List Struct) : Nat → List Field → List Slot → Prop
  | nil {stop : Nat} : Field.Follow structs stop [] []
  | cons {stop offset : Nat} {f : Field} {fs : List Field} {e : Extent} {slots : List Slot}
      (hf : Ty.Measures structs f.ty e) (ho : LeastMultiple e.alignment stop offset)
      (hfs : Field.Follow structs (offset + e.size) fs slots) :
      Field.Follow structs stop (f :: fs) (⟨offset, e⟩ :: slots)

inductive Struct.Measures (structs : List Struct) : Struct → List Slot → Extent → Prop
  | empty {s : Struct} (hs : s.fields = []) : Struct.Measures structs s [] ⟨0, 1⟩
  | fields {s : Struct} {f : Field} {fs : List Field} {e : Extent} {slots : List Slot} {size : Nat}
      (hs : s.fields = f :: fs) (hf : Ty.Measures structs f.ty e)
      (hfs : Field.Follow structs e.size fs slots)
      (hsize : LeastMultiple (Slot.alignment (⟨0, e⟩ :: slots)) (Slot.last (⟨0, e⟩ :: slots))
        size) :
      Struct.Measures structs s (⟨0, e⟩ :: slots) ⟨size, Slot.alignment (⟨0, e⟩ :: slots)⟩

end

section Uniqueness

variable {structs : List Struct}

mutual

theorem Ty.Measures.unique (hd : (structs.map Struct.name).Nodup) {t : Ty} {e e' : Extent}
    (h : t.Measures structs e) (h' : t.Measures structs e') : e = e' :=
  match h, h' with
  | .primitive _, .primitive _ => rfl
  | .pointer _, .pointer _ => rfl
  | .array _ h, .array _ h' => by rw [h.unique hd h']
  | .struct hs hn h, .struct hs' hn' h' => by
    cases Struct.eq_of_name hd hs hs' (hn.trans hn'.symm)
    exact (h.unique hd h').2

theorem Field.Follow.unique (hd : (structs.map Struct.name).Nodup) {stop : Nat} {fs : List Field}
    {slots slots' : List Slot} (h : Field.Follow structs stop fs slots)
    (h' : Field.Follow structs stop fs slots') : slots = slots' :=
  match h, h' with
  | .nil, .nil => rfl
  | .cons hf ho hfs, .cons hf' ho' hfs' => by
    cases hf.unique hd hf'
    cases ho.unique ho'
    rw [hfs.unique hd hfs']

theorem Struct.Measures.unique (hd : (structs.map Struct.name).Nodup) {s : Struct}
    {slots slots' : List Slot} {e e' : Extent} (h : s.Measures structs slots e)
    (h' : s.Measures structs slots' e') : slots = slots' ∧ e = e' :=
  match h, h' with
  | .empty _, .empty _ => ⟨rfl, rfl⟩
  | .empty hs, .fields hs' _ _ _ => by cases hs.symm.trans hs'
  | .fields hs _ _ _, .empty hs' => by cases hs.symm.trans hs'
  | .fields hs hf hfs hsize, .fields hs' hf' hfs' hsize' => by
    cases hs.symm.trans hs'
    cases hf.unique hd hf'
    cases hfs.unique hd hfs'
    cases hsize.unique hsize'
    exact ⟨rfl, rfl⟩

end

end Uniqueness

theorem round_up_zero {alignment : Nat} (ha : 0 < alignment) : roundUp 0 alignment = 0 := by
  rw [roundUp, Nat.zero_add, Nat.div_eq_of_lt (Nat.sub_lt ha Nat.zero_lt_one), Nat.zero_mul]

namespace Frontier

def slots (front : Frontier) (es : List Extent) : List Slot :=
  List.zipWith Slot.mk (front.offsets es) es

theorem slots_cons (front : Frontier) (e : Extent) (es : List Extent) : front.slots (e :: es) =
    ⟨roundUp front.offset e.alignment, e⟩ :: (front.past e).slots es := rfl

theorem alignment_slots (front : Frontier) (hf : 0 < front.alignment) (es : List Extent) :
    max front.alignment (Slot.alignment (front.slots es)) = (es.foldl past front).alignment := by
  induction es generalizing front with
  | nil => exact Nat.max_eq_left hf
  | cons e es ih =>
    have hpast : 0 < (front.past e).alignment := Nat.lt_of_lt_of_le hf (Nat.le_max_left _ _)
    rw [List.foldl_cons, ← ih (front.past e) hpast, slots_cons]
    exact (Nat.max_assoc _ _ _).symm

theorem last_slots (front : Frontier) (es : List Extent) :
    (((front.slots es).getLast?).map fun slot => slot.offset + slot.extent.size).getD front.offset =
      (es.foldl past front).offset := by
  induction es generalizing front with
  | nil => rfl
  | cons e es ih =>
    rw [List.foldl_cons, ← ih (front.past e), slots_cons, List.getLast?_cons]
    cases ((front.past e).slots es).getLast? <;> rfl

end Frontier

section Existence

variable {structs : List Struct} {extent : String → Extent}

theorem Ty.measures_extent_in {t : Ty} (ht : t.Storable)
    (hpart : ∀ r, t.embedded = some r → ∃ s ∈ structs, s.name = r.name ∧
      ∃ slots, s.Measures structs slots (extent s.name)) :
    t.Measures structs (t.extentIn extent) := by
  induction t with
  | primitive p => exact .primitive p
  | pointer t => exact .pointer t
  | array t n ih =>
    rw [extentIn, Nat.mul_comm]
    exact .array n (ih ht hpart)
  | struct r =>
    obtain ⟨s, hs, hn, slots, h⟩ := hpart r rfl
    rw [extentIn, ← hn]
    exact .struct hs hn h
  | void | function => exact ht.elim

theorem Field.follow_slots {fs : List Field} (front : Frontier)
    (hm : ∀ f ∈ fs, f.ty.Measures structs (f.ty.extentIn extent))
    (hr : ∀ f ∈ fs, (f.ty.extentIn extent).Regular) :
    Field.Follow structs front.offset fs (front.slots (fs.map (·.ty.extentIn extent))) := by
  induction fs generalizing front with
  | nil => exact .nil
  | cons f fs ih =>
    obtain ⟨hf, hfs⟩ := List.forall_mem_cons.mp hm
    obtain ⟨hf', hfs'⟩ := List.forall_mem_cons.mp hr
    rw [List.map_cons, Frontier.slots_cons]
    exact .cons hf (is_least_round_up hf'.alignment_pos _) (ih (front.past _) hfs hfs')

theorem Field.forall₂_slots {fs : List Field} {front : Frontier}
    (h : fs.map Field.offset = (front.offsets (fs.map (·.ty.extentIn extent))).map some) :
    List.Forall₂ (fun f slot => f.offset = some slot.offset ∧ slot.extent = f.ty.extentIn extent) fs
      (front.slots (fs.map (·.ty.extentIn extent))) := by
  induction fs generalizing front with
  | nil => exact .nil
  | cons f fs ih =>
    obtain ⟨hf, hfs⟩ := List.cons.inj h
    exact .cons ⟨hf, rfl⟩ (ih hfs)

theorem Struct.extent_from_slots (extent : String → Extent) (s : Struct) :
    let slots := Frontier.slots ⟨0, 1⟩ (s.fieldExtents extent)
    s.extentFrom extent =
      ⟨roundUp (Slot.last slots) (Slot.alignment slots), Slot.alignment slots⟩ := by
  intro slots
  have halign := Frontier.alignment_slots ⟨0, 1⟩ Nat.one_pos (s.fieldExtents extent)
  have hlast := Frontier.last_slots ⟨0, 1⟩ (s.fieldExtents extent)
  have hone : 1 ≤ Slot.alignment slots := Slot.one_le_alignment slots
  rw [Nat.max_eq_right hone] at halign
  rw [extentFrom, frontier, ← halign, ← hlast]
  rfl

theorem Struct.measures_slots {s : Struct}
    (hm : ∀ f ∈ s.fields, f.ty.Measures structs (f.ty.extentIn extent))
    (hr : ∀ f ∈ s.fields, (f.ty.extentIn extent).Regular) :
    s.Measures structs (Frontier.slots ⟨0, 1⟩ (s.fieldExtents extent)) (s.extentFrom extent) := by
  rw [extent_from_slots]
  cases hs : s.fields with
  | nil =>
    have hnil : Frontier.slots ⟨0, 1⟩ (s.fieldExtents extent) = [] := by
      rw [fieldExtents, hs]
      rfl
    have hsize : roundUp (Slot.last []) (Slot.alignment []) = 0 := round_up_zero Nat.one_pos
    rw [hnil, hsize]
    exact .empty hs
  | cons f fs =>
    rw [hs] at hm hr
    obtain ⟨hf, hfs⟩ := List.forall_mem_cons.mp hm
    obtain ⟨hf', hfs'⟩ := List.forall_mem_cons.mp hr
    have hstart := round_up_zero hf'.alignment_pos
    have hfollow := Field.follow_slots (Frontier.past ⟨0, 1⟩ (f.ty.extentIn extent)) hfs hfs'
    rw [Frontier.past, hstart, Nat.zero_add] at hfollow
    rw [fieldExtents, hs, List.map_cons, Frontier.slots_cons, Frontier.past, hstart, Nat.zero_add]
    exact .fields hs hf hfollow (is_least_round_up (Slot.one_le_alignment _) _)

end Existence

namespace CompilationUnit

variable {u v : CompilationUnit} {extent : String → Extent}

theorem LaidOut.measures (h : u.LaidOut extent) : ∀ s ∈ u.structs,
    s.Measures u.structs (Frontier.slots ⟨0, 1⟩ (s.fieldExtents extent)) (extent s.name) := by
  have hw := contains_well_founded h.bound.defined h.acyclic
  refine struct_induction hw fun s hs ih => ?_
  rw [h.layout s hs]
  refine Struct.measures_slots (fun f hf => ?_) (h.field_regular hs)
  refine Ty.measures_extent_in (h.storable s hs f hf) fun r hr => ?_
  obtain ⟨j, t, _, ht, hn, _⟩ := h.bound.exists_part hs hf hr
  have hmem := List.mem_of_getElem? ht
  exact ⟨t, hmem, hn, _, ih t hmem (hn ▸ s.mem_part_names hf hr)⟩

/-- The field is in the slot: its offset and the size and the alignment of its type are those of
the slot. -/
structure InSlot (u : CompilationUnit) (f : Field) (slot : Slot) : Prop where
  offset : f.offset = some slot.offset
  size : f.ty.size? u.extent? = some slot.extent.size
  alignment : f.ty.alignment? u.extent? = some slot.extent.alignment

theorem LaidOut.fields_in_slots (h : u.LaidOut extent) {s : Struct} (hs : s ∈ u.structs) :
    List.Forall₂ u.InSlot s.fields (Frontier.slots ⟨0, 1⟩ (s.fieldExtents extent)) := by
  have hslots := Field.forall₂_slots (h.placed s hs).offsets
  have hall := (List.forall₂_and_left s.fields _).mpr ⟨fun f hf => hf, hslots⟩
  refine hall.imp fun f slot hslot => ?_
  obtain ⟨hf, hoffset, hextent⟩ := hslot
  have hknown := h.part_known (h.bound s hs f hf)
  have hstorable := h.storable s hs f hf
  have hlayers := (h.fits s hs).layers f hf
  constructor
  · exact hoffset
  · rw [hextent]
    exact (Ty.size?_eq_some hknown hstorable _).mpr ⟨hlayers, rfl⟩
  · rw [hextent]
    exact Ty.alignment?_eq_some hknown hstorable

/-- A unit that is resolved has every field and every struct where they are to be. -/
theorem resolve_measures (h : u.resolve = .done v) : ∀ s ∈ v.structs, ∃ slots extent,
    s.extent = some extent ∧ List.Forall₂ v.InSlot s.fields slots ∧
      ∀ slots' extent',
        s.Measures v.structs slots' extent' ↔ slots' = slots ∧ extent' = extent := by
  obtain ⟨extent, hres⟩ := resolve_spec h
  have hv := hres.laid_out
  intro s hs
  have hm := hv.measures s hs
  refine ⟨_, extent s.name, ?_, hv.fields_in_slots hs, fun slots' extent' => ⟨fun h' => ?_, ?_⟩⟩
  · rw [(hv.placed s hs).extent, hv.layout s hs]
  · exact h'.unique hres.names_distinct hm
  · rintro ⟨rfl, rfl⟩
    exact hm

/-- A struct that contains one from an included file. Of the structs of that file the one that
contains the other comes first. -/
def borrowingUnit : CompilationUnit :=
  let here : Location := ⟨"a", 1⟩
  let there : Location := ⟨"b", 1⟩
  { empty "a" with
    includes := ["b"]
    structs :=
      [⟨there, "B", [⟨there, "c", .struct ⟨there, "C", none⟩, none⟩,
          ⟨there, "x", .primitive .u8, none⟩], true, none⟩,
        ⟨there, "C", [⟨there, "y", .primitive .u16, none⟩, ⟨there, "z", .primitive .u8, none⟩],
          true, none⟩,
        ⟨here, "A", [⟨here, "a", .primitive .u8, none⟩,
          ⟨here, "b", .array (.struct ⟨here, "B", none⟩) 3, none⟩,
          ⟨here, "p", .pointer (.struct ⟨here, "A", none⟩), none⟩], false, none⟩] }

theorem resolve_measures_borrowing : ∃ v s slots, borrowingUnit.resolve = .done v ∧
    v.structs.map Struct.name = ["B", "C", "A"] ∧ v.structs[2]? = some s ∧
    s.extent = some ⟨24, 2⟩ ∧ s.fields.map Field.offset = [some 0, some 2, some 20] ∧
    List.Forall₂ v.InSlot s.fields slots ∧ s.Measures v.structs slots ⟨24, 2⟩ := by
  have hrun : (borrowingUnit.resolve.failure == none &&
      borrowingUnit.resolve.state.structs.map Struct.name == ["B", "C", "A"] &&
      (borrowingUnit.resolve.state.structs[2]?).any fun s => s.extent == some ⟨24, 2⟩ &&
        s.fields.map Field.offset == [some 0, some 2, some 20]) = true := by cbv
  simp only [Bool.and_eq_true, beq_iff_eq] at hrun
  obtain ⟨⟨hdone, hnames⟩, hany⟩ := hrun
  obtain ⟨s, hs, hchecks⟩ := (Option.any_eq_true _ _).mp hany
  simp only [Bool.and_eq_true, beq_iff_eq] at hchecks
  have hstate := Progress.eq_done hdone
  obtain ⟨slots, extent, hextent, hslots, hmeasures⟩ :=
    resolve_measures hstate s (List.mem_of_getElem? hs)
  cases hchecks.1.symm.trans hextent
  exact ⟨_, s, slots, hstate, hnames, hs, hextent, hchecks.2, hslots,
    (hmeasures slots _).mpr ⟨rfl, rfl⟩⟩

end CompilationUnit

end DataLayout
