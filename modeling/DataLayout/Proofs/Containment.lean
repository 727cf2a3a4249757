import DataLayout.Proofs.Binding
import DataLayout.Proofs.Dependency
import DataLayout.Proofs.Words

/-!
# Containment by value

A struct contains the structs its fields have as types, directly or as elements of arrays.
Pointers and functions do not count. Quantities that a struct has by virtue of its parts are
assigned to names; where containment is well founded there is one such assignment. The weight
that structs are ordered by is the first of these, and it is a number without a limit here.
-/

set_option autoImplicit false

namespace DataLayout

def Field.partName? (f : Field) : Option String := f.ty.embedded.map StructRef.name

@[simp] theorem Field.part_name?_bare (f : Field) : f.bare.partName? = f.partName? := by
  simp [partName?, bare, Ty.bare, Ty.embedded_map_ref, Function.comp_def, StructRef.unbound]

/-- The names of the structs that a struct contains by value, once for each field. -/
def Struct.partNames (s : Struct) : List String := s.fields.filterMap Field.partName?

theorem Struct.mem_part_names {s : Struct} {f : Field} (hf : f ∈ s.fields) {r : StructRef}
    (hr : f.ty.embedded = some r) : r.name ∈ s.partNames :=
  List.mem_filterMap.mpr ⟨f, hf, by rw [Field.partName?, hr, Option.map_some]⟩

theorem Struct.field_of_mem_part_names {s : Struct} {p : String} (hp : p ∈ s.partNames) :
    ∃ f ∈ s.fields, ∃ r, f.ty.embedded = some r ∧ r.name = p := by
  obtain ⟨f, hf, hfp⟩ := List.mem_filterMap.mp hp
  exact ⟨f, hf, Option.map_eq_some_iff.mp hfp⟩

@[simp] theorem Struct.part_names_bare (s : Struct) : s.bare.partNames = s.partNames := by
  simp only [partNames, bare, List.filterMap_map, Function.comp_def, Field.part_name?_bare]

def Contains (structs : List Struct) (inner outer : String) : Prop :=
  ∃ s ∈ structs, s.name = outer ∧ inner ∈ s.partNames

def PartsDefined (structs : List Struct) : Prop :=
  ∀ s ∈ structs, ∀ p ∈ s.partNames, p ∈ structs.map Struct.name

variable {structs structs' : List Struct}

theorem Struct.eq_of_name (hd : (structs.map Struct.name).Nodup) {s s' : Struct}
    (hs : s ∈ structs) (hs' : s' ∈ structs) (h : s.name = s'.name) : s = s' :=
  List.inj_on_of_nodup_map hd hs hs' h

theorem Struct.get_elem?_name {i : Nat} {s : Struct} (hi : structs[i]? = some s) :
    (structs.map Struct.name)[i]? = some s.name := by
  rw [List.getElem?_map, hi, Option.map_some]

theorem Contains.mono (h : ∀ s ∈ structs, ∃ s' ∈ structs', s'.bare = s.bare) {a b : String}
    (hc : Contains structs a b) : Contains structs' a b := by
  obtain ⟨s, hs, hn, ha⟩ := hc
  obtain ⟨s', hs', hb⟩ := h s hs
  refine ⟨s', hs', ?_, ?_⟩
  · exact (congrArg Struct.name hb).trans hn
  · rw [← s'.part_names_bare, hb, s.part_names_bare]
    exact ha

theorem SameStructs.contains (h : SameStructs structs structs') :
    Contains structs = Contains structs' := by
  funext a b
  exact propext ⟨.mono fun s hs => h.exists_mem hs, .mono fun s hs => h.symm.exists_mem hs⟩

theorem contains_well_founded (hp : PartsDefined structs)
    (ha : Dependency.Acyclic (Contains structs)) : WellFounded (Contains structs) := by
  refine Dependency.well_founded_of_acyclic (structs.map Struct.name) ?_ ha
  rintro a b ⟨s, hs, _, hpart⟩
  exact hp s hs a hpart

theorem struct_induction (hw : WellFounded (Contains structs)) {P : Struct → Prop}
    (step : ∀ s ∈ structs, (∀ t ∈ structs, t.name ∈ s.partNames → P t) → P s) :
    ∀ s ∈ structs, P s := by
  have hall : ∀ name, ∀ s ∈ structs, s.name = name → P s := by
    intro name
    induction name using hw.induction with
    | _ name ih =>
      intro s hs hn
      exact step s hs fun t ht hpart => ih t.name ⟨s, hs, hn, hpart⟩ t ht rfl
  exact fun s hs => hall s.name s hs rfl

def PartsBound (structs : List Struct) : Prop :=
  ∀ s ∈ structs, ∀ f ∈ s.fields, ∀ r, f.ty.embedded = some r → r.BoundIn structs

theorem PartsBound.exists_part (hb : PartsBound structs) {s : Struct} (hs : s ∈ structs)
    {f : Field} (hf : f ∈ s.fields) {r : StructRef} (hr : f.ty.embedded = some r) :
    ∃ j t, r.target = some j ∧ structs[j]? = some t ∧ t.name = r.name ∧
      Contains structs t.name s.name := by
  obtain ⟨j, t, hj, ht, hn⟩ := hb s hs f hf r hr
  exact ⟨j, t, hj, ht, hn, s, hs, rfl, hn ▸ s.mem_part_names hf hr⟩

theorem PartsBound.defined (hb : PartsBound structs) : PartsDefined structs := by
  intro s hs p hp
  obtain ⟨f, hf, r, hr, rfl⟩ := s.field_of_mem_part_names hp
  obtain ⟨j, t, _, ht, hn, _⟩ := hb.exists_part hs hf hr
  exact hn ▸ List.mem_map_of_mem (List.mem_of_getElem? ht)

section Assignment

variable {β : Type}

/-- A quantity of a struct that is worked out from the same quantity of its parts. -/
def FromParts (quantity : (String → β) → Struct → β) : Prop :=
  ∀ known known' s, (∀ p ∈ s.partNames, known p = known' p) → quantity known s = quantity known' s

/-- An assignment to names that gives every struct the quantity worked out from its parts. -/
def Assigns (structs : List Struct) (quantity : (String → β) → Struct → β) (known : String → β) :
    Prop :=
  ∀ s ∈ structs, known s.name = quantity known s

variable {quantity : (String → β) → Struct → β}

theorem exists_assigns [Inhabited β] (hd : (structs.map Struct.name).Nodup)
    (hw : WellFounded (Contains structs)) (hq : FromParts quantity) :
    ∃ known, Assigns structs quantity known := by
  -- a name is defined by the first struct that has it, and there is no other
  let define (known : String → β) (name : String) : β :=
    ((structs.find? (·.name == name)).map (quantity known)).getD default
  have hl : Dependency.Local (Contains structs) define := by
    intro known known' name h
    simp only [define]
    cases hf : structs.find? (·.name == name) with
    | none => rfl
    | some s =>
      have hn : s.name = name := by simpa using List.find?_some hf
      exact hq known known' s fun p hp => h p ⟨s, List.mem_of_find?_eq_some hf, hn, hp⟩
  obtain ⟨known, hk⟩ := Dependency.exists_solution hw hl
  refine ⟨known, fun s hs => ?_⟩
  have hsome : (structs.find? (·.name == s.name)).isSome :=
    List.find?_isSome.mpr ⟨s, hs, by simp⟩
  obtain ⟨s', hf⟩ := Option.isSome_iff_exists.mp hsome
  have hn : s'.name = s.name := by simpa using List.find?_some hf
  have he := Struct.eq_of_name hd (List.mem_of_find?_eq_some hf) hs hn
  rw [hk s.name]
  simp only [define, hf, he, Option.map_some, Option.getD_some]

theorem assigns_unique (hw : WellFounded (Contains structs)) (hp : PartsDefined structs)
    (hq : FromParts quantity) {known known' : String → β} (h : Assigns structs quantity known)
    (h' : Assigns structs quantity known') : ∀ s ∈ structs, known s.name = known' s.name := by
  refine struct_induction hw fun s hs ih => ?_
  rw [h s hs, h' s hs]
  refine hq known known' s fun p hpart => ?_
  obtain ⟨t, ht, rfl⟩ := List.mem_map.mp (hp s hs p hpart)
  exact ih t ht hpart

theorem SameStructs.assigns (h : SameStructs structs structs')
    (hb : ∀ known s, quantity known (Struct.bare s) = quantity known s) {known : String → β} :
    Assigns structs quantity known ↔ Assigns structs' quantity known := by
  apply h.forall_mem_iff
  intro s
  rw [hb]
  rfl

end Assignment

namespace Struct

def load (weight : String → Nat) (s : Struct) : Nat := (s.partNames.map weight).sum

def weightFrom (weight : String → Nat) (s : Struct) : Nat :=
  if s.included then 0 else s.load weight + 1

def WeightFits (weight : String → Nat) (s : Struct) : Prop :=
  s.load weight + (if s.included then 0 else 1) < wordLimit

theorem load_congr {weight weight' : String → Nat} {s : Struct}
    (h : ∀ p ∈ s.partNames, weight p = weight' p) : s.load weight = s.load weight' := by
  rw [load, load, List.map_congr_left h]

theorem weight_from_from_parts : FromParts weightFrom := by
  intro weight weight' s h
  rw [weightFrom, weightFrom, load_congr h]

theorem weight_from_bare (weight : String → Nat) (s : Struct) :
    s.bare.weightFrom weight = s.weightFrom weight := by
  rw [weightFrom, load, part_names_bare]
  rfl

theorem weight_fits_bare (weight : String → Nat) (s : Struct) :
    s.bare.WeightFits weight ↔ s.WeightFits weight := by
  rw [WeightFits, load, part_names_bare]
  rfl

end Struct

abbrev Weighting (structs : List Struct) (weight : String → Nat) : Prop :=
  Assigns structs Struct.weightFrom weight

end DataLayout
