import DataLayout.Proofs.OwnOutput
import DataLayout.Proofs.Safety

/-!
# Units that declare the same

Two resolved units whose files declare the same. Their structs are listed in one order, and where
they use the same extents and values of what is included, they are laid out and evaluated alike.
Both follow by induction along what a declaration is made of.
-/

set_option autoImplicit false

namespace DataLayout

namespace Struct

def redraft (number : Nat → Nat) (s : Struct) : Struct := (s.mapTy (Ty.redraft number)).bare

theorem redraft_eq (number : Nat → Nat) (s : Struct) :
    s.redraft number = s.bare.mapTy (Ty.redraft number) := by
  simp [redraft, bare, mapTy, Field.bare, Field.mapTy, Function.comp_def, Ty.redraft_bare,
    Ty.bare_redraft]

theorem name_of_redraft {number number' : Nat → Nat} {s s' : Struct}
    (h : s.redraft number = s'.redraft number') : s.name = s'.name := by
  have hn := congrArg Struct.name h
  exact hn

theorem part_names_map_ty_redraft (number : Nat → Nat) (s : Struct) :
    (s.mapTy (Ty.redraft number)).partNames = s.partNames := by
  simp only [partNames, mapTy, List.filterMap_map, Function.comp_def, Field.partName?, Field.mapTy,
    Ty.embedded_redraft, Option.map_map]
  rfl

theorem part_names_redraft (number : Nat → Nat) (s : Struct) :
    (s.redraft number).partNames = s.partNames := by
  rw [redraft, part_names_bare, part_names_map_ty_redraft]

theorem field_extents_map_ty_redraft (number : Nat → Nat) (extent : String → Extent) (s : Struct) :
    (s.mapTy (Ty.redraft number)).fieldExtents extent = s.fieldExtents extent := by
  simp [fieldExtents, mapTy, Field.mapTy, Function.comp_def, Ty.extent_in_redraft]

theorem weight_from_redraft (weight : String → Nat) (number : Nat → Nat) (s : Struct) :
    (s.redraft number).weightFrom weight = s.weightFrom weight := by
  rw [weightFrom, load, part_names_redraft]
  rfl

theorem extent_from_redraft (extent : String → Extent) (number : Nat → Nat) (s : Struct) :
    (s.redraft number).extentFrom extent = s.extentFrom extent := by
  rw [redraft, extent_from_bare, extentFrom, frontier, field_extents_map_ty_redraft]
  rfl

theorem LaidOutBy.map_ty_redraft {extent : String → Extent} {s : Struct} (h : s.LaidOutBy extent)
    (number : Nat → Nat) : (s.mapTy (Ty.redraft number)).LaidOutBy extent where
  offsets := by
    rw [field_extents_map_ty_redraft, ← h.offsets, mapTy, List.map_map]
    rfl
  extent := by
    rw [extentFrom, frontier, field_extents_map_ty_redraft]
    exact h.extent

theorem LaidOutBy.rebuild {extent : String → Extent} {s : Struct} (h : s.LaidOutBy extent)
    {g : Ty → Ty} (hg : ∀ f ∈ s.fields, g f.ty.bare = f.ty) :
    (s.bare.mapTy g).laidOut extent = s := by
  have hfields : (s.bare.mapTy g).fields = s.fields.map fun f => { f with offset := none } := by
    rw [mapTy, bare, List.map_map]
    apply List.map_congr_left
    intro f hf
    simp only [Function.comp, Field.mapTy, Field.bare, hg f hf]
  have hextents : (s.bare.mapTy g).fieldExtents extent = s.fieldExtents extent := by
    rw [fieldExtents, hfields, List.map_map]
    rfl
  have hplaced : List.zipWith Field.setOffset (s.bare.mapTy g).fields
      (Frontier.offsets ⟨0, 1⟩ (s.fieldExtents extent)) = s.fields := by
    have hlength := s.length_offsets extent
    rw [hfields]
    apply List.ext_getElem
    · simp [hlength]
    · intro i hi hi'
      have ho := congrArg (·[i]?) h.offsets
      simp only [List.getElem?_map, List.getElem?_eq_getElem hi',
        List.getElem?_eq_getElem (hlength.symm ▸ hi'), Option.map_some, Option.some.injEq] at ho
      simp only [List.getElem_zipWith, List.getElem_map, Field.setOffset, ← ho]
  rw [laidOut, extentFrom, frontier, hextents, hplaced]
  exact congrArg (Struct.mk _ _ _ _) h.extent.symm

theorem laid_out_congr {extent extent' : String → Extent} {s : Struct}
    (h : ∀ p ∈ s.partNames, extent p = extent' p) : s.laidOut extent = s.laidOut extent' := by
  rw [laidOut, laidOut, field_extents_congr h, extent_from_from_parts extent extent' s h]

end Struct

theorem Expr.meaning_congr {values values' : String → Int} {e : Expr}
    (h : ∀ x ∈ e.names, values x = values' x) : e.meaning values = e.meaning values' := by
  induction e with
  | literal loc v => rfl
  | constant loc x => rw [meaning, meaning, h x (List.mem_singleton_self x)]
  | unary loc op e ih => rw [meaning, meaning, ih h]
  | binary loc op l r ihl ihr =>
    rw [meaning, meaning, ihl fun x hx => h x (List.mem_append_left _ hx),
      ihr fun x hx => h x (List.mem_append_right _ hx)]

theorem own_rank_of_bare {fns fns' : List FunctionType}
    (h : fns'.map FunctionType.bare = fns.map FunctionType.bare) : ownRank fns' = ownRank fns := by
  have hflags : ∀ (fns : List FunctionType) id, ownRank fns id =
      ((fns.map FunctionType.bare).take id).countP fun f => !f.included := by
    intro fns id
    rw [← List.map_take, List.countP_map]
    rfl
  funext id
  rw [hflags, h, hflags]

theorem own_functions_of_bare {fns fns' : List FunctionType}
    (h : fns'.map FunctionType.bare = fns.map FunctionType.bare) :
    ownFunctions fns' = ownFunctions fns := by
  have hbare : ∀ fns : List FunctionType, ownFunctions fns =
      ((fns.map FunctionType.bare).filter (!·.included)).map
        (·.mapTy (Ty.redraft (ownRank fns))) := by
    intro fns
    rw [List.filter_map, List.map_map, ownFunctions]
    apply List.map_congr_left
    intro f _
    rw [Function.comp, FunctionType.bare, FunctionType.map_ty_map_ty]
    exact FunctionType.map_ty_congr fun t _ => (t.redraft_bare (ownRank fns)).symm
  rw [hbare, h, own_rank_of_bare h, ← hbare]

namespace CompilationUnit

variable {u u₁ u₂ v v₁ v₂ : CompilationUnit}

def drafts (u : CompilationUnit) : List Struct :=
  u.localStructs.map (Struct.redraft (ownRank u.functions))

theorem drafts_eq (u : CompilationUnit) : u.drafts =
    ((u.structs.map Struct.bare).filter (!·.included)).map (·.mapTy u.redraft) := by
  rw [List.filter_map, List.map_map, drafts]
  apply List.map_congr_left
  intro s _
  exact s.redraft_eq _

structure SameDrafts (u₁ u₂ : CompilationUnit) : Prop where
  filename : u₁.filename = u₂.filename
  includes : u₁.includes = u₂.includes
  structs : u₁.drafts.Perm u₂.drafts
  constants : u₁.constants.filter (!·.included) = u₂.constants.filter (!·.included)
  functions : ownFunctions u₁.functions = ownFunctions u₂.functions

/-- What the file of two units uses of the files it includes is the same in both: the size and
alignment of an included struct that one of its structs contains by value, and the value of an
included constant that one of its constants mentions. -/
structure SameUses (u₁ u₂ : CompilationUnit) : Prop where
  structs : ∀ s ∈ u₁.localStructs, ∀ t₁ ∈ u₁.structs, ∀ t₂ ∈ u₂.structs, t₁.name ∈ s.partNames →
    t₁.name = t₂.name → t₁.included = true → t₂.included = true → t₁.extent = t₂.extent
  constants : ∀ c ∈ u₁.constants, c.included = false → ∀ d₁ ∈ u₁.constants, ∀ d₂ ∈ u₂.constants,
    d₁.name ∈ c.expr.names → d₁.name = d₂.name → d₁.included = true → d₂.included = true →
    u₁.constantValue? d₁.name = u₂.constantValue? d₁.name

instance (u₁ u₂ : CompilationUnit) : Decidable (u₁.SameUses u₂) :=
  decidable_of_iff (_ ∧ _) ⟨fun h => ⟨h.1, h.2⟩, fun h => ⟨h.structs, h.constants⟩⟩

theorem Enriches.drafts_perm (h : u.Enriches v) : v.drafts.Perm u.drafts := by
  rw [drafts_eq, drafts_eq, redraft, redraft, own_rank_of_bare h.functions]
  exact (List.Perm.filter _ h.structs).map _

theorem SameDrafts.of_own_eq (h₁ : u₁.Enriches v₁) (h₂ : u₂.Enriches v₂)
    (h : u₁.own = u₂.own) : SameDrafts v₁ v₂ := by
  have hbare : ∀ u : CompilationUnit, u.drafts = u.own.structs.map Struct.bare :=
    fun u => List.map_map.symm
  obtain ⟨hfile, hincludes, hstructs, hconstants, hfunctions, _⟩ := CompilationUnit.mk.inj h
  refine ⟨?_, ?_, ?_, ?_, ?_⟩
  · rw [h₁.filename, h₂.filename, hfile]
  · rw [h₁.includes, h₂.includes, hincludes]
  · refine h₁.drafts_perm.trans (.trans (.of_eq ?_) h₂.drafts_perm.symm)
    rw [hbare, hbare, h]
  · rw [h₁.constants, h₂.constants, hconstants]
  · rw [own_functions_of_bare h₁.functions, own_functions_of_bare h₂.functions, hfunctions]

theorem SameDrafts.symm (h : SameDrafts u₁ u₂) : SameDrafts u₂ u₁ :=
  ⟨h.filename.symm, h.includes.symm, h.structs.symm, h.constants.symm, h.functions.symm⟩

theorem SameDrafts.exists_mem (h : SameDrafts v₁ v₂) {s₁ : Struct} (hs : s₁ ∈ v₁.localStructs) :
    ∃ s₂ ∈ v₂.localStructs,
      s₁.redraft (ownRank v₁.functions) = s₂.redraft (ownRank v₂.functions) := by
  obtain ⟨s₂, hs₂, he⟩ := List.mem_map.mp (h.structs.mem_iff.mp (List.mem_map_of_mem hs))
  exact ⟨s₂, hs₂, he.symm⟩

section Quantities

variable {β : Type} {quantity : (String → β) → Struct → β} {known₁ known₂ : String → β}

/-- Included structs of one name that a struct of the file contains are assigned the same. -/
def AgreeIncluded (v₁ v₂ : CompilationUnit) (known₁ known₂ : String → β) : Prop :=
  ∀ s ∈ v₁.localStructs, ∀ t₁ ∈ v₁.structs, ∀ t₂ ∈ v₂.structs, t₁.name ∈ s.partNames →
    t₁.name = t₂.name → t₁.included = true → t₂.included = true → known₁ t₁.name = known₂ t₁.name

/-- The parts of a struct of the file are assigned the same: they are structs of the file in both
units, or included in both. -/
theorem SameDrafts.parts_agree (h : SameDrafts v₁ v₂) (hd : (v₁.structs.map Struct.name).Nodup)
    (hp₁ : PartsDefined v₁.structs) (hp₂ : PartsDefined v₂.structs)
    (hincluded : AgreeIncluded v₁ v₂ known₁ known₂) {s : Struct} (hs : s ∈ v₁.localStructs)
    (hown : ∀ t ∈ v₁.localStructs, t.name ∈ s.partNames → known₁ t.name = known₂ t.name) :
    ∀ p ∈ s.partNames, known₁ p = known₂ p := by
  intro p hp
  obtain ⟨t₁, ht₁, rfl⟩ := List.mem_map.mp (hp₁ s (mem_local_structs.mp hs).1 p hp)
  by_cases hi₁ : t₁.included = true
  · obtain ⟨s₂, hs₂, he⟩ := h.exists_mem hs
    have hp' : t₁.name ∈ s₂.partNames := by
      rw [← s₂.part_names_redraft, ← he, s.part_names_redraft]
      exact hp
    obtain ⟨t₂, ht₂, hn⟩ := List.mem_map.mp (hp₂ s₂ (mem_local_structs.mp hs₂).1 _ hp')
    refine hincluded s hs t₁ ht₁ t₂ ht₂ hp hn.symm hi₁ ?_
    by_contra hi₂
    -- a struct of the second file would be one of the first, of the same name as the included one
    obtain ⟨t, ht, hte⟩ := h.symm.exists_mem
      (mem_local_structs.mpr ⟨ht₂, by simpa using hi₂⟩)
    have htn : t.name = t₁.name := (Struct.name_of_redraft hte).symm.trans hn
    have hown := (mem_local_structs.mp ht).2
    rw [Struct.eq_of_name hd (mem_local_structs.mp ht).1 ht₁ htn, hi₁] at hown
    cases hown
  · exact hown t₁ (mem_local_structs.mpr ⟨ht₁, by simpa using hi₁⟩) hp

theorem SameDrafts.assigns_agree (h : SameDrafts v₁ v₂) (hq : FromParts quantity)
    (hredraft : ∀ known number s, quantity known (Struct.redraft number s) = quantity known s)
    (hd : (v₁.structs.map Struct.name).Nodup) (hp₁ : PartsDefined v₁.structs)
    (hp₂ : PartsDefined v₂.structs) (hw : WellFounded (Contains v₁.structs))
    (h₁ : Assigns v₁.structs quantity known₁) (h₂ : Assigns v₂.structs quantity known₂)
    (hincluded : AgreeIncluded v₁ v₂ known₁ known₂) :
    ∀ s ∈ v₁.localStructs, known₁ s.name = known₂ s.name := by
  have hall : ∀ s ∈ v₁.structs, s.included = false → known₁ s.name = known₂ s.name := by
    refine struct_induction hw fun s hs ih hown => ?_
    have hlocal := mem_local_structs.mpr ⟨hs, hown⟩
    obtain ⟨s₂, hs₂, he⟩ := h.exists_mem hlocal
    have hparts := h.parts_agree hd hp₁ hp₂ hincluded hlocal fun t ht hpart =>
      ih t (mem_local_structs.mp ht).1 hpart (mem_local_structs.mp ht).2
    have hn : s.name = s₂.name := Struct.name_of_redraft he
    calc
      known₁ s.name = quantity known₁ s := h₁ s hs
      _ = quantity known₂ s := hq known₁ known₂ s hparts
      _ = quantity known₂ s₂ := by rw [← hredraft _ (ownRank v₁.functions), he, hredraft]
      _ = known₂ s.name := by rw [hn, h₂ s₂ (mem_local_structs.mp hs₂).1]
  exact fun s hs => hall s (mem_local_structs.mp hs).1 (mem_local_structs.mp hs).2

end Quantities

theorem SameDrafts.drafts_eq (h : SameDrafts v₁ v₂) (h₁ : u₁.resolve = .done v₁)
    (h₂ : u₂.resolve = .done v₂) : v₁.drafts = v₂.drafts := by
  obtain ⟨extent₁, hr₁⟩ := resolve_spec h₁
  obtain ⟨extent₂, hr₂⟩ := resolve_spec h₂
  obtain ⟨weight₁, hu₁, _⟩ := hr₁.wellFormed.weights_fit
  obtain ⟨weight₂, hu₂, _⟩ := hr₂.wellFormed.weights_fit
  have hw₁ : Weighting v₁.structs weight₁ := (hr₁.same.assigns Struct.weight_from_bare).mpr hu₁
  have hw₂ : Weighting v₂.structs weight₂ := (hr₂.same.assigns Struct.weight_from_bare).mpr hu₂
  have hp₁ := hr₁.laid_out.bound.defined
  have hagree : ∀ s ∈ v₁.localStructs, weight₁ s.name = weight₂ s.name := by
    refine h.assigns_agree Struct.weight_from_from_parts Struct.weight_from_redraft
      hr₁.names_distinct hp₁ hr₂.laid_out.bound.defined
      (contains_well_founded hp₁ hr₁.laid_out.acyclic) hw₁ hw₂ ?_
    intro _ _ t₁ ht₁ t₂ ht₂ _ hn hi₁ hi₂
    rw [hw₁.included ht₁ hi₁, hn, hw₂.included ht₂ hi₂]
  have hsorted : ∀ {v : CompilationUnit} {weight : String → Nat},
      (v.structs.map Struct.name).Pairwise (Precedes weight) →
      v.drafts.Pairwise fun a b => Precedes weight a.name b.name := by
    intro v weight ho
    rw [List.pairwise_map] at ho
    rw [drafts, List.pairwise_map]
    exact ho.sublist List.filter_sublist
  have hweight : ∀ d ∈ v₂.drafts, weight₁ d.name = weight₂ d.name := by
    intro d hd
    obtain ⟨s, hs, rfl⟩ := List.mem_map.mp (h.structs.mem_iff.mpr hd)
    exact hagree s hs
  have hsorted₂ : v₂.drafts.Pairwise fun a b => Precedes weight₁ a.name b.name := by
    refine (hsorted (resolve_ordered h₂ hw₂)).imp_of_mem fun {a b} ha hb hab => ?_
    rw [Precedes, hweight a ha, hweight b hb]
    exact hab
  refine List.Perm.eq_of_pairwise ?_ (hsorted (resolve_ordered h₁ hw₁)) hsorted₂ h.structs
  intro a b _ _ hab hba
  exact absurd hba hab.asymm

section Layout

variable {extent₁ extent₂ : String → Extent}

theorem SameDrafts.extents_agree (h : SameDrafts v₁ v₂) (hr₁ : u₁.ResolvedAs extent₁ v₁)
    (hr₂ : u₂.ResolvedAs extent₂ v₂) (hincluded : AgreeIncluded v₁ v₂ extent₁ extent₂) :
    ∀ s ∈ v₁.localStructs, ∀ p ∈ s.partNames, extent₁ p = extent₂ p := by
  have hp₁ := hr₁.laid_out.bound.defined
  have hp₂ := hr₂.laid_out.bound.defined
  have hagree := h.assigns_agree Struct.extent_from_from_parts Struct.extent_from_redraft
    hr₁.names_distinct hp₁ hp₂ (contains_well_founded hp₁ hr₁.laid_out.acyclic) hr₁.laid_out.layout
    hr₂.laid_out.layout hincluded
  intro s hs
  exact h.parts_agree hr₁.names_distinct hp₁ hp₂ hincluded hs fun t ht _ => hagree t ht

theorem LaidOut.own_structs {extent : String → Extent} (h : v.LaidOut extent) :
    v.own.structs = v.drafts.map (Struct.laidOut extent) := by
  rw [own, drafts, List.map_map]
  apply List.map_congr_left
  intro s hs
  have hplaced := (h.placed s (mem_local_structs.mp hs).1).map_ty_redraft (ownRank v.functions)
  have hrebuilt := hplaced.rebuild (g := id) fun f hf => by
    obtain ⟨f, _, rfl⟩ := List.mem_map.mp hf
    exact f.ty.bare_redraft _
  rw [Struct.map_ty_eq_self fun _ _ => rfl] at hrebuilt
  exact hrebuilt.symm

theorem SameDrafts.own_structs_eq (h : SameDrafts v₁ v₂) (hdrafts : v₁.drafts = v₂.drafts)
    (hr₁ : u₁.ResolvedAs extent₁ v₁) (hr₂ : u₂.ResolvedAs extent₂ v₂)
    (hincluded : AgreeIncluded v₁ v₂ extent₁ extent₂) : v₁.own.structs = v₂.own.structs := by
  rw [hr₁.laid_out.own_structs, hr₂.laid_out.own_structs, ← hdrafts]
  apply List.map_congr_left
  intro d hd
  obtain ⟨s, hs, rfl⟩ := List.mem_map.mp hd
  apply Struct.laid_out_congr
  rw [Struct.part_names_redraft]
  exact h.extents_agree hr₁ hr₂ hincluded s hs

theorem SameDrafts.sizes_agree (h : SameDrafts v₁ v₂) (hr₁ : u₁.ResolvedAs extent₁ v₁)
    (hr₂ : u₂.ResolvedAs extent₂ v₂) (hincluded : AgreeIncluded v₁ v₂ extent₁ extent₂)
    {s₁ s₂ : Struct} (hs₁ : s₁ ∈ v₁.localStructs) (hs₂ : s₂ ∈ v₂.localStructs) {f₁ f₂ : Field}
    (hf₁ : f₁ ∈ s₁.fields) (hf₂ : f₂ ∈ s₂.fields) (hty : v₁.redraft f₁.ty = v₂.redraft f₂.ty) :
    f₁.ty.size? v₁.extent? = f₂.ty.size? v₂.extent? := by
  have hextent : f₁.ty.extentIn extent₁ = f₂.ty.extentIn extent₂ := by
    calc
      f₁.ty.extentIn extent₁ = f₁.ty.extentIn extent₂ := by
        apply Ty.extent_in_congr
        intro r hr
        exact h.extents_agree hr₁ hr₂ hincluded s₁ hs₁ r.name (s₁.mem_part_names hf₁ hr)
      _ = f₂.ty.extentIn extent₂ := by
        rw [← f₁.ty.extent_in_redraft (ownRank v₁.functions),
          ← f₂.ty.extent_in_redraft (ownRank v₂.functions)]
        exact congrArg (Ty.extentIn extent₂) hty
  rw [hr₁.laid_out.size?_eq (hr₁.laid_out.admits_field (mem_local_structs.mp hs₁).1 hf₁),
    hr₂.laid_out.size?_eq (hr₂.laid_out.admits_field (mem_local_structs.mp hs₂).1 hf₂), hextent]

end Layout

section Values

variable {extent extent₁ extent₂ : String → Extent}

theorem ResolvedAs.constant_value? (h : u.ResolvedAs extent v) {values : String → Int}
    (hs : Constant.Satisfied v.constants values) {c : Constant} (hc : c ∈ v.constants) :
    ∃ x, v.constantValue? c.name = some x ∧ x.toInt = values c.name :=
  constant_value?_to_int hs h.values_eq hc

theorem ResolvedAs.meaningful (h : u.ResolvedAs extent v) : Constant.Meaningful v.constants :=
  Constant.exists_values.mp ⟨_, h.values_eq⟩

theorem SameDrafts.mem_constants (h : SameDrafts v₁ v₂) {c : Constant} (hc : c ∈ v₁.constants)
    (hown : c.included = false) : c ∈ v₂.constants := by
  have hmem : c ∈ v₁.constants.filter (!·.included) := List.mem_filter.mpr ⟨hc, by simp [hown]⟩
  rw [h.constants] at hmem
  exact (List.mem_filter.mp hmem).1

theorem SameDrafts.values_agree (h : SameDrafts v₁ v₂) (hr₁ : u₁.ResolvedAs extent₁ v₁)
    (hr₂ : u₂.ResolvedAs extent₂ v₂) (huses : v₁.SameUses v₂)
    {values₁ values₂ : String → Int} (hs₁ : Constant.Satisfied v₁.constants values₁)
    (hs₂ : Constant.Satisfied v₂.constants values₂) :
    ∀ c ∈ v₁.constants, c.included = false → values₁ c.name = values₂ c.name := by
  have hm₁ := hr₁.meaningful
  have hm₂ := hr₂.meaningful
  have hall : ∀ x, ∀ c ∈ v₁.constants, c.name = x → c.included = false → values₁ x = values₂ x := by
    intro x
    induction x using (Constant.used_by_well_founded hm₁.defined hm₁.acyclic).induction with
    | _ x ih =>
      rintro c hc rfl hown
      have hc₂ := h.mem_constants hc hown
      -- a name in the expression is a constant of the file in both units, or included in both
      have hnames : ∀ y ∈ c.expr.names, values₁ y = values₂ y := by
        intro y hy
        obtain ⟨d₁, hd₁, rfl⟩ := List.mem_map.mp (hm₁.defined c hc y hy)
        obtain ⟨d₂, hd₂, hn⟩ := List.mem_map.mp (hm₂.defined c hc₂ d₁.name hy)
        by_cases hi₁ : d₁.included = true
        · have hi₂ : d₂.included = true := by
            by_contra hi₂
            have hmem := h.symm.mem_constants hd₂ (by simpa using hi₂)
            exact hi₂ (Constant.eq_of_name hm₁.distinct hmem hd₁ hn ▸ hi₁)
          obtain ⟨x₁, hx₁, hv₁⟩ := hr₁.constant_value? hs₁ hd₁
          obtain ⟨x₂, hx₂, hv₂⟩ := hr₂.constant_value? hs₂ hd₂
          have hvalue := huses.constants c hc hown d₁ hd₁ d₂ hd₂ hy hn.symm hi₁ hi₂
          rw [hx₁, ← hn, hx₂, Option.some.injEq] at hvalue
          rw [← hv₁, hvalue, hv₂, hn]
        · exact ih d₁.name ⟨c, hc, rfl, hy⟩ d₁ hd₁ rfl (by simpa using hi₁)
      have hmeaning := Expr.meaning_congr hnames
      rw [hs₁ c hc, hs₂ c hc₂] at hmeaning
      exact Option.some.inj hmeaning
  exact fun c hc hown => hall c.name c hc rfl hown

theorem ResolvedAs.local_values (h : u.ResolvedAs extent v) :
    v.localValues = .ok ((v.constants.filter (!·.included)).map fun c =>
      (c.name, (v.constantValue? c.name).getD 0)) := by
  obtain ⟨values, hs, hall⟩ := h.values_to_int
  have hvalued :
      v.valued = .ok (v.constants.map fun c => (c, (v.constantValue? c.name).getD 0)) := by
    have hlist : v.valued = v.constants.zipIdx.mapM fun c =>
        pure (c.1, (v.constantValue? c.1.name).getD 0) := by
      refine map_m_eq_of_map_eq hall fun x _ c hc hkey => ?_
      obtain ⟨hi, hx⟩ := Prod.mk.inj hkey
      have hc' := List.mem_zipIdx_iff_getElem?.mp hc
      obtain ⟨y, hy, hyv⟩ := h.constant_value? hs (List.mem_of_getElem? hc')
      rw [hi, hc', hy, Option.getD_some, Int64.toInt_inj.mp (hyv.trans hx.symm)]
      rfl
    have hmap := List.map_map (l := v.constants.zipIdx) (f := Prod.fst)
      (g := fun c => (c, (v.constantValue? c.name).getD 0))
    rw [List.zipIdx_map_fst] at hmap
    rw [hlist, List.mapM_pure, hmap]
    rfl
  rw [CompilationUnit.localValues, hvalued, Except.map, List.filter_map, List.map_map]
  rfl

end Values

end CompilationUnit

end DataLayout
