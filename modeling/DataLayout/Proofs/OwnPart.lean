import DataLayout.Proofs.Emission
import DataLayout.Proofs.Enrichment

/-!
# The part of a unit that its file declares

What a file declares itself, as it was written and with its function types numbered among
themselves. Loading builds this part from the statements of the file, and what an include brings in
does not show in it.
-/

set_option autoImplicit false

namespace DataLayout

namespace Ty

def redraft (number : Nat → Nat) : Ty → Ty
  | .primitive p => .primitive p
  | .void => .void
  | .struct r => .struct r.unbound
  | .pointer t => .pointer (t.redraft number)
  | .array t n => .array (t.redraft number) n
  | .function id => .function (number id)

variable {number number' : Nat → Nat}

theorem redraft_congr {t : Ty} (h : ∀ id, t.function? = some id → number id = number' id) :
    t.redraft number = t.redraft number' := by
  induction t with
  | primitive | void | struct => rfl
  | pointer t ih => rw [redraft, redraft, ih h]
  | array t n ih => rw [redraft, redraft, ih h]
  | function id => rw [redraft, redraft, h id rfl]

theorem redraft_bare (number : Nat → Nat) (t : Ty) :
    t.bare.redraft number = t.redraft number := by
  induction t with
  | primitive | void | struct | function => rfl
  | pointer t ih => exact congrArg pointer ih
  | array t n ih => exact congrArg (array · n) ih

theorem bare_redraft (number : Nat → Nat) (t : Ty) :
    (t.redraft number).bare = t.redraft number := by
  induction t with
  | primitive | void | struct | function => rfl
  | pointer t ih => exact congrArg pointer ih
  | array t n ih => exact congrArg (array · n) ih

theorem redraft_shift (number : Nat → Nat) (offset : Nat) (t : Ty) :
    (t.shift offset).redraft number = t.redraft fun id => number (id + offset) := by
  induction t with
  | primitive | void | struct | function => rfl
  | pointer t ih => exact congrArg pointer ih
  | array t n ih => exact congrArg (array · n) ih

theorem shift_bare (offset : Nat) (t : Ty) : t.bare.shift offset = t.redraft (· + offset) := by
  induction t with
  | primitive | void | struct | function => rfl
  | pointer t ih => exact congrArg pointer ih
  | array t n ih => exact congrArg (array · n) ih

theorem embedded_redraft (number : Nat → Nat) (t : Ty) :
    (t.redraft number).embedded = t.embedded.map StructRef.unbound := by
  induction t with
  | array t n ih => exact ih
  | primitive | void | struct | function | pointer => rfl

theorem extent_in_redraft (number : Nat → Nat) (extent : String → Extent) (t : Ty) :
    (t.redraft number).extentIn extent = t.extentIn extent := by
  induction t with
  | array t n ih => rw [redraft, extentIn, ih, extentIn]
  | primitive | void | struct | function | pointer => rfl

end Ty

theorem Struct.map_ty_congr {g g' : Ty → Ty} {s : Struct} (h : ∀ f ∈ s.fields, g f.ty = g' f.ty) :
    s.mapTy g = s.mapTy g' := by
  have hf : s.fields.map (·.mapTy g) = s.fields.map (·.mapTy g') := by
    apply List.map_congr_left
    intro f hf
    rw [Field.mapTy, Field.mapTy, h f hf]
  rw [mapTy, mapTy, hf]

theorem Struct.map_ty_map_ty (g g' : Ty → Ty) (s : Struct) :
    (s.mapTy g).mapTy g' = s.mapTy (g' ∘ g) := by
  simp [mapTy, Field.mapTy, Function.comp_def]

theorem FunctionType.map_ty_congr {g g' : Ty → Ty} {f : FunctionType}
    (h : ∀ t ∈ f.types, g t = g' t) : f.mapTy g = f.mapTy g' := by
  obtain ⟨hr, hp⟩ := List.forall_mem_cons.mp h
  have hparams : f.params.map (·.mapTy g) = f.params.map (·.mapTy g') := by
    apply List.map_congr_left
    intro p hmem
    rw [Parameter.mapTy, Parameter.mapTy, hp p.ty (List.mem_map_of_mem hmem)]
  rw [mapTy, mapTy, hr, hparams]

theorem FunctionType.map_ty_map_ty (g g' : Ty → Ty) (f : FunctionType) :
    (f.mapTy g).mapTy g' = f.mapTy (g' ∘ g) := by
  simp [mapTy, Parameter.mapTy, Function.comp_def]

section Rank

variable {fns fns' : List FunctionType}

theorem own_rank_append {id : Nat} (h : id ≤ fns.length) :
    ownRank (fns ++ fns') id = ownRank fns id := by
  rw [ownRank, List.take_append_of_le_length h, ownRank]

theorem own_rank_of_own (h : ∀ f ∈ fns, f.included = false) {id : Nat} (hid : id ≤ fns.length) :
    ownRank fns id = id := by
  have hall : ∀ f ∈ fns.take id, (!f.included) = true := by
    intro f hf
    rw [h f (List.mem_of_mem_take hf)]
    rfl
  rw [ownRank, List.countP_eq_length.mpr hall, List.length_take, Nat.min_eq_left hid]

theorem own_rank_append_add (fns fns' : List FunctionType) (id : Nat) :
    ownRank (fns ++ fns') (id + fns.length) =
      ownRank fns' id + fns.countP fun f => !f.included := by
  rw [ownRank, Nat.add_comm id, List.take_length_add_append, List.countP_append, ownRank,
    Nat.add_comm]

def ownFunctions (fns : List FunctionType) : List FunctionType :=
  (fns.filter (!·.included)).map (·.mapTy (Ty.redraft (ownRank fns)))

theorem length_own_functions (fns : List FunctionType) :
    (ownFunctions fns).length = fns.countP fun f => !f.included := by
  rw [ownFunctions, List.length_map, List.countP_eq_length_filter]

theorem Ty.MentionsIn.redraft_append {included : Bool} {t : Ty} (h : t.MentionsIn fns included)
    (fns' : List FunctionType) :
    t.redraft (ownRank (fns ++ fns')) = t.redraft (ownRank fns) :=
  redraft_congr fun _ hid => own_rank_append (h.lt_length hid).le

theorem Ty.MentionsIn.redraft_shift {included : Bool} {t : Ty} (h : t.MentionsIn fns' included)
    (hown : ∀ f ∈ fns', f.included = false) {g : FunctionType → FunctionType}
    (hg : ∀ f, (g f).included = f.included) :
    (t.shift fns.length).redraft (ownRank (fns ++ fns'.map g)) =
      t.bare.shift (ownFunctions fns).length := by
  rw [Ty.redraft_shift, shift_bare]
  refine redraft_congr fun id hid => ?_
  have hown' : ∀ f ∈ fns'.map g, f.included = false := by
    intro f hf
    obtain ⟨f, hmem, rfl⟩ := List.mem_map.mp hf
    rw [hg, hown f hmem]
  have hle : id ≤ (fns'.map g).length := by
    rw [List.length_map]
    exact (h.lt_length hid).le
  rw [own_rank_append_add, own_rank_of_own hown' hle, length_own_functions]

theorem WellNumbered.own_functions_eq (h : WellNumbered fns) (fns' : List FunctionType) :
    (fns.filter (!·.included)).map (·.mapTy (Ty.redraft (ownRank (fns ++ fns')))) =
      ownFunctions fns := by
  apply List.map_congr_left
  intro f hf
  apply FunctionType.map_ty_congr
  intro t ht
  exact (h.mentions f (List.mem_filter.mp hf).1 t ht).redraft_append fns'

theorem own_functions_append (h : WellNumbered fns) (h' : Drafted fns') :
    ownFunctions (fns ++ fns'.map (·.mapTy (Ty.shift fns.length))) =
      ownFunctions fns ++
        (fns'.map (·.mapTy Ty.bare)).map (·.mapTy (Ty.shift (ownFunctions fns).length)) := by
  have hown : ∀ f ∈ fns'.map (·.mapTy (Ty.shift fns.length)), (!f.included) = true := by
    intro f hf
    obtain ⟨f, hmem, rfl⟩ := List.mem_map.mp hf
    simpa [FunctionType.mapTy] using h'.own f hmem
  rw [ownFunctions, List.filter_append, List.filter_eq_self.mpr hown, List.map_append,
    h.own_functions_eq, List.map_map, List.map_map]
  congr 1
  apply List.map_congr_left
  intro f hf
  rw [Function.comp, Function.comp, FunctionType.map_ty_map_ty, FunctionType.map_ty_map_ty]
  apply FunctionType.map_ty_congr
  intro t ht
  exact (h'.numbered.mentions f hf t ht).redraft_shift h'.own fun _ => rfl

theorem own_functions_append_included (h : WellNumbered fns)
    (h' : ∀ f ∈ fns', f.included = true) : ownFunctions (fns ++ fns') = ownFunctions fns := by
  have hnone : fns'.filter (!·.included) = [] := by
    rw [List.filter_eq_nil_iff]
    intro f hf
    simp [h' f hf]
  rw [ownFunctions, List.filter_append, hnone, List.append_nil, h.own_functions_eq]

end Rank

namespace CompilationUnit

variable {u v w : CompilationUnit}

abbrev redraft (u : CompilationUnit) : Ty → Ty := Ty.redraft (ownRank u.functions)

def own (u : CompilationUnit) : CompilationUnit :=
  { u with
    structs := u.localStructs.map (·.mapTy u.redraft)
    constants := u.constants.filter (!·.included)
    functions := ownFunctions u.functions
    values := [] }

theorem Numbered.map_ty_redraft_append (h : u.Numbered) (fns : List FunctionType) {s : Struct}
    (hs : s ∈ u.structs) :
    s.mapTy (Ty.redraft (ownRank (u.functions ++ fns))) = s.mapTy u.redraft :=
  Struct.map_ty_congr fun f hf => (h.fields s hs f hf).redraft_append fns

theorem own_add_struct (h : u.Numbered) {s : Struct} {fns : List FunctionType}
    (hs : (Statement.struct s fns).Drafted) :
    (u.addStruct s fns).own = u.own.addStruct (s.mapTy Ty.bare) (fns.map (·.mapTy Ty.bare)) := by
  obtain ⟨hd, hown, hmentions⟩ := hs
  have hstructs : (u.addStruct s fns).localStructs.map (·.mapTy (u.addStruct s fns).redraft) =
      u.localStructs.map (·.mapTy u.redraft) ++
        [(s.mapTy Ty.bare).mapTy (Ty.shift (ownFunctions u.functions).length)] := by
    have hlocal : (u.addStruct s fns).localStructs =
        u.localStructs ++ [s.mapTy (Ty.shift u.functions.length)] := by
      simp [localStructs, CompilationUnit.addStruct, List.filter_append, Struct.mapTy, hown]
    rw [hlocal, List.map_append, List.map_singleton]
    congr 1
    · apply List.map_congr_left
      intro t ht
      exact h.map_ty_redraft_append _ (mem_local_structs.mp ht).1
    · rw [Struct.map_ty_map_ty, Struct.map_ty_map_ty]
      congr 1
      apply Struct.map_ty_congr
      intro f hf
      exact (hmentions f hf).redraft_shift hd.own fun _ => rfl
  have hfunctions := own_functions_append h.functions hd
  rw [own, hstructs]
  exact congrArg (CompilationUnit.mk u.filename u.includes _ _ · [] u.resolved) hfunctions

theorem own_add_constant {c : Constant} (hc : c.included = false) :
    (u.addConstant c).own = u.own.addConstant c := by
  have hconstants : (u.constants ++ [c]).filter (!·.included) =
      u.constants.filter (!·.included) ++ [c] := by
    simp [List.filter_append, hc]
  exact congrArg (CompilationUnit.mk u.filename u.includes _ · _ [] u.resolved) hconstants

theorem own_add_included (h : u.Numbered) (path : String) (w : CompilationUnit) :
    (u.addIncluded path w).own = { u.own with includes := u.own.includes ++ [path] } := by
  have hstructs : (u.addIncluded path w).localStructs.map (·.mapTy (u.addIncluded path w).redraft) =
      u.localStructs.map (·.mapTy u.redraft) := by
    have hlocal : (u.addIncluded path w).localStructs = u.localStructs := by
      simp [localStructs, addIncluded, List.filter_append, Struct.markIncluded]
    rw [hlocal]
    apply List.map_congr_left
    intro t ht
    exact h.map_ty_redraft_append _ (mem_local_structs.mp ht).1
  have hconstants : (u.addIncluded path w).constants.filter (!·.included) =
      u.constants.filter (!·.included) := by
    simp [addIncluded, List.filter_append, Constant.markIncluded]
  have hfunctions : ownFunctions (u.addIncluded path w).functions = ownFunctions u.functions := by
    apply own_functions_append_included h.functions
    intro f hf
    obtain ⟨f, _, rfl⟩ := List.mem_map.mp hf
    rfl
  rw [own, hstructs, hconstants, hfunctions]
  rfl

end CompilationUnit

namespace Loader
open CompilationUnit

variable {sources₁ sources₂ : Sources}

theorem Gathers.own_eq {nested₁ nested₂ : Source → CompilationUnit → Prop}
    (hn₁ : ∀ b w, nested₁ b w → w.Numbered) (hn₂ : ∀ b w, nested₂ b w → w.Numbered) {file : String}
    {statements : List Statement} {u₁ u₂ v₁ v₂ : CompilationUnit}
    (h₁ : Gathers sources₁ nested₁ file statements u₁ v₁)
    (h₂ : Gathers sources₂ nested₂ file statements u₂ v₂)
    (hs : ∀ statement ∈ statements, statement.Drafted) (hu₁ : u₁.Numbered) (hu₂ : u₂.Numbered)
    (hown : u₁.own = u₂.own) : v₁.own = v₂.own := by
  induction h₁ generalizing u₂ with
  | nil =>
    cases h₂
    exact hown
  | struct _ ih =>
    obtain ⟨hstruct, hrest⟩ := List.forall_mem_cons.mp hs
    cases h₂ with
    | struct h₂ =>
      refine ih h₂ hrest (hu₁.add_struct hstruct) (hu₂.add_struct hstruct) ?_
      rw [own_add_struct hu₁ hstruct, own_add_struct hu₂ hstruct, hown]
  | constant _ ih =>
    obtain ⟨hconstant, hrest⟩ := List.forall_mem_cons.mp hs
    cases h₂ with
    | constant h₂ =>
      refine ih h₂ hrest ⟨hu₁.functions, hu₁.fields⟩ ⟨hu₂.functions, hu₂.fields⟩ ?_
      rw [own_add_constant hconstant, own_add_constant hconstant, hown]
  | inclusion _ hw₁ _ ih =>
    cases h₂ with
    | inclusion _ hw₂ h₂ =>
      refine ih h₂ (List.forall_mem_cons.mp hs).2 (hu₁.add_included (hn₁ _ _ hw₁) _)
        (hu₂.add_included (hn₂ _ _ hw₂) _) ?_
      rw [own_add_included hu₁, own_add_included hu₂, hown]

theorem load_to_own_eq {depth₁ depth₂ : Nat} {source₁ source₂ : Source}
    {loading₁ loading₂ : List String} {v₁ v₂ : CompilationUnit}
    (h₁ : (loadTo sources₁ depth₁ source₁ loading₁).1 = .ok v₁)
    (h₂ : (loadTo sources₂ depth₂ source₂ loading₂).1 = .ok v₂)
    (hname : source₁.name = source₂.name) (htext : source₁.text = source₂.text) :
    v₁.own = v₂.own := by
  have hnested : ∀ (sources : Sources) depth loading b w,
      Nested (below sources depth) loading b w → w.Numbered := by
    rintro sources (_ | depth) loading b w ⟨_, load', hload, hw⟩
    · cases hload
    · cases hload
      exact load_to_numbered hw
  have hg₁ := (load_to_eq_ok.mp h₁).2
  have hg₂ := (load_to_eq_ok.mp h₂).2
  rw [hname, htext] at hg₁
  exact hg₁.own_eq (hnested _ _ _) (hnested _ _ _) hg₂ (Script.of_tokens_drafted _ _) (.empty _)
    (.empty _) rfl

end Loader

end DataLayout
