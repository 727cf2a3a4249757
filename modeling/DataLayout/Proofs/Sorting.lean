import DataLayout.Proofs.Binding
import DataLayout.Resolution.Order

/-!
# Sorting keeps references on their structs

Ordering the structs moves them and nothing else. A reference that was bound by name is bound
by name afterwards, to the place its struct has moved to.
-/

set_option autoImplicit false

namespace DataLayout.CompilationUnit

variable {u : CompilationUnit} {weights : List Nat}

/-- The structs in their new order, with their weights and the positions they come from. -/
def sortedEntries (u : CompilationUnit) (weights : List Nat) : List ((Nat × Struct) × Nat) :=
  (weights.zip u.structs).zipIdx.mergeSort fun a b => precedes a.1 b.1

def newPosition (u : CompilationUnit) (weights : List Nat) (old : Nat) : Option Nat :=
  ((u.sortedEntries weights).map (·.2)).findIdx? (· == old)

def moveTy (u : CompilationUnit) (weights : List Nat) : Ty → Ty :=
  Ty.mapRef (moveRef (u.newPosition weights))

theorem sort_structs : (u.sort weights).structs =
    (u.sortedEntries weights).map fun entry => entry.1.2.mapTy (u.moveTy weights) := rfl

theorem sort_functions : (u.sort weights).functions =
    u.functions.map (·.mapTy (u.moveTy weights)) := rfl

theorem sorted_entries_perm :
    (u.sortedEntries weights).Perm (weights.zip u.structs).zipIdx :=
  List.mergeSort_perm _ _

theorem sort_same_structs (hl : weights.length = u.structs.length) :
    SameStructs (u.sort weights).structs u.structs := by
  have hb : ∀ s : Struct, (s.mapTy (u.moveTy weights)).bare = s.bare :=
    Struct.bare_map_ty fun _ => rfl
  have hs : (weights.zip u.structs).zipIdx.map (fun entry => entry.1.2.bare) =
      u.structs.map Struct.bare := by
    calc
      _ = (((weights.zip u.structs).zipIdx.map Prod.fst).map Prod.snd).map Struct.bare := by
        simp only [List.map_map, Function.comp_def]
      _ = _ := by rw [List.zipIdx_map_fst, List.map_snd_zip (Nat.le_of_eq hl.symm)]
  rw [SameStructs, sort_structs, List.map_map, ← hs]
  simp only [Function.comp_def, hb]
  exact sorted_entries_perm.map _

theorem get_elem?_of_mem_sorted_entries {entry : (Nat × Struct) × Nat}
    (h : entry ∈ u.sortedEntries weights) : u.structs[entry.2]? = some entry.1.2 := by
  have hz := List.mem_zipIdx_iff_getElem?.mp (sorted_entries_perm.mem_iff.mp h)
  exact (List.getElem?_zip_eq_some.mp hz).2

theorem mem_sorted_entries (hl : weights.length = u.structs.length) {i : Nat} {s : Struct}
    (hi : u.structs[i]? = some s) : ∃ w, ((w, s), i) ∈ u.sortedEntries weights := by
  have hlt : i < weights.length := by
    rw [hl]
    exact (List.getElem?_eq_some_iff.mp hi).1
  refine ⟨weights[i], sorted_entries_perm.mem_iff.mpr (List.mem_zipIdx_iff_getElem?.mpr ?_)⟩
  exact List.getElem?_zip_eq_some.mpr ⟨List.getElem?_eq_getElem hlt, hi⟩

theorem get_elem?_new_position (hl : weights.length = u.structs.length) {i : Nat} {s : Struct}
    (hi : u.structs[i]? = some s) : ∃ k, u.newPosition weights i = some k ∧
      (u.sort weights).structs[k]? = some (s.mapTy (u.moveTy weights)) := by
  obtain ⟨w, hw⟩ := mem_sorted_entries hl hi
  have hsome : (u.newPosition weights i).isSome := by
    rw [newPosition, List.findIdx?_isSome, List.any_eq_true]
    exact ⟨i, List.mem_map.mpr ⟨_, hw, rfl⟩, beq_self_eq_true i⟩
  obtain ⟨k, hk⟩ := Option.isSome_iff_exists.mp hsome
  refine ⟨k, hk, ?_⟩
  obtain ⟨hlt, hn, _⟩ := List.findIdx?_eq_some_iff_getElem.mp hk
  rw [List.length_map] at hlt
  rw [List.getElem_map, beq_iff_eq] at hn
  have hold := get_elem?_of_mem_sorted_entries (List.getElem_mem hlt)
  rw [hn, hi, Option.some.injEq] at hold
  rw [sort_structs, List.getElem?_map, List.getElem?_eq_getElem hlt, Option.map_some, hold]

theorem bound_in_move_ref (hl : weights.length = u.structs.length) {r : StructRef}
    (hr : r.BoundIn u.structs) :
    (moveRef (u.newPosition weights) r).BoundIn (u.sort weights).structs := by
  obtain ⟨i, s, ht, hs, hn⟩ := hr
  obtain ⟨k, hk, hks⟩ := get_elem?_new_position hl hs
  exact ⟨k, _, by rw [moveRef, ht, Option.bind_some, hk], hks, hn⟩

theorem sort_bound (hl : weights.length = u.structs.length) (hb : u.Bound) :
    (u.sort weights).Bound := by
  have hty : ∀ t : Ty, (∀ r, t.ref? = some r → r.BoundIn u.structs) → ∀ r,
      (u.moveTy weights t).ref? = some r → r.BoundIn (u.sort weights).structs := by
    intro t ht r hr
    rw [moveTy, Ty.ref?_map_ref, Option.map_eq_some_iff] at hr
    obtain ⟨r', hr', rfl⟩ := hr
    exact bound_in_move_ref hl (ht r' hr')
  constructor
  · intro s hs f hf
    rw [sort_structs] at hs
    obtain ⟨entry, he, rfl⟩ := List.mem_map.mp hs
    obtain ⟨f, hf', rfl⟩ := List.mem_map.mp hf
    have hmem := List.mem_of_getElem? (get_elem?_of_mem_sorted_entries he)
    exact hty f.ty (hb.fields entry.1.2 hmem f hf')
  · intro f hf t ht
    rw [sort_functions] at hf
    obtain ⟨f, hf', rfl⟩ := List.mem_map.mp hf
    obtain ⟨t, ht', rfl⟩ := List.mem_map.mp (FunctionType.types_map_ty _ f ▸ ht)
    exact hty t (hb.functions f hf' t ht')

end DataLayout.CompilationUnit
