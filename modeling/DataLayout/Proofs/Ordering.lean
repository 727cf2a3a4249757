import DataLayout.Proofs.Compilation
import DataLayout.Source.Memory
import Mathlib.Data.String.Basic

/-!
# The order of structs

Resolution lists structs by weight, and structs of one weight by name. Included structs weigh
nothing, and a struct of the unit's own file weighs more than any struct it contains, so the order
is one in which structs can be defined one after another.
-/

set_option autoImplicit false

namespace DataLayout
open Relation

def codePoints (name : String) : List Nat := name.toList.map Char.toNat

theorem code_points_lt {a b : String} : codePoints a < codePoints b ↔ a < b := by
  have hmono : ∀ {a b : String}, a < b → codePoints a < codePoints b :=
    fun h => List.map_lt (fun _ _ hc => hc) (String.lt_iff_toList_lt.mp h)
  constructor
  · intro h
    rcases lt_trichotomy a b with hlt | heq | hgt
    · exact hlt
    · exact absurd (heq ▸ h) (lt_irrefl _)
    · exact absurd (hmono hgt) (lt_asymm h)
  · exact hmono

/-- A struct name comes before another one: its struct weighs less, or it weighs as much and the
name is less. -/
def Precedes (weight : String → Nat) (a b : String) : Prop :=
  weight a < weight b ∨ weight a = weight b ∧ codePoints a < codePoints b

/-- A struct of the unit's own file named `outer` contains one named `inner` by value. -/
def OwnContains (structs : List Struct) (inner outer : String) : Prop :=
  ∃ s ∈ structs, s.name = outer ∧ s.included = false ∧ inner ∈ s.partNames

section Weight

variable {structs : List Struct} {weight : String → Nat}

theorem Precedes.asymm {a b : String} (h : Precedes weight a b) : ¬ Precedes weight b a := by
  rcases h with h | ⟨h, hn⟩
  · rintro (h' | ⟨h', _⟩) <;> omega
  · rintro (h' | ⟨_, hn'⟩)
    · omega
    · exact lt_asymm hn hn'

theorem Precedes.le {a b : String} (h : Precedes weight a b) : weight a ≤ weight b := by
  rcases h with h | ⟨h, _⟩ <;> omega

theorem Weighting.included (hw : Weighting structs weight) {s : Struct} (hs : s ∈ structs)
    (hi : s.included = true) : weight s.name = 0 := by
  rw [hw s hs, Struct.weightFrom, if_pos hi]

theorem Weighting.own (hw : Weighting structs weight) {s : Struct} (hs : s ∈ structs)
    (hi : s.included = false) : weight s.name = s.load weight + 1 := by
  rw [hw s hs, Struct.weightFrom, if_neg (by simp [hi])]

theorem Weighting.lt_of_own_contains (hw : Weighting structs weight) {inner outer : String}
    (h : TransGen (OwnContains structs) inner outer) : weight inner < weight outer := by
  have hstep : ∀ {a b : String}, OwnContains structs a b → weight a < weight b := by
    rintro a b ⟨s, hs, rfl, hi, ha⟩
    have hle : weight a ≤ s.load weight :=
      List.single_le_sum (fun _ _ => Nat.zero_le _) _ (List.mem_map_of_mem ha)
    rw [hw.own hs hi]
    omega
  induction h with
  | single h => exact hstep h
  | tail _ h ih => exact ih.trans (hstep h)

theorem index_lt_of_weight_lt (ho : (structs.map Struct.name).Pairwise (Precedes weight))
    {i j : Nat} {s t : Struct} (hi : structs[i]? = some s) (hj : structs[j]? = some t)
    (h : weight s.name < weight t.name) : i < j := by
  rcases Nat.lt_trichotomy i j with hlt | heq | hgt
  · exact hlt
  · subst heq
    cases hi.symm.trans hj
    exact absurd h (Nat.lt_irrefl _)
  · rw [List.pairwise_map, List.pairwise_iff_getElem] at ho
    obtain ⟨hi', rfl⟩ := List.getElem?_eq_some_iff.mp hi
    obtain ⟨hj', rfl⟩ := List.getElem?_eq_some_iff.mp hj
    have hle := (ho j i hj' hi' hgt).le
    omega

end Weight

namespace CompilationUnit

variable {u v : CompilationUnit} {weight : String → Nat}

theorem precedes_iff {a b : Nat × Struct} : precedes a b = true ↔
    a.1 < b.1 ∨ a.1 = b.1 ∧ a.2.name ≤ b.2.name := by
  simp [precedes]

theorem sorted_entries_pairwise (u : CompilationUnit) (weights : List Nat) :
    (u.sortedEntries weights).Pairwise fun a b => precedes a.1 b.1 = true := by
  apply List.pairwise_mergeSort
  · intro a b c hab hbc
    rw [precedes_iff] at hab hbc ⊢
    rcases hab with hab | ⟨hab, hn⟩
    · left
      omega
    · rcases hbc with hbc | ⟨hbc, hn'⟩
      · left
        omega
      · exact .inr ⟨hab.trans hbc, String.le_trans hn hn'⟩
  · intro a b
    rw [Bool.or_eq_true, precedes_iff, precedes_iff]
    rcases Nat.lt_trichotomy a.1.1 b.1.1 with h | h | h
    · exact .inl (.inl h)
    · exact (String.le_total a.1.2.name b.1.2.name).imp (.inr ⟨h, ·⟩) (.inr ⟨h.symm, ·⟩)
    · exact .inr (.inl h)

theorem sort_ordered (hd : (u.structs.map Struct.name).Nodup) :
    ((u.sort (u.structs.map fun s => weight s.name)).structs.map Struct.name).Pairwise
      (Precedes weight) := by
  have hl : (u.structs.map fun s => weight s.name).length = u.structs.length := List.length_map _
  have hdistinct := (sort_same_structs hl).names.nodup_iff.mpr hd
  have hsorted := u.sorted_entries_pairwise (u.structs.map fun s => weight s.name)
  have hkey : ∀ entry ∈ u.sortedEntries (u.structs.map fun s => weight s.name),
      entry.1.1 = weight entry.1.2.name := by
    intro entry he
    have hz := List.mem_zipIdx_iff_getElem?.mp (sorted_entries_perm.mem_iff.mp he)
    obtain ⟨hw, hs⟩ := List.getElem?_zip_eq_some.mp hz
    rw [List.getElem?_map, hs, Option.map_some, Option.some.injEq] at hw
    exact hw.symm
  rw [sort_structs, List.map_map] at hdistinct ⊢
  rw [List.nodup_iff_pairwise_ne, List.pairwise_map] at hdistinct
  rw [List.pairwise_map]
  refine (List.pairwise_and_iff.mpr ⟨hsorted, hdistinct⟩).imp_of_mem ?_
  rintro a b ha hb ⟨hle, hne⟩
  rw [precedes_iff, hkey a ha, hkey b hb] at hle
  rcases hle with hlt | ⟨heq, hname⟩
  · exact .inl hlt
  · exact .inr ⟨heq, code_points_lt.mpr (lt_of_le_of_ne hname hne)⟩

theorem order_eq_sort (hd : (u.structs.map Struct.name).Nodup) (hb : u.Bound)
    (h : u.order.failure = none) (hw : Weighting u.structs weight) :
    u.order = .done (u.sort (u.structs.map fun s => weight s.name)) := by
  rw [order] at h ⊢
  obtain ⟨sorted, hs⟩ := Progress.of_except_failure.mp h
  obtain ⟨ws, hws, rfl⟩ := except_map_eq_ok.mp hs
  have hspec := weights_spec hd hb.parts_bound
  rw [hws] at hspec
  rw [hs, (hspec.2 weight hw).2]
  rfl

theorem bind_refs_order_ordered (h : (u.bindRefs.andThen order).failure = none)
    (hw : Weighting u.structs weight) :
    ((u.bindRefs.andThen order).state.structs.map Struct.name).Pairwise (Precedes weight) := by
  obtain ⟨hb, ho⟩ := Progress.and_then_failure.mp h
  have hbind := bind_refs_failure.mp hb
  have hd := u.linked_same_structs.names.nodup_iff.mpr hbind.structs_distinct
  have hw' := (u.linked_same_structs.assigns Struct.weight_from_bare).mpr hw
  rw [Progress.and_then_of_failure_eq_none hb]
  rw [bind_refs_state hb] at ho ⊢
  rw [order_eq_sort hd (linked_bound hbind) ho hw']
  exact sort_ordered hd

theorem resolve_structs_ordered (h : u.resolveStructs.failure = none)
    (hw : Weighting u.structs weight) :
    (u.resolveStructs.state.structs.map Struct.name).Pairwise (Precedes weight) := by
  obtain ⟨ho, hp⟩ := Progress.and_then_failure.mp h
  obtain ⟨hb, ha, _⟩ := bind_refs_order_failure.mp ho
  obtain ⟨extent, hl⟩ := hb.exists_layout ha
  have hplaceable := (bind_refs_order_arranges ho).placeable hb ha hl
  rw [resolveStructs, Progress.and_then_of_failure_eq_none ho, place_state hplaceable hp]
  rw [List.map_map]
  exact bind_refs_order_ordered ho hw

theorem resolve_structs (h : u.resolve = .done v) :
    u.resolveStructs.failure = none ∧ v.structs = u.resolveStructs.state.structs := by
  have hf : u.resolve.failure = none := by rw [h]; rfl
  obtain ⟨hsc, _⟩ := Progress.and_then_failure.mp hf
  obtain ⟨hs, hc⟩ := Progress.and_then_failure.mp hsc
  obtain ⟨vs, hvs⟩ := resolve_constants_failure.mp hc
  have hv := congrArg Progress.state h
  rw [resolve, Progress.and_then_of_failure_eq_none hsc, Progress.and_then_of_failure_eq_none hs,
    resolve_constants_state hvs] at hv
  subst hv
  exact ⟨hs, rfl⟩

theorem resolve_ordered (h : u.resolve = .done v) (hw : Weighting v.structs weight) :
    (v.structs.map Struct.name).Pairwise (Precedes weight) := by
  obtain ⟨extent, hr⟩ := resolve_spec h
  obtain ⟨hs, hstructs⟩ := resolve_structs h
  rw [hstructs]
  exact resolve_structs_ordered hs ((hr.same.assigns Struct.weight_from_bare).mp hw)

/-- A resolved unit has the structs it was given. The included ones come first, one of its own
comes after all that it contains, also through others of its own, and all of them are in strict
order of weight and name. -/
theorem resolve_orders_structs (h : u.resolve = .done v) :
    SameStructs v.structs u.structs ∧
    (∀ (i j : Nat) s t, v.structs[i]? = some s → v.structs[j]? = some t →
      s.included = true → t.included = false → i < j) ∧
    (∀ (i j : Nat) s t, v.structs[i]? = some s → v.structs[j]? = some t →
      TransGen (OwnContains v.structs) s.name t.name → i < j) ∧
    (∃ weight, Weighting v.structs weight) ∧
    ∀ weight, Weighting v.structs weight →
      (v.structs.map Struct.name).Pairwise (Precedes weight) := by
  obtain ⟨extent, hr⟩ := resolve_spec h
  obtain ⟨weight, hw, _⟩ := hr.wellFormed.weights_fit
  have hwv : Weighting v.structs weight := (hr.same.assigns Struct.weight_from_bare).mpr hw
  have hordered := resolve_ordered h hwv
  refine ⟨hr.same, fun i j s t hi hj hs ht => ?_, fun i j s t hi hj hc => ?_, ⟨weight, hwv⟩,
    fun _ => resolve_ordered h⟩
  · apply index_lt_of_weight_lt hordered hi hj
    rw [hwv.included (List.mem_of_getElem? hi) hs, hwv.own (List.mem_of_getElem? hj) ht]
    exact Nat.succ_pos _
  · exact index_lt_of_weight_lt hordered hi hj (hwv.lt_of_own_contains hc)

/-- A file that includes another between its structs. The included struct contains one of the
file that includes it. -/
def interleavedUnit : CompilationUnit :=
  let here : Location := ⟨"a", 1⟩
  let there : Location := ⟨"i", 1⟩
  { empty "a" with
    includes := ["i"]
    structs :=
      [⟨here, "F", [⟨here, "a", .struct ⟨here, "Z", none⟩, none⟩,
          ⟨here, "b", .struct ⟨here, "B", none⟩, none⟩], false, none⟩,
        ⟨there, "I", [⟨there, "z", .struct ⟨there, "Z", none⟩, none⟩], true, none⟩,
        ⟨here, "B", [⟨here, "f", .array (.struct ⟨here, "Z", none⟩) 2, none⟩], false, none⟩,
        ⟨here, "Z", [⟨here, "a", .primitive .u8, none⟩], false, none⟩] }

theorem resolve_orders_structs_interleaved : ∃ u v : CompilationUnit, u.resolve = .done v ∧
    v.structs.map (fun s => (s.name, s.included)) =
      [("I", true), ("Z", false), ("B", false), ("F", false)] ∧
    ∃ weight, Weighting v.structs weight ∧
      (v.structs.map Struct.name).Pairwise (Precedes weight) := by
  have hrun : (interleavedUnit.resolve.failure == none &&
      interleavedUnit.resolve.state.structs.map (fun s => (s.name, s.included)) ==
        [("I", true), ("Z", false), ("B", false), ("F", false)]) = true := by cbv
  rw [Bool.and_eq_true, beq_iff_eq, beq_iff_eq] at hrun
  obtain ⟨hdone, hnames⟩ := hrun
  have hu := Progress.eq_done hdone
  obtain ⟨_, _, _, ⟨weight, hw⟩, hordered⟩ := resolve_orders_structs hu
  exact ⟨_, _, hu, hnames, weight, hw, hordered weight hw⟩

end CompilationUnit

end DataLayout
