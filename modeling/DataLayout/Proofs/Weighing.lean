import DataLayout.Proofs.Containment
import DataLayout.Proofs.Words
import DataLayout.Resolution.Order

/-!
# Weighing is exact

The weight of a struct is what its definition says, computed without a limit. The depth-first
search finds it, unless a struct contains itself or a sum does not fit in a word, and it
reports one of these only where it is so.
-/

set_option autoImplicit false

namespace DataLayout
open Relation

namespace Weighing

variable {structs : List Struct}

def Settled (structs : List Struct) (s : Struct) (w : Nat) : Prop :=
  Acc (Contains structs) s.name ∧
    ∀ weight, Weighting structs weight → s.WeightFits weight ∧ w = weight s.name

/-- A failure names a struct that contains itself or whose weight does not fit. -/
def Blames (structs : List Struct) (e : ResolveFailure) : Prop :=
  (∃ s ∈ structs, e = ⟨s.location, .recursiveStruct s.name⟩ ∧
    TransGen (Contains structs) s.name s.name) ∨
  ∃ s ∈ structs, e = ⟨s.location, .weightOverflow s.name⟩ ∧
    ∀ weight, Weighting structs weight → ¬ s.WeightFits weight

/-- What is known of the weights while the structs at the positions `entered` are underway. -/
structure Consistent (structs : List Struct) (entered : List Nat) (known : List Weighing) :
    Prop where
  length : known.length = structs.length
  underway : ∀ i, known[i]? = some .underway ↔ i ∈ entered
  finished : ∀ (i : Nat) s w, structs[i]? = some s → known[i]? = some (.finished w) →
    Settled structs s w

def Extends (known known' : List Weighing) : Prop :=
  ∀ i w : Nat, known[i]? = some (.finished w) → known'[i]? = some (.finished w)

/-- A result is a weight and new knowledge that are `good`, or a failure that is `bad`. -/
def Meets (good : Nat → List Weighing → Prop) (bad : ResolveFailure → Prop) : Result → Prop
  | .ok (w, known) => good w known
  | .error e => bad e

def Weighed (structs : List Struct) (entered : List Nat) (known : List Weighing) (name : String)
    (w : Nat) (known' : List Weighing) : Prop :=
  Consistent structs entered known' ∧ Extends known known' ∧ Acc (Contains structs) name ∧
    ∀ weight, Weighting structs weight → w = weight name

theorem Meets.mono {good good' : Nat → List Weighing → Prop} {bad bad' : ResolveFailure → Prop}
    {result : Result} (h : Meets good bad result) (hg : ∀ w known, good w known → good' w known)
    (hb : ∀ e, bad e → bad' e) : Meets good' bad' result := by
  cases result with
  | error e => exact hb e h
  | ok result => exact hg result.1 result.2 h

theorem Extends.trans {known₁ known₂ known₃ : List Weighing} (h : Extends known₁ known₂)
    (h' : Extends known₂ known₃) : Extends known₁ known₃ := fun i w hw => h' i w (h i w hw)

theorem fields_spec {weigh : List Weighing → StructRef → Result} (overflow : ResolveFailure)
    {entered : List Nat} {fs : List Field}
    (hw : ∀ f ∈ fs, ∀ r, f.ty.embedded = some r → ∀ known, Consistent structs entered known →
      Meets (Weighed structs entered known r.name) (Blames structs) (weigh known r))
    {total : Nat} (ht : total < wordLimit) {known : List Weighing}
    (hk : Consistent structs entered known) :
    Meets (fun total' known' => Consistent structs entered known' ∧ Extends known known' ∧
        (∀ p ∈ fs.filterMap Field.partName?, Acc (Contains structs) p) ∧ total' < wordLimit ∧
        ∀ weight, Weighting structs weight →
          total' = total + ((fs.filterMap Field.partName?).map weight).sum)
      (fun e => Blames structs e ∨ e = overflow ∧ ∀ weight, Weighting structs weight →
        wordLimit ≤ total + ((fs.filterMap Field.partName?).map weight).sum)
      (fields weigh overflow fs total known) := by
  induction fs generalizing total known with
  | nil => exact ⟨hk, fun _ _ h => h, by simp, ht, by simp⟩
  | cons f fs ih =>
    have hw' : ∀ g ∈ fs, ∀ r, g.ty.embedded = some r → ∀ known, Consistent structs entered known →
        Meets (Weighed structs entered known r.name) (Blames structs) (weigh known r) :=
      fun g hg => hw g (List.mem_cons_of_mem f hg)
    rw [fields]
    cases hr : f.ty.embedded with
    | none =>
      have hp : f.partName? = none := by rw [Field.partName?, hr, Option.map_none]
      rw [List.filterMap_cons_none hp]
      exact ih hw' ht hk
    | some r =>
      have hp : f.partName? = some r.name := by rw [Field.partName?, hr, Option.map_some]
      have hwr := hw f List.mem_cons_self r hr known hk
      rw [List.filterMap_cons_some hp]
      dsimp only
      cases hres : weigh known r with
      | error e =>
        rw [hres] at hwr
        exact .inl hwr
      | ok result =>
        obtain ⟨w, known'⟩ := result
        rw [hres] at hwr
        obtain ⟨hk', he, ha, hv⟩ := hwr
        dsimp only
        cases hf : fits? (total + w) with
        | none =>
          refine .inr ⟨rfl, fun weight hwt => ?_⟩
          have hl := fits?_eq_none.mp hf
          rw [List.map_cons, List.sum_cons, ← hv weight hwt]
          omega
        | some total' =>
          obtain ⟨hl, rfl⟩ := fits?_eq_some.mp hf
          refine (ih hw' hl hk').mono ?_ ?_
          · rintro total' known'' ⟨hk'', he', ha', hlt, hs⟩
            refine ⟨hk'', he.trans he', List.forall_mem_cons.mpr ⟨ha, ha'⟩, hlt,
              fun weight hwt => ?_⟩
            rw [List.map_cons, List.sum_cons, ← hv weight hwt, ← Nat.add_assoc]
            exact hs weight hwt
          · rintro e (hb | ⟨rfl, ho⟩)
            · exact .inl hb
            · refine .inr ⟨rfl, fun weight hwt => ?_⟩
              rw [List.map_cons, List.sum_cons, ← hv weight hwt, ← Nat.add_assoc]
              exact ho weight hwt

namespace Consistent

variable {entered : List Nat} {known : List Weighing} {i w : Nat} {s : Struct}

theorem lt_length (hk : Consistent structs entered known) (hi : structs[i]? = some s) :
    i < known.length := by
  rw [hk.length]
  exact (List.getElem?_eq_some_iff.mp hi).1

theorem enter (hk : Consistent structs entered known) (hi : known[i]? = some .untouched) :
    Consistent structs (i :: entered) (known.set i .underway) where
  length := by rw [List.length_set, hk.length]
  underway j := by
    have hl := (List.getElem?_eq_some_iff.mp hi).1
    rw [List.getElem?_set, List.mem_cons, ← hk.underway j]
    by_cases h : i = j
    · simp [h, h ▸ hl]
    · simp [h, Ne.symm h]
  finished j t v ht hv := by
    rw [List.getElem?_set] at hv
    split_ifs at hv with h
    · cases hv
    · exact hk.finished j t v ht hv

theorem finish (hk : Consistent structs (i :: entered) known) (hm : i ∉ entered)
    (hi : structs[i]? = some s) (hs : Settled structs s w) :
    Consistent structs entered (known.set i (.finished w)) where
  length := by rw [List.length_set, hk.length]
  underway j := by
    have hl := hk.lt_length hi
    have hj := hk.underway j
    rw [List.mem_cons] at hj
    rw [List.getElem?_set]
    by_cases h : i = j
    · subst h
      simp [hl, hm]
    · simp [h, hj, Ne.symm h]
  finished j t v ht hv := by
    rw [List.getElem?_set] at hv
    split_ifs at hv with h
    · cases hv
      subst h
      rw [hi] at ht
      cases ht
      exact hs
    · exact hk.finished j t v ht hv

end Consistent

theorem acc_of_parts (hd : (structs.map Struct.name).Nodup) {s : Struct} (hs : s ∈ structs)
    (h : ∀ p ∈ s.partNames, Acc (Contains structs) p) : Acc (Contains structs) s.name := by
  refine ⟨_, fun p hp => ?_⟩
  obtain ⟨t, ht, hn, hpart⟩ := hp
  rw [Struct.eq_of_name hd ht hs hn] at hpart
  exact h p hpart

theorem settled_of_load {s : Struct} (hs : s ∈ structs) (ha : Acc (Contains structs) s.name)
    {total : Nat} (hl : ∀ weight, Weighting structs weight → s.load weight = total)
    (hlt : total + (if s.included then 0 else 1) < wordLimit) :
    Settled structs s (if s.included then 0 else total + 1) := by
  refine ⟨ha, fun weight hwt => ⟨?_, ?_⟩⟩
  · rw [Struct.WeightFits, hl weight hwt]
    exact hlt
  · rw [hwt s hs, Struct.weightFrom, hl weight hwt]

theorem weighed_finish {entered : List Nat} {known known' : List Weighing} {i w : Nat} {s : Struct}
    (hi : structs[i]? = some s) (hu : known[i]? = some .untouched) (hm : i ∉ entered)
    (hk' : Consistent structs (i :: entered) known')
    (he : Extends (known.set i .underway) known') (hs : Settled structs s w) :
    Weighed structs entered known s.name w (known'.set i (.finished w)) ∧
      (known'.set i (.finished w))[i]? = some (.finished w) := by
  refine ⟨⟨hk'.finish hm hi hs, fun j v hj => ?_, hs.1, fun weight h => (hs.2 weight h).2⟩,
    List.getElem?_set_self (hk'.lt_length hi)⟩
  have hij : i ≠ j := by
    rintro rfl
    rw [hu] at hj
    cases hj
  rw [List.getElem?_set_ne hij]
  exact he j v (by rw [List.getElem?_set_ne hij]; exact hj)

theorem fresh_spec {weigh : List Weighing → StructRef → Result} {entered : List Nat}
    {known : List Weighing} {i : Nat} {s : Struct} (hd : (structs.map Struct.name).Nodup)
    (hi : structs[i]? = some s) (hu : known[i]? = some .untouched)
    (hk : Consistent structs entered known)
    (hw : ∀ f ∈ s.fields, ∀ r, f.ty.embedded = some r → ∀ known,
      Consistent structs (i :: entered) known →
      Meets (Weighed structs (i :: entered) known r.name) (Blames structs) (weigh known r)) :
    Meets (fun w known' => Weighed structs entered known s.name w known' ∧
        known'[i]? = some (.finished w))
      (Blames structs) (fresh weigh known i s) := by
  have hs := List.mem_of_getElem? hi
  have hm : i ∉ entered := by
    rw [← hk.underway i, hu]
    simp
  have hf := fields_spec ⟨s.location, .weightOverflow s.name⟩ hw (show 0 < wordLimit by decide)
    (hk.enter hu)
  rw [fresh]
  cases hres : fields weigh ⟨s.location, .weightOverflow s.name⟩ s.fields 0
      (known.set i .underway) with
  | error e =>
    rw [hres] at hf
    rcases hf with hb | ⟨rfl, ho⟩
    · exact hb
    · refine .inr ⟨s, hs, rfl, fun weight hwt hfit => ?_⟩
      have hle := ho weight hwt
      simp only [Struct.WeightFits, Struct.load, Struct.partNames] at hfit
      omega
  | ok result =>
    obtain ⟨total, known'⟩ := result
    rw [hres] at hf
    obtain ⟨hk', he, ha, htotal, hsum⟩ := hf
    have hacc := acc_of_parts hd hs ha
    have hl : ∀ weight, Weighting structs weight → s.load weight = total := by
      intro weight hwt
      rw [hsum weight hwt, Nat.zero_add]
      rfl
    have hset := settled_of_load hs hacc hl
    dsimp only
    by_cases hinc : s.included = true
    · simp only [if_pos hinc, Nat.add_zero] at hset ⊢
      exact weighed_finish hi hu hm hk' he (hset htotal)
    · simp only [if_neg hinc] at hset ⊢
      cases hf : fits? (total + 1) with
      | none =>
        refine .inr ⟨s, hs, rfl, fun weight hwt hfit => ?_⟩
        rw [Struct.WeightFits, if_neg hinc, hl weight hwt] at hfit
        exact absurd hfit (Nat.not_lt.mpr (fits?_eq_none.mp hf))
      | some w =>
        obtain ⟨hlt, rfl⟩ := fits?_eq_some.mp hf
        exact weighed_finish hi hu hm hk' he (hset hlt)

theorem struct_touched {depth : Nat} {entered : List Nat} {known : List Weighing} {i : Nat}
    {s : Struct} (hi : structs[i]? = some s) (hk : Consistent structs entered known)
    (hu : Dependency.Underway (Contains structs) (structs.map Struct.name) depth entered [s.name])
    (hne : known[i]? ≠ some .untouched) :
    Meets (fun w known' => Weighed structs entered known s.name w known' ∧
        known'[i]? = some (.finished w))
      (Blames structs) (struct structs depth known i s) := by
  cases hki : known[i]? with
  | none =>
    rw [List.getElem?_eq_none_iff] at hki
    exact absurd (hk.lt_length hi) (Nat.not_lt.mpr hki)
  | some k =>
    rw [struct.eq_def]
    simp only [hki, Option.getD_some]
    cases k with
    | untouched => exact absurd hki hne
    | underway =>
      obtain ⟨y, hy, hdep⟩ := hu.depends i ((hk.underway i).mp hki)
      rw [List.getElem?_map, hi, Option.map_some] at hy
      cases hy
      exact .inl ⟨s, List.mem_of_getElem? hi, rfl, hdep s.name (List.mem_singleton_self _)⟩
    | finished w =>
      obtain ⟨ha, hv⟩ := hk.finished i s w hi hki
      exact ⟨⟨hk, fun _ _ h => h, ha, fun weight hwt => (hv weight hwt).2⟩, hki⟩

/-- Weighing a struct gives its weight or a failure that is justified. The structs underway
depend on the one that is weighed, so meeting one of them closes a cycle. -/
theorem struct_spec (hd : (structs.map Struct.name).Nodup) (hb : PartsBound structs)
    {depth : Nat} {entered : List Nat} {known : List Weighing} {i : Nat} {s : Struct}
    (hi : structs[i]? = some s) (hk : Consistent structs entered known)
    (hu : Dependency.Underway (Contains structs) (structs.map Struct.name) depth entered
      [s.name]) :
    Meets (fun w known' => Weighed structs entered known s.name w known' ∧
        known'[i]? = some (.finished w))
      (Blames structs) (struct structs depth known i s) := by
  induction depth generalizing entered known i s with
  | zero =>
    -- all structs are underway, so this one has been touched
    refine struct_touched hi hk hu fun hki => ?_
    have hm : i ∉ entered := fun h => by rw [← hk.underway i, hki] at h; cases h
    exact absurd (hu.depth_pos (Struct.get_elem?_name hi) hm) (Nat.lt_irrefl 0)
  | succ depth ih =>
    by_cases hki : known[i]? = some .untouched
    · have hm : i ∉ entered := fun h => by rw [← hk.underway i, hki] at h; cases h
      rw [struct, hki, Option.getD_some]
      refine fresh_spec hd hi hki hk fun f hf r hr known' hk' => ?_
      have hs := List.mem_of_getElem? hi
      obtain ⟨j, t, hj, ht, hn, hc⟩ := hb.exists_part hs hf hr
      have htarget : target? structs r = some (j, t) := by
        rw [target?, hj, Option.bind_some, ht, Option.map_some]
      have hu' := hu.enter (Struct.get_elem?_name hi) (List.mem_singleton_self _) hm
        (List.forall_mem_singleton.mpr hc)
      rw [htarget, ← hn]
      exact (ih ht hk' hu').mono (fun _ _ h => h.1) fun _ h => h
    · exact struct_touched hi hk hu hki

theorem all_spec (hd : (structs.map Struct.name).Nodup) (hb : PartsBound structs)
    {rest : List (Struct × Nat)} (hr : ∀ x ∈ rest, structs[x.2]? = some x.1)
    {known : List Weighing} (hk : Consistent structs [] known) :
    match all structs rest known with
    | .error e => Blames structs e
    | .ok known' => Consistent structs [] known' ∧ Extends known known' ∧
      ∀ x ∈ rest, ∃ w, known'[x.2]? = some (.finished w) := by
  induction rest generalizing known with
  | nil => exact ⟨hk, fun _ _ h => h, by simp⟩
  | cons x rest ih =>
    obtain ⟨s, i⟩ := x
    obtain ⟨hi, hr'⟩ := List.forall_mem_cons.mp hr
    have hu := Dependency.Underway.nothing_entered (Contains structs) (structs.map Struct.name)
      [s.name]
    rw [List.length_map] at hu
    have hstep := struct_spec hd hb hi hk hu
    rw [all]
    cases hres : struct structs structs.length known i s with
    | error e =>
      rw [hres] at hstep
      exact hstep
    | ok result =>
      obtain ⟨w, known'⟩ := result
      rw [hres] at hstep
      obtain ⟨⟨hk', he, _, _⟩, hw⟩ := hstep
      have hrest := ih hr' hk'
      dsimp only
      cases hall : all structs rest known' with
      | error e =>
        rw [hall] at hrest
        exact hrest
      | ok known'' =>
        rw [hall] at hrest
        obtain ⟨hk'', he', hf⟩ := hrest
        exact ⟨hk'', he.trans he', List.forall_mem_cons.mpr ⟨⟨w, he' i w hw⟩, hf⟩⟩

theorem consistent_start (structs : List Struct) :
    Consistent structs [] (List.replicate structs.length .untouched) where
  length := List.length_replicate
  underway i := by simp [List.getElem?_replicate]
  finished i s w _ hw := by
    rw [List.getElem?_replicate] at hw
    split_ifs at hw
    cases hw

end Weighing

namespace CompilationUnit

variable {u : CompilationUnit}

theorem weights_spec (hd : (u.structs.map Struct.name).Nodup) (hb : PartsBound u.structs) :
    match u.weights with
    | .error e => Weighing.Blames u.structs e
    | .ok ws => (∀ s ∈ u.structs, Acc (Contains u.structs) s.name) ∧
      ∀ weight, Weighting u.structs weight →
        (∀ s ∈ u.structs, s.WeightFits weight) ∧ ws = u.structs.map fun s => weight s.name := by
  have hall := Weighing.all_spec hd hb
    (fun x hx => List.mem_zipIdx_iff_getElem?.mp hx) (Weighing.consistent_start u.structs)
  rw [weights]
  cases hres : Weighing.all u.structs u.structs.zipIdx
      (List.replicate u.structs.length .untouched) with
  | error e =>
    rw [hres] at hall
    exact hall
  | ok known =>
    rw [hres] at hall
    obtain ⟨hk, _, hf⟩ := hall
    have hset : ∀ (i : Nat) s, u.structs[i]? = some s →
        ∃ w, known[i]? = some (.finished w) ∧ Weighing.Settled u.structs s w := by
      intro i s hi
      obtain ⟨w, hw⟩ := hf (s, i) (List.mem_zipIdx_iff_getElem?.mpr hi)
      exact ⟨w, hw, hk.finished i s w hi hw⟩
    have hmem : ∀ s ∈ u.structs, ∃ w, Weighing.Settled u.structs s w := by
      intro s hs
      obtain ⟨i, hi⟩ := List.mem_iff_getElem?.mp hs
      obtain ⟨w, _, h⟩ := hset i s hi
      exact ⟨w, h⟩
    refine ⟨fun s hs => ?_, fun weight hwt => ⟨fun s hs => ?_, ?_⟩⟩
    · obtain ⟨w, h⟩ := hmem s hs
      exact h.1
    · obtain ⟨w, h⟩ := hmem s hs
      exact (h.2 weight hwt).1
    · apply List.ext_getElem?
      intro i
      rw [List.getElem?_map, List.getElem?_map]
      cases hi : u.structs[i]? with
      | none =>
        rw [List.getElem?_eq_none_iff, ← hk.length] at hi
        rw [List.getElem?_eq_none_iff.mpr hi]
        rfl
      | some s =>
        obtain ⟨w, hw, h⟩ := hset i s hi
        rw [hw, Option.map_some, Option.map_some, ← (h.2 weight hwt).2]
        rfl

theorem exists_weights (hd : (u.structs.map Struct.name).Nodup) (hb : PartsBound u.structs) :
    (∃ ws, u.weights = .ok ws) ↔ Dependency.Acyclic (Contains u.structs) ∧
      ∃ weight, Weighting u.structs weight ∧ ∀ s ∈ u.structs, s.WeightFits weight := by
  have hspec := weights_spec hd hb
  have hp := hb.defined
  constructor
  · rintro ⟨ws, hws⟩
    rw [hws] at hspec
    obtain ⟨hacc, hfit⟩ := hspec
    have ha : Dependency.Acyclic (Contains u.structs) := by
      intro a haa
      obtain ⟨b, ⟨s, hs, _, hpart⟩, _⟩ := TransGen.head'_iff.mp haa
      obtain ⟨t, ht, rfl⟩ := List.mem_map.mp (hp s hs a hpart)
      exact Dependency.not_trans_gen_self (hacc t ht) haa
    obtain ⟨weight, hwt⟩ := exists_assigns hd (contains_well_founded hp ha)
      Struct.weight_from_from_parts
    exact ⟨ha, weight, hwt, (hfit weight hwt).1⟩
  · rintro ⟨ha, weight, hwt, hfit⟩
    cases hws : u.weights with
    | ok ws => exact ⟨ws, rfl⟩
    | error e =>
      rw [hws] at hspec
      rcases hspec with ⟨s, _, _, hc⟩ | ⟨s, hs, _, ho⟩
      · exact absurd hc (ha s.name)
      · exact absurd (hfit s hs) (ho weight hwt)

end CompilationUnit

end DataLayout
