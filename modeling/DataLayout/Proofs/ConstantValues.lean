import DataLayout.Proofs.ConstantMeaning
import DataLayout.Proofs.Progress
import DataLayout.Resolution

/-!
# The values of constants

Evaluation follows names through their definitions and keeps the positions of the definitions
it is in the middle of. It finds the values of exactly the sets of constants that have a
meaning, and the values it finds are those that satisfy the definitions.
-/

set_option autoImplicit false

namespace DataLayout
open Relation

namespace Constant

variable {constants : List Constant}

theorem get_elem?_of_index {x : String} {i : Nat} {c : Constant}
    (h : (index constants)[x]? = some (i, c)) : constants[i]? = some c ∧ c.name = x := by
  rw [index_get_elem?, Option.map_eq_some_iff] at h
  obtain ⟨⟨c', j⟩, hf, heq⟩ := h
  injection heq with hj hc
  subst hj hc
  have hm := List.mem_zipIdx_iff_getElem?.mp (List.mem_of_find?_eq_some hf)
  exact ⟨hm, by simpa using List.find?_some hf⟩

theorem exists_index (hd : (constants.map Constant.name).Nodup) {c : Constant}
    (hc : c ∈ constants) : ∃ i, (index constants)[c.name]? = some (i, c) := by
  obtain ⟨i, hi⟩ := List.mem_iff_getElem?.mp hc
  have hs : (constants.zipIdx.find? (·.1.name == c.name)).isSome := by
    rw [List.find?_isSome]
    exact ⟨(c, i), List.mem_zipIdx_iff_getElem?.mpr hi, by simp⟩
  obtain ⟨⟨c', j⟩, hf⟩ := Option.isSome_iff_exists.mp hs
  have hx : (index constants)[c.name]? = some (j, c') := by rw [index_get_elem?, hf]; rfl
  have h := get_elem?_of_index hx
  exact ⟨j, eq_of_name hd (List.mem_of_getElem? h.1) hc h.2 ▸ hx⟩

theorem evaluates_of_value {name : Location → String → Except ResolveFailure Int64}
    (hn : ∀ loc x v, name loc x = .ok v →
      ∃ c ∈ constants, c.name = x ∧ Evaluates constants c.expr v.toInt)
    {e : Expr} {v : Int64} (h : e.value (Located.map .arithmetic) name = .ok v) :
    Evaluates constants e v.toInt := by
  induction e generalizing v with
  | literal loc w =>
    cases h
    exact .literal loc w
  | constant loc x =>
    obtain ⟨c, hc, rfl, hv⟩ := hn loc x v h
    exact .constant loc hc hv
  | unary loc op e ih =>
    rw [Expr.value] at h
    split at h
    · cases h
    · next w hw =>
      cases h
      rw [op.to_int_apply]
      exact .unary loc op (ih hw)
  | binary loc op l r ihl ihr =>
    rw [Expr.value] at h
    split at h
    · cases h
    · next a ha =>
      split at h
      · cases h
      · next b hb =>
        split at h
        · cases h
        · next w hw =>
          cases h
          obtain ⟨hd, hm⟩ := BinaryOp.apply_eq_ok.mp hw
          rw [hm]
          exact .binary loc op (ihl ha) (ihr hb) hd

theorem evaluates_of_value_of {depth : Nat} {underway : List Nat} {loc : Location} {x : String}
    {v : Int64} (h : valueOf (index constants) depth underway loc x = .ok v) :
    ∃ c ∈ constants, c.name = x ∧ Evaluates constants c.expr v.toInt := by
  induction depth generalizing underway loc x v with
  | zero =>
    rw [valueOf] at h
    split at h
    · cases h
    · split at h <;> cases h
  | succ depth ih =>
    rw [valueOf] at h
    split at h
    · cases h
    · next i c hi =>
      obtain ⟨hc, hn⟩ := get_elem?_of_index hi
      split at h
      · cases h
      · exact ⟨c, List.mem_of_getElem? hc, hn, evaluates_of_value (fun _ _ _ => ih) h⟩

theorem named_of_index {x : String} {i : Nat} {c : Constant}
    (h : (index constants)[x]? = some (i, c)) :
    (constants.map Constant.name)[i]? = some c.name := by
  rw [List.getElem?_map, (get_elem?_of_index h).1, Option.map_some]

/-- An expression that has a value is evaluated to it. No definition underway is come back to,
since that would make a name depend on itself. -/
theorem value_of_evaluates (hd : (constants.map Constant.name).Nodup)
    (ha : Dependency.Acyclic (UsedBy constants)) {e : Expr} {v : Int}
    (hv : Evaluates constants e v) {depth : Nat} {underway : List Nat}
    (hu : Dependency.Underway (UsedBy constants) (constants.map Constant.name) depth underway
      e.names) :
    ∃ w : Int64, e.value (Located.map .arithmetic) (valueOf (index constants) depth underway) =
      .ok w ∧ w.toInt = v := by
  induction hv generalizing depth underway with
  | literal loc v => exact ⟨v, rfl, rfl⟩
  | @constant loc c v hc _ ih =>
    have hx : c.name ∈ (Expr.constant loc c.name).names := List.mem_singleton_self _
    obtain ⟨i, hi⟩ := exists_index hd hc
    have hci := named_of_index hi
    have hm := hu.not_mem ha hci hx
    obtain ⟨depth, rfl⟩ := Nat.exists_eq_succ_of_ne_zero (hu.depth_pos hci hm).ne'
    obtain ⟨w, hw, hwv⟩ := ih (hu.enter hci hx hm fun z hz => ⟨c, hc, rfl, hz⟩)
    refine ⟨w, ?_, hwv⟩
    have hany : underway.any (· == i) = false := by
      rw [List.any_eq_false]
      intro j hj hji
      exact hm (eq_of_beq hji ▸ hj)
    rw [Expr.value, valueOf, hi]
    simp only [hany]
    exact hw
  | unary loc op _ ih =>
    obtain ⟨w, hw, rfl⟩ := ih hu
    exact ⟨op.apply w, by rw [Expr.value, hw], op.to_int_apply w⟩
  | binary loc op _ _ hdef ihl ihr =>
    obtain ⟨a, ha', rfl⟩ := ihl (hu.subset (List.subset_append_left _ _))
    obtain ⟨b, hb, rfl⟩ := ihr (hu.subset (List.subset_append_right _ _))
    obtain ⟨w, hw⟩ := BinaryOp.exists_apply_eq_ok hdef
    refine ⟨w, ?_, (BinaryOp.apply_eq_ok.mp hw).2⟩
    rw [Expr.value, ha', hb]
    simp only [hw]

theorem underway_start {i : Nat} {c : Constant} (hi : constants[i]? = some c) :
    Dependency.Underway (UsedBy constants) (constants.map Constant.name) constants.length [i]
      c.expr.names where
  distinct := List.nodup_singleton i
  room := by simp
  depends j hj := by
    rw [List.mem_singleton.mp hj, List.getElem?_map, hi]
    exact ⟨c.name, rfl, fun x hx => .single ⟨c, List.mem_of_getElem? hi, rfl, hx⟩⟩

theorem exists_values_from {index : Index} {depth i : Nat} {cs : List Constant} :
    (∃ vs, valuesFrom index depth i cs = .ok vs) ↔ ∀ c ∈ cs.zipIdx i,
      ∃ w, c.1.expr.value (Located.map .arithmetic) (valueOf index depth [c.2]) = .ok w := by
  induction cs generalizing i with
  | nil => simp [valuesFrom]
  | cons c cs ih =>
    rw [List.zipIdx_cons, List.forall_mem_cons, ← ih, valuesFrom]
    cases c.expr.value (Located.map .arithmetic) (valueOf index depth [i]) with
    | error f => simp
    | ok v => cases valuesFrom index depth (i + 1) cs <;> simp

theorem values_from_to_int {depth i : Nat} {cs : List Constant} {vs : List (Nat × Int64)}
    {values : String → Int} (hs : Satisfied constants values) (hc : cs ⊆ constants)
    (h : valuesFrom (index constants) depth i cs = .ok vs) :
    vs.map (fun v => (v.1, v.2.toInt)) = (cs.zipIdx i).map fun c => (c.2, values c.1.name) := by
  induction cs generalizing i vs with
  | nil =>
    cases h
    rfl
  | cons c cs ih =>
    rw [valuesFrom] at h
    split at h
    · cases h
    · next v hv =>
      split at h
      · cases h
      · next ws hws =>
        cases h
        obtain ⟨hc₁, hc₂⟩ := List.cons_subset.mp hc
        have he := evaluates_of_value (fun _ _ _ => evaluates_of_value_of) hv
        rw [List.zipIdx_cons, List.map_cons, List.map_cons, ih hc₂ hws,
          value_of_satisfied hs hc₁ he]

theorem values_eq_ok {vs : List (Nat × Int64)} : values constants = .ok vs ↔
    (constants.map Constant.name).Nodup ∧
      valuesFrom (index constants) constants.length 0 constants = .ok vs := by
  have hr := first_repeat?_eq_none Constant.name constants []
  rw [values]
  split
  · next c hc => simp_all
  · next hc => simp_all

theorem values_to_int {vs : List (Nat × Int64)} {values : String → Int}
    (hs : Satisfied constants values) (h : Constant.values constants = .ok vs) :
    vs.map (fun v => (v.1, v.2.toInt)) = constants.zipIdx.map fun c => (c.2, values c.1.name) :=
  values_from_to_int hs (List.Subset.refl _) (values_eq_ok.mp h).2

theorem exists_values : (∃ vs, values constants = .ok vs) ↔ Meaningful constants := by
  constructor
  · rintro ⟨vs, h⟩
    obtain ⟨hd, hv⟩ := values_eq_ok.mp h
    refine meaningful_of_evaluates hd fun c hc => ?_
    obtain ⟨i, hi⟩ := List.mem_iff_getElem?.mp hc
    obtain ⟨w, hw⟩ := exists_values_from.mp ⟨vs, hv⟩ (c, i) (List.mem_zipIdx_iff_getElem?.mpr hi)
    exact ⟨_, evaluates_of_value (fun _ _ _ => evaluates_of_value_of) hw⟩
  · intro h
    have hv : ∀ c ∈ constants.zipIdx, ∃ w, c.1.expr.value (Located.map .arithmetic)
        (valueOf (index constants) constants.length [c.2]) = .ok w := by
      intro c hc
      have hi := List.mem_zipIdx_iff_getElem?.mp hc
      obtain ⟨v, hv⟩ := h.evaluates c.1 (List.mem_of_getElem? hi)
      obtain ⟨w, hw, _⟩ := value_of_evaluates h.distinct h.acyclic hv (underway_start hi)
      exact ⟨w, hw⟩
    obtain ⟨vs, hvs⟩ := exists_values_from.mpr hv
    exact ⟨vs, values_eq_ok.mpr ⟨h.distinct, hvs⟩⟩

end Constant

namespace CompilationUnit

theorem resolve_constants_failure {u : CompilationUnit} :
    u.resolveConstants.failure = none ↔ ∃ vs, Constant.values u.constants = .ok vs := by
  rw [resolveConstants, Progress.of_except_failure]
  simp [except_map_eq_ok]

theorem resolve_constants_state {u : CompilationUnit} {vs : List (Nat × Int64)}
    (h : Constant.values u.constants = .ok vs) :
    u.resolveConstants.state = { u with values := vs } := by
  rw [resolveConstants, h]
  rfl

theorem constant_value?_to_int {u : CompilationUnit} {values : String → Int}
    (hs : Constant.Satisfied u.constants values)
    (hv : Constant.values u.constants = .ok u.values) {c : Constant} (hc : c ∈ u.constants) :
    ∃ x, u.constantValue? c.name = some x ∧ x.toInt = values c.name := by
  have hall := Constant.values_to_int hs hv
  obtain ⟨i, hi⟩ := List.mem_iff_getElem?.mp hc
  have hlisted : (i, values c.name) ∈ u.values.map fun v => (v.1, v.2.toInt) := by
    rw [hall]
    exact List.mem_map.mpr ⟨(c, i), List.mem_zipIdx_iff_getElem?.mpr hi, rfl⟩
  obtain ⟨⟨j, x⟩, hx, hjx⟩ := List.mem_map.mp hlisted
  have hsome : (u.values.find? fun v => (u.constants[v.1]?).any (·.name == c.name)).isSome := by
    obtain rfl : j = i := congrArg Prod.fst hjx
    exact List.find?_isSome.mpr ⟨(j, x), hx, by simp [hi]⟩
  obtain ⟨⟨k, y⟩, hf⟩ := Option.isSome_iff_exists.mp hsome
  refine ⟨y, by rw [constantValue?, hf, Option.map_some], ?_⟩
  have hy : (k, y.toInt) ∈ u.values.map fun v => (v.1, v.2.toInt) :=
    List.mem_map.mpr ⟨(k, y), List.mem_of_find?_eq_some hf, rfl⟩
  rw [hall] at hy
  obtain ⟨⟨c', l⟩, hc', hkl⟩ := List.mem_map.mp hy
  obtain ⟨hlk, hvalue⟩ := Prod.mk.inj hkl
  have hfound := List.find?_some hf
  rw [show k = l from hlk.symm, List.mem_zipIdx_iff_getElem?.mp hc'] at hfound
  have hn : c'.name = c.name := by simpa using hfound
  rw [← hn]
  exact hvalue.symm

/-- Evaluation accepts exactly the sets of constants that have a meaning, and lists, for each
constant in order, the value it has under the only values that satisfy all definitions. -/
theorem resolve_constants_exact (u : CompilationUnit) :
    (u.resolveConstants.failure = none ↔ Constant.Meaningful u.constants) ∧
    (u.resolveConstants.failure = none → ∃ values : String → Int,
      Constant.Satisfied u.constants values ∧
      (∀ values', Constant.Satisfied u.constants values' →
        ∀ c ∈ u.constants, values' c.name = values c.name) ∧
      u.resolveConstants.state.values.map (fun v => (v.1, v.2.toInt)) =
        u.constants.zipIdx.map fun c => (c.2, values c.1.name)) := by
  refine ⟨resolve_constants_failure.trans Constant.exists_values, fun h => ?_⟩
  obtain ⟨vs, hvs⟩ := resolve_constants_failure.mp h
  have hm := Constant.exists_values.mp ⟨vs, hvs⟩
  obtain ⟨values, hs⟩ := Constant.exists_satisfied hm.distinct hm.evaluates
  refine ⟨values, hs, fun values' hs' c hc => ?_, ?_⟩
  · obtain ⟨v, hv⟩ := hm.evaluates c hc
    rw [Constant.value_of_satisfied hs hc hv, Constant.value_of_satisfied hs' hc hv]
  · rw [resolve_constants_state hvs]
    exact Constant.values_to_int hs hvs

end CompilationUnit

end DataLayout
