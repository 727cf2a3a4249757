import DataLayout.Resolution.Error
import Mathlib.Data.List.Nodup

/-!
# Steps that may stop

A sequence of steps succeeds when each of them does, and then nothing but their results is left.
-/

set_option autoImplicit false

namespace DataLayout

theorem first_repeat?_eq_none {α : Type} (key : α → String) (as : List α) (seen : List String) :
    firstRepeat? key as seen = none ↔ (as.map key).Nodup ∧ ∀ a ∈ as, key a ∉ seen := by
  induction as generalizing seen with
  | nil => simp [firstRepeat?]
  | cons a as ih =>
    rw [firstRepeat?]
    split_ifs with h
    · simp [h]
    · rw [ih, List.forall_mem_cons]
      simp only [List.map_cons, List.nodup_cons, List.mem_map, List.mem_cons, not_or]
      constructor
      · rintro ⟨hd, hs⟩
        exact ⟨⟨fun ⟨b, hb, hk⟩ => (hs b hb).1 hk, hd⟩, h, fun b hb => (hs b hb).2⟩
      · rintro ⟨⟨ha, hd⟩, _, hs⟩
        exact ⟨hd, fun b hb => ⟨fun hk => ha ⟨b, hb, hk⟩, hs b hb⟩⟩

theorem except_map_eq_ok {ε α β : Type} {x : Except ε α} {f : α → β} {b : β} :
    x.map f = .ok b ↔ ∃ a, x = .ok a ∧ f a = b := by
  cases x <;> simp [Except.map]

theorem except_bind_eq_ok {ε α β : Type} {x : Except ε α} {f : α → Except ε β} {b : β} :
    x >>= f = .ok b ↔ ∃ a, x = .ok a ∧ f a = .ok b := by
  cases x <;> simp [bind, Except.bind]

theorem except_to_option_eq_some {ε α : Type} {x : Except ε α} {a : α} :
    x.toOption = some a ↔ x = .ok a := by
  cases x <;> simp [Except.toOption]

namespace Progress

variable {α β : Type}

@[simp] theorem done_failure (a : α) : (done a).failure = none := rfl

@[simp] theorem done_state (a : α) : (done a).state = a := rfl

@[simp] theorem stopped_failure (a : α) (f : ResolveFailure) : (stopped a f).failure = some f := rfl

@[simp] theorem map_failure (f : α → β) (p : Progress α) : (p.map f).failure = p.failure := rfl

@[simp] theorem map_state (f : α → β) (p : Progress α) : (p.map f).state = f p.state := rfl

theorem eq_done {p : Progress α} (h : p.failure = none) : p = done p.state := by
  rw [done, ← h]

theorem and_then_of_failure_eq_none {p : Progress α} (h : p.failure = none)
    (f : α → Progress α) : p.andThen f = f p.state := by
  rw [andThen, h]

theorem and_then_failure {p : Progress α} {f : α → Progress α} :
    (p.andThen f).failure = none ↔ p.failure = none ∧ (f p.state).failure = none := by
  cases h : p.failure with
  | none => simp [andThen, h]
  | some e => simp [andThen, h]

theorem of_except_failure {a : α} {r : Except ResolveFailure α} :
    (ofExcept a r).failure = none ↔ ∃ b, r = .ok b := by
  cases r <;> simp [ofExcept]

theorem list_failure {f : α → Progress α} {as : List α} :
    (list f as).failure = none ↔ ∀ a ∈ as, (f a).failure = none := by
  induction as with
  | nil => simp [list]
  | cons a as ih =>
    rw [list, List.forall_mem_cons, ← ih]
    split
    · next b e h => simp [h]
    · next b h => simp [h]

theorem list_state {f : α → Progress α} {as : List α} (h : (list f as).failure = none) :
    (list f as).state = as.map fun a => (f a).state := by
  induction as with
  | nil => rfl
  | cons a as ih =>
    rw [list] at h ⊢
    split at h
    · next b e hf => cases h
    · next b hf =>
      rw [map_state, List.map_cons, hf, ih h]

end Progress

end DataLayout
