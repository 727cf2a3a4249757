import DataLayout.Alignment
import Mathlib.Order.Bounds.Basic
import Mathlib.Tactic.Linarith

/-!
# Numbers that fit in a word

Rounding up to a multiple gives the least multiple that is not smaller. Doing it in words gives
the same number whenever that number fits, although a larger one is formed on the way.
-/

set_option autoImplicit false

namespace DataLayout

theorem not_of_eq_none {α : Type} {result : Option α} {P : Prop} {value : α}
    (h : ∀ a, result = some a ↔ P ∧ value = a) (hn : result = none) : ¬ P := by
  intro hp
  rw [(h value).mpr ⟨hp, rfl⟩] at hn
  cases hn

theorem fits?_eq_some {n m : Nat} : fits? n = some m ↔ n < wordLimit ∧ n = m := by
  rw [fits?]
  split_ifs with h
  · simp [h]
  · simp [h]

theorem fits?_eq_none {n : Nat} : fits? n = none ↔ wordLimit ≤ n := by
  rw [fits?]
  split_ifs with h
  · simpa using h
  · simpa using h

def roundUp (value alignment : Nat) : Nat := (value + (alignment - 1)) / alignment * alignment

variable {value alignment : Nat}

theorem dvd_round_up (value alignment : Nat) : alignment ∣ roundUp value alignment :=
  Nat.dvd_mul_left _ _

theorem le_round_up (ha : 0 < alignment) : value ≤ roundUp value alignment := by
  have h := Nat.lt_div_mul_add (a := value + (alignment - 1)) ha
  rw [roundUp]
  omega

theorem round_up_le (ha : 0 < alignment) {multiple : Nat} (hd : alignment ∣ multiple)
    (h : value ≤ multiple) : roundUp value alignment ≤ multiple := by
  obtain ⟨k, rfl⟩ := hd
  have hk : (value + (alignment - 1)) / alignment < k + 1 := by
    rw [Nat.div_lt_iff_lt_mul ha, Nat.succ_mul, Nat.mul_comm k]
    omega
  rw [roundUp, Nat.mul_comm alignment]
  exact Nat.mul_le_mul_right _ (Nat.lt_succ_iff.mp hk)

theorem is_least_round_up (ha : 0 < alignment) (value : Nat) :
    IsLeast {multiple | alignment ∣ multiple ∧ value ≤ multiple} (roundUp value alignment) :=
  ⟨⟨dvd_round_up value alignment, le_round_up ha⟩, fun _ hm => round_up_le ha hm.1 hm.2⟩

/-- The limit of a word is a multiple of the alignment, so the sum formed on the way to a multiple
fits exactly when the multiple does. -/
theorem add_lt_word_limit (hd : alignment ∣ wordLimit) :
    value + (alignment - 1) < wordLimit ↔ roundUp value alignment < wordLimit := by
  constructor
  · exact Nat.lt_of_le_of_lt (Nat.div_mul_le_self _ _)
  · intro h
    by_contra hn
    have hle := Nat.div_le_div_right (c := alignment) (Nat.not_lt.mp hn)
    have hmul := Nat.mul_le_mul_right alignment hle
    rw [Nat.div_mul_cancel hd] at hmul
    exact absurd h (Nat.not_lt.mpr hmul)

theorem align_up_eq_some (hd : alignment ∣ wordLimit) (value n : Nat) :
    alignUp value alignment = some n ↔
      roundUp value alignment < wordLimit ∧ roundUp value alignment = n := by
  rw [alignUp, Option.map_eq_some_iff, ← add_lt_word_limit hd]
  simp only [fits?_eq_some]
  constructor
  · rintro ⟨_, ⟨h, rfl⟩, hn⟩
    exact ⟨h, hn⟩
  · rintro ⟨h, hn⟩
    exact ⟨_, ⟨h, rfl⟩, hn⟩

end DataLayout
