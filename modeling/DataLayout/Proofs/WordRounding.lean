import DataLayout.Proofs.Words

/-!
# Rounding up in words

An alignment is a power of two, so a word is rounded down to a multiple of it by clearing its low
bits. With the mask of these bits added first, a word is rounded up. The sum leaves the word exactly
when the multiple that is looked for does.
-/

set_option autoImplicit false

namespace DataLayout

section Masks

variable {alignment : UInt64} {k : Nat}

theorem exponent_lt (h : alignment.toNat = 2 ^ k) : k < 64 :=
  (Nat.pow_lt_pow_iff_right (by decide)).mp (h ▸ alignment.toNat_lt)

theorem dvd_word_limit_of_is_power_of_two (h : alignment.toNat.isPowerOfTwo) :
    alignment.toNat ∣ wordLimit := by
  obtain ⟨k, hk⟩ := h
  rw [hk]
  exact Nat.pow_dvd_pow 2 (Nat.le_of_lt (exponent_lt hk))

theorem to_nat_mask (h : 0 < alignment.toNat) :
    (alignment - 1).toNat = alignment.toNat - 1 :=
  UInt64.toNat_sub_of_le _ _ (UInt64.le_iff_toNat_le.mpr h)

theorem test_bit_not_mask (h : alignment.toNat = 2 ^ k) (i : Nat) :
    (~~~(alignment - 1)).toNat.testBit i = (decide (i < 64) && !decide (i < k)) := by
  have hmask := to_nat_mask (h ▸ Nat.two_pow_pos k)
  have hfits : 2 ^ k - 1 < 2 ^ 64 := h ▸ hmask ▸ (alignment - 1).toNat_lt
  have hnot : (~~~(alignment - 1)).toNat = 2 ^ 64 - (2 ^ k - 1 + 1) := by
    rw [UInt64.toNat_not, hmask, h, UInt64.size]
    omega
  rw [hnot, Nat.testBit_two_pow_sub_succ hfits, Nat.testBit_two_pow_sub_one]

theorem to_nat_and_not_mask (h : alignment.toNat.isPowerOfTwo) (word : UInt64) :
    (word &&& ~~~(alignment - 1)).toNat = word.toNat / alignment.toNat * alignment.toNat := by
  obtain ⟨k, hk⟩ := h
  apply Nat.eq_of_testBit_eq
  intro i
  rw [UInt64.toNat_and, Nat.testBit_and, test_bit_not_mask hk, hk, Nat.mul_comm,
    Nat.testBit_two_pow_mul, Nat.testBit_div_two_pow]
  by_cases hi : i < k
  · simp [hi, Nat.not_le.mpr hi]
  · have hk' : k ≤ i := Nat.not_lt.mp hi
    rw [Nat.sub_add_cancel hk']
    by_cases hword : i < 64
    · simp [hk', hword]
    · have hbit : word.toNat.testBit i = false := Nat.testBit_lt_two_pow
        (Nat.lt_of_lt_of_le word.toNat_lt (Nat.pow_le_pow_right (by decide) (Nat.not_lt.mp hword)))
      simp [hbit]

end Masks

section Multiples

variable {alignment : Nat}

theorem round_up_mono (ha : 0 < alignment) {value value' : Nat} (h : value ≤ value') :
    roundUp value alignment ≤ roundUp value' alignment :=
  round_up_le ha (dvd_round_up value' alignment) (h.trans (le_round_up ha))

theorem round_up_of_dvd (ha : 0 < alignment) {value : Nat} (h : alignment ∣ value) :
    roundUp value alignment = value :=
  Nat.le_antisymm (round_up_le ha h (Nat.le_refl value)) (le_round_up ha)

theorem align_up_eq_fits? (hd : alignment ∣ wordLimit) (value : Nat) :
    alignUp value alignment = fits? (roundUp value alignment) := by
  ext n
  rw [align_up_eq_some hd, fits?_eq_some]

end Multiples

/-- A word is rounded up to the least multiple of the alignment that is not below it, if this
multiple is a word, and to nothing otherwise. A greater word is not rounded to less, and a multiple
stays as it is. In words the multiple is found by adding the mask of the low bits and clearing
them. -/
theorem align_up_exact (value alignment : UInt64) (hpow : alignment.toNat.isPowerOfTwo) :
    (∃ least, IsLeast {multiple | alignment.toNat ∣ multiple ∧ value.toNat ≤ multiple} least ∧
      alignUp value.toNat alignment.toNat = if least < wordLimit then some least else none) ∧
    (∀ value' : UInt64, value ≤ value' → ∀ n', alignUp value'.toNat alignment.toNat = some n' →
      ∃ n ≤ n', alignUp value.toNat alignment.toNat = some n) ∧
    (∀ n, alignUp value.toNat alignment.toNat = some n → alignUp n alignment.toNat = some n) ∧
    alignUp value.toNat alignment.toNat =
      if value.toNat + (alignment - 1).toNat < wordLimit then
        some ((value + (alignment - 1)) &&& ~~~(alignment - 1)).toNat
      else none := by
  have hd := dvd_word_limit_of_is_power_of_two hpow
  have ha : 0 < alignment.toNat := Nat.pos_of_dvd_of_pos hd (by decide)
  refine ⟨⟨_, is_least_round_up ha value.toNat, align_up_eq_fits? hd _⟩, ?_, ?_, ?_⟩
  · intro value' hle n' hn'
    obtain ⟨hlimit, rfl⟩ := (align_up_eq_some hd _ _).mp hn'
    have hmono := round_up_mono ha (UInt64.le_iff_toNat_le.mp hle)
    exact ⟨_, hmono, (align_up_eq_some hd _ _).mpr ⟨Nat.lt_of_le_of_lt hmono hlimit, rfl⟩⟩
  · intro n hn
    obtain ⟨hlimit, rfl⟩ := (align_up_eq_some hd _ _).mp hn
    have hstays := round_up_of_dvd ha (dvd_round_up value.toNat alignment.toNat)
    exact (align_up_eq_some hd _ _).mpr ⟨hstays.symm ▸ hlimit, hstays⟩
  · rw [alignUp, fits?, to_nat_mask ha]
    split_ifs with hsum
    · have hadd : (value + (alignment - 1)).toNat = value.toNat + (alignment.toNat - 1) := by
        rw [UInt64.toNat_add, to_nat_mask ha]
        exact Nat.mod_eq_of_lt hsum
      rw [to_nat_and_not_mask hpow, hadd, Option.map_some]
    · rfl

theorem align_up_exact_greatest : (9223372036854775808 : UInt64).toNat.isPowerOfTwo ∧
    alignUp 9223372036854775807 9223372036854775808 = some 9223372036854775808 ∧
    alignUp 9223372036854775809 9223372036854775808 = none := by
  have hpow : (9223372036854775808 : UInt64).toNat.isPowerOfTwo := ⟨63, rfl⟩
  obtain ⟨_, _, _, hbelow⟩ := align_up_exact 9223372036854775807 9223372036854775808 hpow
  obtain ⟨_, _, _, habove⟩ := align_up_exact 9223372036854775809 9223372036854775808 hpow
  exact ⟨hpow, hbelow.trans (by decide), habove.trans (by decide)⟩

end DataLayout
