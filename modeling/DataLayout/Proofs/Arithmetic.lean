import DataLayout.Expr.Value
import Mathlib.Tactic.Positivity

/-!
# The meaning of the operators

Every operator is described by what it does to integers: the exact result, taken back into the
range of a signed 64-bit word. The operations on words are shown to do the same wherever they
are defined.
-/

set_option autoImplicit false

namespace DataLayout

/-- The number from `-2^63` up to `2^63 - 1` that agrees with `n` modulo `2^64`. -/
def wrap (n : Int) : Int := n.bmod 18446744073709551616

def UnaryOp.meaning : UnaryOp → Int → Int
  | .negate, v => wrap (-v)
  | .complement, v => -v - 1

namespace BinaryOp

/-- Division needs a divisor, a shift an operand that is not negative and a count below 64. -/
def Defined : BinaryOp → Int → Int → Prop
  | .add, _, _ | .sub, _, _ | .mul, _, _ => True
  | .div, _, r => r ≠ 0
  | .shiftLeft, l, r | .shiftRight, l, r => 0 ≤ l ∧ 0 ≤ r ∧ r ≤ 63

instance (op : BinaryOp) (l r : Int) : Decidable (op.Defined l r) :=
  match op with
  | .add | .sub | .mul => inferInstanceAs (Decidable True)
  | .div => inferInstanceAs (Decidable (r ≠ 0))
  | .shiftLeft | .shiftRight => inferInstanceAs (Decidable (0 ≤ l ∧ 0 ≤ r ∧ r ≤ 63))

def meaning : BinaryOp → Int → Int → Int
  | .add, l, r => wrap (l + r)
  | .sub, l, r => wrap (l - r)
  | .mul, l, r => wrap (l * r)
  | .div, l, r => wrap (l.tdiv r)
  | .shiftLeft, l, r => wrap (l * 2 ^ r.toNat)
  | .shiftRight, l, r => l.fdiv (2 ^ r.toNat)

end BinaryOp

theorem UnaryOp.to_int_apply (op : UnaryOp) (v : Int64) :
    (op.apply v).toInt = op.meaning v.toInt := by
  cases op with
  | negate => exact Int64.toInt_neg v
  | complement =>
    have h₁ := v.le_toInt
    have h₂ := v.toInt_lt
    rw [apply, Int64.toInt_not, meaning]
    exact Int.bmod_eq_of_le (by omega) (by omega)

namespace BinaryOp

theorem shift_count {r : Int64} (h₀ : 0 ≤ r.toInt) (h₁ : r.toInt ≤ 63) :
    (r.toBitVec.smod 64).toNat = r.toInt.toNat := by
  have hm : (r.toBitVec.smod 64).toInt = r.toInt := by
    rw [BitVec.toInt_smod, Int64.toInt_toBitVec]
    exact Int.fmod_eq_of_lt h₀ (by simpa using Int.lt_add_one_of_le h₁)
  have hn := BitVec.toInt_eq_toNat_cond (r.toBitVec.smod 64)
  rw [hm] at hn
  split at hn <;> omega

theorem to_int_shift_left {l r : Int64} (hl : 0 ≤ l.toInt) (h₀ : 0 ≤ r.toInt)
    (h₁ : r.toInt ≤ 63) : (l <<< r).toInt = wrap (l.toInt * 2 ^ r.toInt.toNat) := by
  have hn : (l.toBitVec.toNat : Int) = l.toInt := by
    have h := BitVec.toInt_eq_toNat_cond l.toBitVec
    rw [Int64.toInt_toBitVec] at h
    split at h <;> omega
  rw [← Int64.toInt_toBitVec, Int64.toBitVec_shiftLeft, BitVec.shiftLeft_eq', shift_count h₀ h₁,
    BitVec.toInt_shiftLeft, Nat.shiftLeft_eq, Nat.cast_mul, hn]
  simp [wrap]

theorem to_int_shift_right {l r : Int64} (h₀ : 0 ≤ r.toInt) (h₁ : r.toInt ≤ 63) :
    (l >>> r).toInt = l.toInt.fdiv (2 ^ r.toInt.toNat) := by
  rw [← Int64.toInt_toBitVec, Int64.toBitVec_shiftRight, BitVec.sshiftRight_eq',
    shift_count h₀ h₁, BitVec.toInt_sshiftRight, Int64.toInt_toBitVec, Int.shiftRight_eq_div_pow,
    Int.fdiv_eq_ediv_of_nonneg _ (by positivity)]
  simp

theorem shift_eq_ok {f : Int64 → Int64 → Int64} {l r v : Int64} :
    shift f l r = .ok v ↔ (0 ≤ l.toInt ∧ 0 ≤ r.toInt ∧ r.toInt ≤ 63) ∧ v = f l r := by
  have hl : l < 0 ↔ l.toInt < 0 := Int64.lt_iff_toInt_lt
  have hr : r < 0 ↔ r.toInt < 0 := Int64.lt_iff_toInt_lt
  have hc : 63 < r ↔ 63 < r.toInt := Int64.lt_iff_toInt_lt
  simp only [shift, hl, hr, hc]
  split_ifs <;> simp only [false_iff, Except.ok.injEq, not_and]
  · omega
  · omega
  · omega
  · constructor
    · intro h
      exact ⟨⟨by omega, by omega, by omega⟩, h.symm⟩
    · intro h
      exact h.2.symm

theorem apply_eq_ok {op : BinaryOp} {l r v : Int64} :
    op.apply l r = .ok v ↔ op.Defined l.toInt r.toInt ∧ v.toInt = op.meaning l.toInt r.toInt := by
  have hv : ∀ w : Int64, (v = w ↔ v.toInt = w.toInt) := fun w => Int64.toInt_inj.symm
  cases op with
  | add => simp [apply, Defined, meaning, wrap, eq_comm, hv]
  | sub => simp [apply, Defined, meaning, wrap, eq_comm, hv]
  | mul => simp [apply, Defined, meaning, wrap, eq_comm, hv]
  | div =>
    have h0 : r = 0 ↔ r.toInt = 0 := Int64.toInt_inj.symm
    simp only [apply, Defined, meaning, h0]
    split_ifs with h
    · simp [h]
    · simp [h, wrap, eq_comm, hv]
  | shiftLeft =>
    rw [apply, shift_eq_ok]
    refine and_congr_right fun h => ?_
    rw [hv, to_int_shift_left h.1 h.2.1 h.2.2, meaning]
  | shiftRight =>
    rw [apply, shift_eq_ok]
    refine and_congr_right fun h => ?_
    rw [hv, to_int_shift_right h.2.1 h.2.2, meaning]

theorem exists_apply_eq_ok {op : BinaryOp} {l r : Int64} (h : op.Defined l.toInt r.toInt) :
    ∃ v, op.apply l r = .ok v := by
  cases op with
  | add | sub | mul => exact ⟨_, rfl⟩
  | div => exact ⟨l / r, if_neg fun h0 => h (by rw [h0]; rfl)⟩
  | shiftLeft => exact ⟨_, shift_eq_ok.mpr ⟨h, rfl⟩⟩
  | shiftRight => exact ⟨_, shift_eq_ok.mpr ⟨h, rfl⟩⟩

end BinaryOp

end DataLayout
