import Mathlib.Data.BitVec
import Mathlib.Tactic.Positivity

/-!
# Words shifted to the top

A word shifted left until its low `n` bits stand at the top compares as those `n` bits do, signed
and unsigned, and does not see the bits above them.

* `toNat_top`, `toInt_top`: the shifted word is a multiple of the operand.
* `top_lt_iff` … `top_toInt_le_iff`: the comparisons.
* `top_xor`, `top_and`: the bitwise operators commute with the shift.
-/

namespace X86Port.Lib.TopAligned

variable {W n : Nat}

/-- The low `n` bits at the top of the word. -/
def top (n : Nat) (v : BitVec W) : BitVec W := v <<< (W - n)

theorem toNat_top (hn : n ≤ W) (v : BitVec W) :
    (top n v).toNat = (v.setWidth n).toNat * 2 ^ (W - n) := by
  have hpow : 2 ^ W = 2 ^ n * 2 ^ (W - n) := by rw [← Nat.pow_add, Nat.add_sub_cancel' hn]
  rw [top, BitVec.toNat_shiftLeft, Nat.shiftLeft_eq, BitVec.toNat_setWidth, hpow,
    Nat.mul_mod_mul_right]

theorem toInt_top (hn : n ≤ W) (v : BitVec W) :
    (top n v).toInt = (v.setWidth n).toInt * 2 ^ (W - n) := by
  have hpow : 2 ^ W = 2 ^ n * 2 ^ (W - n) := by rw [← Nat.pow_add, Nat.add_sub_cancel' hn]
  have hpos : 0 < 2 ^ (W - n) := Nat.two_pow_pos _
  have hiff : 2 * (top n v).toNat < 2 ^ W ↔ 2 * (v.setWidth n).toNat < 2 ^ n := by
    rw [toNat_top hn, hpow, ← Nat.mul_assoc, Nat.mul_lt_mul_right hpos]
  rw [BitVec.toInt_eq_toNat_cond, BitVec.toInt_eq_toNat_cond, toNat_top hn]
  rw [toNat_top hn] at hiff
  by_cases h : 2 * (v.setWidth n).toNat < 2 ^ n
  · rw [if_pos h, if_pos (hiff.mpr h)]
    push_cast
    rfl
  · rw [if_neg h, if_neg fun hlt => h (hiff.mp hlt), hpow]
    push_cast
    rw [sub_mul]

section

variable (hn : n ≤ W) (u v : BitVec W)

include hn

theorem top_lt_iff : top n u < top n v ↔ u.setWidth n < v.setWidth n := by
  rw [BitVec.lt_def, BitVec.lt_def, toNat_top hn, toNat_top hn,
    Nat.mul_lt_mul_right (Nat.two_pow_pos _)]

theorem top_le_iff : top n u ≤ top n v ↔ u.setWidth n ≤ v.setWidth n := by
  rw [BitVec.le_def, BitVec.le_def, toNat_top hn, toNat_top hn,
    Nat.mul_le_mul_right_iff (Nat.two_pow_pos _)]

theorem top_toInt_lt_iff : (top n u).toInt < (top n v).toInt ↔
    (u.setWidth n).toInt < (v.setWidth n).toInt := by
  rw [toInt_top hn, toInt_top hn, Int.mul_lt_mul_right (by positivity)]

theorem top_toInt_le_iff : (top n u).toInt ≤ (top n v).toInt ↔
    (u.setWidth n).toInt ≤ (v.setWidth n).toInt := by
  rw [toInt_top hn, toInt_top hn, Int.mul_le_mul_right (by positivity)]

/-- The least value at the top is the least value. -/
theorem top_toNat_half_iff (hpos : 0 < n) :
    (top n v).toNat = 2 ^ (W - 1) ↔ (v.setWidth n).toNat = 2 ^ (n - 1) := by
  have hpow : 2 ^ (W - 1) = 2 ^ (n - 1) * 2 ^ (W - n) := by
    rw [← Nat.pow_add]
    exact congrArg _ (by omega)
  rw [toNat_top hn, hpow, Nat.mul_left_inj (Nat.two_pow_pos _).ne']

theorem top_eq_zero_iff : top n v = 0 ↔ v.setWidth n = 0 := by
  rw [← BitVec.toNat_inj, ← BitVec.toNat_inj, toNat_top hn]
  simp

/-- The sign of the shifted word is the operand's. -/
theorem top_toInt_neg_iff : (top n v).toInt < 0 ↔ (v.setWidth n).msb = true := by
  have hpos : (0 : Int) < 2 ^ (W - n) := by positivity
  rw [toInt_top hn, mul_neg_iff, BitVec.msb_eq_true_iff_two_mul_ge, ge_iff_le,
    ← BitVec.toInt_neg_iff]
  exact ⟨fun h => h.elim (fun h => absurd h.2 (not_lt.mpr hpos.le)) And.left,
    fun h => Or.inr ⟨h, hpos⟩⟩

end

theorem top_zero : top n (0 : BitVec W) = 0 := BitVec.zero_shiftLeft _

theorem top_neg (v : BitVec W) : -top n v = top n (-v) := by
  rw [top, top, BitVec.shiftLeft_eq_mul_twoPow, BitVec.shiftLeft_eq_mul_twoPow, neg_mul]

theorem top_xor (u v : BitVec W) : top n u ^^^ top n v = top n (u ^^^ v) := by
  rw [top, top, top, BitVec.shiftLeft_xor_distrib]

theorem top_and (u v : BitVec W) : top n u &&& top n v = top n (u &&& v) := by
  rw [top, top, top, BitVec.shiftLeft_and_distrib]

end X86Port.Lib.TopAligned
