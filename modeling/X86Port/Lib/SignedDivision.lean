import Mathlib.Data.BitVec
import Mathlib.Algebra.Order.Ring.Abs
import Mathlib.Tactic.NormNum
import Mathlib.Tactic.Ring

/-!
# Signed words and division towards zero

* `toInt_setWidth_iff`: what a cut keeps of the signed reading.
* `toInt_extend_by_hand`: a sign bit is worth minus twice its place.
* `divides_iff`: the quotient and the remainder are the only ones of their kind.
-/

namespace X86Port.Lib

/-! ## Widths -/

/-- Cutting a word down keeps its signed reading when it is in range, and only then. -/
theorem toInt_setWidth_iff {n : Nat} (x : BitVec n) {k : Nat} (hpos : 0 < k) (hk : k ≤ n) :
    (x.setWidth k).toInt = x.toInt ↔
      -(2 : Int) ^ (k - 1) ≤ x.toInt ∧ x.toInt < 2 ^ (k - 1) := by
  constructor
  · intro h
    rw [← h]
    exact ⟨BitVec.le_toInt _, BitVec.toInt_lt⟩
  · rintro ⟨hlower, hupper⟩
    have hsplit : ((2 ^ k : Nat) : Int) = 2 ^ (k - 1) + 2 ^ (k - 1) := by
      rw [Nat.cast_pow, ← two_mul, ← pow_succ', Nat.sub_add_cancel hpos]
      rfl
    have hmod : (x.setWidth k).toInt = x.toInt.bmod (2 ^ k) := by
      rw [BitVec.toInt_setWidth, BitVec.toInt_eq_toNat_bmod,
        Int.bmod_bmod_of_dvd (pow_dvd_pow 2 hk)]
    rw [hmod]
    exact Int.bmod_eq_of_le (by omega) (by omega)

/-- The sign bit of a narrow word is worth minus twice its place. -/
theorem toInt_extend_by_hand {n : Nat} (x : BitVec n) (hpos : 0 < n) (hn : n < 64) :
    x.toInt = if x.setWidth 64 &&& BitVec.ofInt 64 (2 ^ (n - 1)) ≠ 0
      then (x.setWidth 64).toInt - 2 ^ n else (x.setWidth 64).toInt := by
  have hplain : (x.setWidth 64).toInt = x.toNat := by
    have hlt := x.isLt
    have hpow : 2 ^ n ≤ 2 ^ 63 := Nat.pow_le_pow_right (by omega) (by omega)
    rw [BitVec.toInt_eq_toNat_of_lt, BitVec.toNat_setWidth_of_le (by omega)]
    rw [BitVec.toNat_setWidth_of_le (by omega)]
    omega
  have hbit : BitVec.ofInt 64 (2 ^ (n - 1)) = BitVec.twoPow 64 (n - 1) := by
    apply BitVec.eq_of_toNat_eq
    rw [BitVec.toNat_twoPow, BitVec.toNat_ofInt]
    exact Int.toNat_natCast (2 ^ (n - 1) % 2 ^ 64)
  have hsign : x.setWidth 64 &&& BitVec.ofInt 64 (2 ^ (n - 1)) ≠ 0 ↔ x.msb = true := by
    have hpow : BitVec.twoPow 64 (n - 1) ≠ 0 := by
      intro hzero
      have hnat := congrArg BitVec.toNat hzero
      rw [BitVec.toNat_twoPow_of_lt (by omega)] at hnat
      exact absurd hnat (by simp)
    rw [hbit, BitVec.and_twoPow, BitVec.getLsbD_setWidth, BitVec.msb_eq_getLsbD_last]
    cases hx : x.getLsbD (n - 1)
    · simp
    · simpa [show n - 1 < 64 by omega] using hpow
  rw [hplain, BitVec.toInt_eq_msb_cond]
  simp only [hsign]
  split_ifs <;> simp

/-! ## Division -/

/-- Division towards zero: the remainder is smaller than the divisor and has the sign of the
dividend. -/
structure Divides (n d q r : Int) : Prop where
  sum : n = q * d + r
  small : |r| < |d|
  sign : r = 0 ∨ r.sign = n.sign

theorem divides_iff {n d q r : Int} (hd : d ≠ 0) :
    Divides n d q r ↔ n.tdiv d = q ∧ n.tmod d = r := by
  have habs : |d| = d.natAbs := Int.abs_eq_natAbs d
  constructor
  · rintro ⟨hsum, hsmall, hsign⟩
    obtain ⟨hlower, hupper⟩ := abs_lt.mp hsmall
    rcases lt_trichotomy n 0 with hn | hn | hn
    · rw [Int.sign_eq_neg_one_of_neg hn, Int.sign_eq_neg_one_iff_neg] at hsign
      rw [Int.tdiv_tmod_unique' hn.le hd]
      exact ⟨by rw [hsum]; ring, by omega, by omega⟩
    · rw [hn, Int.sign_zero, Int.sign_eq_zero_iff_zero, or_self] at hsign
      have hq : q = 0 := by
        rw [hn, hsign, add_zero, eq_comm, mul_eq_zero] at hsum
        exact hsum.resolve_right hd
      rw [hn, hsign, hq, Int.zero_tdiv, Int.zero_tmod]
      exact ⟨rfl, rfl⟩
    · rw [Int.sign_eq_one_of_pos hn, Int.sign_eq_one_iff_pos] at hsign
      rw [Int.tdiv_tmod_unique hn.le hd]
      exact ⟨by rw [hsum]; ring, by omega, by omega⟩
  · rintro ⟨rfl, rfl⟩
    refine ⟨(Int.tdiv_mul_add_tmod n d).symm, ?_, ?_⟩
    · rw [Int.abs_eq_natAbs, Int.abs_eq_natAbs, Int.natAbs_tmod]
      exact_mod_cast Nat.mod_lt _ (Int.natAbs_pos.mpr hd)
    · have hr := Int.sign_tmod n d
      split_ifs at hr
      · exact .inl (Int.sign_eq_zero_iff_zero.mp hr)
      · exact .inr hr

theorem divides_tdiv {d : Int} (hd : d ≠ 0) (n : Int) : Divides n d (n.tdiv d) (n.tmod d) :=
  (divides_iff hd).mpr ⟨rfl, rfl⟩

theorem Divides.ne_zero {n d q r : Int} (h : Divides n d q r) : d ≠ 0 := by
  rintro rfl
  have hsmall := h.small
  rw [abs_zero] at hsmall
  exact absurd (abs_nonneg r) (not_le.mpr hsmall)

end X86Port.Lib
