import Mathlib.Tactic.LinearCombination
import X86Port.X87.Ordinary

/-!
# The add's and subtract's ordinary case

The smaller operand is aligned below the larger in a pair of words with a sticky bit for what fell
off, added or subtracted, moved back to the top and rounded.

* `alignSmaller_spec`: the aligned pair and a fraction that is zero just without sticky.
* `addMagnitudes_spec`, `subMagnitudes_spec`: the sum and the difference of magnitudes.
* `add_correctly_rounded`: the operation answers just the ordinary case, and with the exact sum
  rounded.
-/

namespace X86Port.X87

open Lib.Rounding

/-- The count of leading zeroes; `none` where the loop has not ended. -/
def clz64 : ℕ → U64 → ℕ → Option ℕ
  | 0, _, _ => none
  | fuel + 1, v, n => if v >>> 63 = 0 then clz64 fuel (v <<< 1) (n + 1) else some n

/-- The smaller operand's significand, `shift` places below the larger's: a pair of words, and
whether anything fell off the bottom. -/
def alignSmaller (signif : U64) (shift : ℕ) : U64 × U64 × Bool :=
  if shift = 0 then (signif, 0, false)
  else if shift < 64 then (signif >>> shift, signif <<< (64 - shift), false)
  else if shift = 64 then (0, signif, false)
  else if shift < 128 then (0, signif >>> (shift - 64), signif <<< (128 - shift) ≠ 0)
  else (0, 0, true)

/-- Same sign: a carry out moves the pair one place right, and the bit that falls off is sticky. -/
def addMagnitudes (big shi slo : U64) (sticky : Bool) (exponent : ℤ) : U64 × U64 × Bool × ℤ :=
  let lo := slo
  let hi := big + shi
  if hi < big then
    ((hi >>> 1) ||| ext80IntegerBit, (lo >>> 1) ||| (hi <<< 63), sticky || lo &&& 1 ≠ 0, exponent + 1)
  else (hi, lo, sticky, exponent)

/-- Opposite signs: what fell off below the pair is still to be taken off, so one is borrowed from
the bottom and the rest stays sticky. -/
def subMagnitudes (big shi slo : U64) (sticky : Bool) : U64 × U64 :=
  let lo := 0 - slo
  let hi := big - shi - (if slo ≠ 0 then 1 else 0)
  if sticky then if lo = 0 then (hi - 1, ~~~0) else (hi, lo - 1) else (hi, lo)

/-- A difference back at the top, by a word and by the leading zeroes. -/
def normalizeDifference (difference : U64 × U64) (exponent : ℤ) : Option (U64 × U64 × ℤ) :=
  let (hi, lo) := difference
  if hi >>> 63 = 0 then do
    let (hi, lo, exponent) := if hi = 0 then (lo, 0, exponent - 64) else (hi, lo, exponent)
    let shift ← clz64 64 hi 0
    if shift ≠ 0 then
      some ((hi <<< shift) ||| (lo >>> (64 - shift)), lo <<< shift, exponent - shift)
    else some (hi, lo, exponent)
  else some (hi, lo, exponent)

/-- The two normals of an addition by magnitude: the larger, the smaller, and their signs. -/
def orderOperands (x y : Ext80) (ySign : U16) : Ext80 × Ext80 × U16 × U16 :=
  let xSign := x.signExp &&& ext80SignBit
  if y.exponent > x.exponent ∨ (y.exponent = x.exponent ∧ y.signif > x.signif) then
    (y, x, ySign, xSign)
  else (x, y, xSign, ySign)

/-- Two normals, the larger first, so the alignment is never negative and the result's sign is the
larger operand's. -/
def addOrdered (ordered : Ext80 × Ext80 × U16 × U16) (out : Option Ext80) (flags : Option U16) :
    Option Outcome :=
  let (big, small, sign, smallSign) := ordered
  let (shi, slo, sticky) := alignSmaller small.signif (big.exponent - small.exponent).toNat
  if sign = smallSign then
    let (hi, lo, sticky, exponent) := addMagnitudes big.signif shi slo sticky big.exponent
    some (publish sign (roundPair hi lo sticky exponent) out flags)
  else
    let difference := subMagnitudes big.signif shi slo sticky
    -- an exact cancellation: the zero's sign is the rounding mode's rule and not this one's
    if difference.1 = 0 ∧ difference.2 = 0 then some (false, out, flags)
    else do
      let (hi, lo, exponent) ← normalizeDifference difference big.exponent
      some (publish sign (roundPair hi lo sticky exponent) out flags)

/-- The sign of the second operand: FSUB is FADD with the subtrahend's sign flipped. -/
def addendSign (y : Ext80) (subtract : Bool) : U16 :=
  (y.signExp &&& ext80SignBit) ^^^ (if subtract then ext80SignBit else 0)

/-- `x86p_ext80_add_ordinary`; `none` where the normalising loop does not end. -/
def ext80AddOrdinary (control : U16) (x y : Ext80) (subtract : Bool) (out : Option Ext80)
    (flags : Option U16) : Option Outcome :=
  if out = none ∨ flags = none then some (false, out, flags)
  else if ¬ ext80ControlIsOrdinary control then some (false, out, flags)
  else if ¬ ext80IsNormalOrZero x ∨ ¬ ext80IsNormalOrZero y then some (false, out, flags)
  else
    let ySign := addendSign y subtract
    if ext80IsZero x || ext80IsZero y then
      if ¬ ext80IsNormalOrZero x ∨ ¬ ext80IsNormalOrZero y then some (false, out, flags)
      else if ¬ ext80IsZero y then
        some (true, some ⟨y.signif, (y.signExp &&& ext80ExpMask) ||| ySign⟩, flags)
      else if ¬ ext80IsZero x then some (true, some x, flags)
      else
        some (true, some ⟨0, if x.signExp &&& ext80SignBit = ySign then ySign else 0⟩, flags)
    else addOrdered (orderOperands x y ySign) out flags

/-! ## Alignment -/

section Align

variable {signif : U64} {shift : ℕ}

/-- What a pair and its sticky bit say of an exact value in units of the lower word. -/
structure Aligned (pair : U64 × U64 × Bool) (M θ : ℚ) : Prop where
  nonneg : 0 ≤ θ
  lt : θ < 1
  sticky : pair.2.2 = true ↔ 0 < θ
  value : M = pair.1.toNat * 2 ^ 64 + pair.2.1.toNat + θ
  low : pair.2.2 = true → pair.1.toNat = 0 ∧ pair.2.1.toNat < 2 ^ 63

theorem aligned_exact {hi lo : U64} {M : ℚ} (h : M = hi.toNat * 2 ^ 64 + lo.toNat) :
    Aligned (hi, lo, false) M 0 where
  nonneg := le_rfl
  lt := zero_lt_one
  sticky := iff_of_false Bool.false_ne_true (lt_irrefl 0)
  value := by rw [h, add_zero]
  low := fun h => absurd h Bool.false_ne_true

theorem aligned_within (hshift : shift < 64) :
    Aligned (signif >>> shift, signif <<< (64 - shift), false)
      ((signif.toNat : ℚ) * 2 ^ 64 / 2 ^ shift) 0 := by
  have hpow : 2 ^ 64 = 2 ^ shift * 2 ^ (64 - shift) := by
    rw [← pow_add, Nat.add_sub_cancel' hshift.le]
  have hquot : signif.toNat * 2 ^ (64 - shift) / 2 ^ 64 = signif.toNat / 2 ^ shift := by
    rw [hpow, Nat.mul_div_mul_right _ _ (Nat.two_pow_pos _)]
  have hdiv := Nat.div_add_mod' (signif.toNat * 2 ^ (64 - shift)) (2 ^ 64)
  have hcast : (signif.toNat : ℚ) * 2 ^ (64 - shift) =
      (signif.toNat * 2 ^ (64 - shift) / 2 ^ 64 : ℕ) * 2 ^ 64 +
        (signif.toNat * 2 ^ (64 - shift) % 2 ^ 64 : ℕ) := by exact_mod_cast hdiv.symm
  apply aligned_exact
  rw [BitVec.toNat_ushiftRight, Nat.shiftRight_eq_div_pow, BitVec.toNat_shiftLeft, Nat.shiftLeft_eq,
    ← hquot, ← hcast, div_eq_iff (by positivity), mul_assoc, ← pow_add,
    Nat.sub_add_cancel hshift.le]

theorem aligned_below {n : ℕ} (h0 : 0 < n) (hn : n < 64) :
    Aligned (0, signif >>> n, signif <<< (64 - n) ≠ 0) ((signif.toNat : ℚ) / 2 ^ n)
      ((signif.toNat % 2 ^ n : ℕ) / 2 ^ n) := by
  have hpow : 2 ^ 64 = 2 ^ n * 2 ^ (64 - n) := by rw [← pow_add, Nat.add_sub_cancel' hn.le]
  have hlost : signif <<< (64 - n) ≠ 0 ↔ signif.toNat % 2 ^ n ≠ 0 := by
    rw [ne_eq, ← BitVec.toNat_inj, BitVec.toNat_shiftLeft, Nat.shiftLeft_eq, hpow,
      Nat.mul_mod_mul_right]
    change ¬ _ = 0 ↔ _
    rw [Nat.mul_eq_zero, or_iff_left (Nat.two_pow_pos _).ne']
  have hquot : (signif >>> n).toNat = signif.toNat / 2 ^ n := by
    rw [BitVec.toNat_ushiftRight, Nat.shiftRight_eq_div_pow]
  refine ⟨by positivity, digits_lt_one (Nat.mod_lt _ (Nat.two_pow_pos n)), ?_, ?_, fun _ => ⟨rfl, ?_⟩⟩
  · change decide _ = true ↔ _
    rw [decide_eq_true_iff, hlost, div_pos_iff_of_pos_right (by positivity), Nat.cast_pos,
      Nat.pos_iff_ne_zero]
  · change _ = ((0 : ℕ) : ℚ) * _ + ((signif >>> n).toNat : ℚ) + _
    rw [hquot, cast_div_two_pow]
    push_cast
    ring
  · change (signif >>> n).toNat < 2 ^ 63
    rw [hquot, Nat.div_lt_iff_lt_mul (Nat.two_pow_pos n)]
    calc signif.toNat < 2 ^ 63 * 2 ^ 1 := signif.isLt
      _ ≤ 2 ^ 63 * 2 ^ n := Nat.mul_le_mul_left _ (Nat.pow_le_pow_right Nat.two_pos h0)

theorem aligned_lost (h : signif.toNat ≠ 0) (hshift : 128 ≤ shift) :
    Aligned (0, 0, true) ((signif.toNat : ℚ) * 2 ^ 64 / 2 ^ shift)
      ((signif.toNat : ℚ) * 2 ^ 64 / 2 ^ shift) := by
  have hpos : (0 : ℚ) < signif.toNat := by exact_mod_cast Nat.pos_of_ne_zero h
  refine ⟨by positivity, ?_, iff_of_true rfl (by positivity), ?_, fun _ => ⟨rfl, by decide⟩⟩
  · rw [div_lt_one (by positivity)]
    have hlt : (signif.toNat : ℚ) < 2 ^ 64 := by exact_mod_cast signif.isLt
    calc (signif.toNat : ℚ) * 2 ^ 64 < 2 ^ 64 * 2 ^ 64 := mul_lt_mul_of_pos_right hlt (by positivity)
      _ = 2 ^ 128 := by norm_num
      _ ≤ 2 ^ shift := pow_le_pow_right₀ one_le_two hshift
  · change _ = ((0 : ℕ) : ℚ) * _ + ((0 : ℕ) : ℚ) + _
    push_cast
    ring

theorem alignSmaller_spec (h : signif.toNat ≠ 0) (shift : ℕ) :
    ∃ θ, Aligned (alignSmaller signif shift) ((signif.toNat : ℚ) * 2 ^ 64 / 2 ^ shift) θ := by
  unfold alignSmaller
  by_cases h0 : shift = 0
  · rw [if_pos h0, h0]
    exact ⟨0, aligned_exact (by simp)⟩
  rw [if_neg h0]
  by_cases h64 : shift < 64
  · rw [if_pos h64]
    exact ⟨0, aligned_within h64⟩
  rw [if_neg h64]
  by_cases heq : shift = 64
  · rw [if_pos heq, heq]
    exact ⟨0, aligned_exact (by simp)⟩
  rw [if_neg heq]
  by_cases h128 : shift < 128
  · obtain ⟨n, rfl⟩ : ∃ n, shift = 64 + n := ⟨shift - 64, by omega⟩
    rw [if_pos h128, Nat.add_sub_cancel_left, show 128 - (64 + n) = 64 - n by omega]
    have hscale : (signif.toNat : ℚ) * 2 ^ 64 / 2 ^ (64 + n) = signif.toNat / 2 ^ n := by
      rw [pow_add, mul_comm, mul_div_mul_left _ _ (by positivity)]
    rw [hscale]
    exact ⟨_, aligned_below (by omega) (by omega)⟩
  rw [if_neg h128]
  exact ⟨_, aligned_lost h (by omega)⟩

end Align

/-! ## The sum of magnitudes -/

section Magnitudes

variable {big shi slo : U64} {sticky : Bool} {M θ : ℚ}

/-- The pair of words with its exponent stands for `V` units of the lower word at exponent `e`. -/
def StandsFor (hi lo : U64) (sticky : Bool) (exponent : ℤ) (V : ℚ) (e : ℤ) : Prop :=
  ∃ F, PairOf hi lo sticky F ∧ ∀ scale : ℤ,
    ((hi.toNat : ℚ) * 2 ^ 64 + F) * 2 ^ (exponent + scale) = V * 2 ^ (e + scale)

theorem addMagnitudes_spec (hbig : 2 ^ 63 ≤ big.toNat) (h : Aligned (shi, slo, sticky) M θ) (e : ℤ) :
    let sum := addMagnitudes big shi slo sticky e
    StandsFor sum.1 sum.2.1 sum.2.2.1 sum.2.2.2 (big.toNat * 2 ^ 64 + M) e := by
  have hb := big.isLt
  have hs := shi.isLt
  have hl := slo.isLt
  have hvalue := h.value
  have hsticky := h.sticky
  dsimp only at hvalue hsticky ⊢
  have hsum : (big + shi).toNat = (big.toNat + shi.toNat) % 2 ^ 64 := BitVec.toNat_add big shi
  unfold addMagnitudes
  by_cases hcarry : big + shi < big
  · rw [if_pos hcarry]
    rw [BitVec.lt_def, hsum] at hcarry
    have hnat : (big + shi).toNat + 2 ^ 64 = big.toNat + shi.toNat := by omega
    have hhi : (((big + shi) >>> 1) ||| ext80IntegerBit).toNat =
        2 ^ 63 + (big + shi).toNat / 2 := toNat_shiftDown (big + shi) 1
    have hlo : ((slo >>> 1) ||| ((big + shi) <<< 63)).toNat =
        (big + shi).toNat % 2 * 2 ^ 63 + slo.toNat / 2 := toNat_shiftDown slo (big + shi)
    have hodd : slo &&& 1 ≠ 0 ↔ slo.toNat % 2 = 1 := by
      rw [ne_eq, ← even_toNat_iff, Int.even_iff]
      omega
    -- the bit that falls off the pair joins the fraction below it
    have hbit : (0 : ℚ) ≤ (slo.toNat % 2 : ℕ) ∧ ((slo.toNat % 2 : ℕ) : ℚ) ≤ 1 := by
      refine ⟨Nat.cast_nonneg _, ?_⟩
      exact_mod_cast Nat.lt_succ_iff.mp (Nat.mod_lt slo.toNat Nat.two_pos)
    have h0 := h.nonneg
    have h1 := h.lt
    have hrest : (sticky || decide (slo &&& 1 ≠ 0)) = true ↔
        0 < ((slo.toNat % 2 : ℕ) + θ) / 2 := by
      rw [Bool.or_eq_true, decide_eq_true_iff, hodd, hsticky]
      rcases Nat.mod_two_eq_zero_or_one slo.toNat with hb | hb <;> rw [hb]
      · rw [or_iff_left (by omega)]
        push_cast
        constructor <;> intro hpos <;> linarith
      · refine iff_of_true (Or.inr rfl) ?_
        push_cast
        linarith
    refine ⟨_, pairOf_fraction (by dsimp only; omega) (one_dvd _) (one_dvd _) (by linarith)
      (by push_cast; linarith) hrest, fun scale => ?_⟩
    have hwords : 2 * ((2 ^ 63 + (big + shi).toNat / 2) * 2 ^ 64 +
        ((big + shi).toNat % 2 * 2 ^ 63 + slo.toNat / 2)) + slo.toNat % 2 =
        (big.toNat + shi.toNat) * 2 ^ 64 + slo.toNat := by omega
    have hwordsQ : (2 : ℚ) * ((2 ^ 63 + (big + shi).toNat / 2 : ℕ) * 2 ^ 64 +
        ((big + shi).toNat % 2 * 2 ^ 63 + slo.toNat / 2 : ℕ)) + (slo.toNat % 2 : ℕ) =
        (big.toNat + shi.toNat) * 2 ^ 64 + slo.toNat := by exact_mod_cast hwords
    have hscale : (2 : ℚ) ^ (e + 1 + scale) = 2 * 2 ^ (e + scale) := by
      rw [show e + 1 + scale = 1 + (e + scale) by ring, zpow_add₀ two_ne_zero, zpow_one]
    dsimp only
    rw [hhi, hlo, hvalue, hscale]
    linear_combination 2 ^ (e + scale) * hwordsQ
  · rw [if_neg hcarry]
    rw [BitVec.lt_def, hsum] at hcarry
    have hnat : (big + shi).toNat = big.toNat + shi.toNat := by omega
    refine ⟨slo.toNat + θ, pairOf_fraction (by dsimp only; omega) (one_dvd _) (one_dvd _) h.nonneg
      (by exact_mod_cast h.lt) hsticky, fun scale => ?_⟩
    dsimp only
    rw [hnat, hvalue]
    push_cast
    ring

/-! ## The difference of magnitudes -/

/-- What is left below the difference's pair once one is borrowed for the rest of the subtrahend. -/
def borrowed (sticky : Bool) (θ : ℚ) : ℚ := if sticky then 1 - θ else 0

theorem borrowed_spec (h : Aligned (shi, slo, sticky) M θ) :
    0 ≤ borrowed sticky θ ∧ borrowed sticky θ < 1 ∧ (sticky = true ↔ 0 < borrowed sticky θ) := by
  have h0 := h.nonneg
  have h1 := h.lt
  have hsticky := h.sticky
  cases sticky with
  | false => exact ⟨le_rfl, zero_lt_one, iff_of_false Bool.false_ne_true (lt_irrefl 0)⟩
  | true =>
    have hpos : 0 < θ := hsticky.mp rfl
    unfold borrowed
    rw [if_pos rfl]
    exact ⟨by linarith, by linarith, iff_of_true rfl (by linarith)⟩

/-- The difference before the sticky bit is looked at. -/
theorem difference_words (hle : shi.toNat * 2 ^ 64 + slo.toNat ≤ big.toNat * 2 ^ 64) :
    (big - shi - (if slo ≠ 0 then 1 else 0)).toNat * 2 ^ 64 + (0 - slo).toNat =
      big.toNat * 2 ^ 64 - (shi.toNat * 2 ^ 64 + slo.toNat) := by
  have hb := big.isLt
  have hs := shi.isLt
  have hl := slo.isLt
  have hzero : slo = 0 ↔ slo.toNat = 0 := by
    rw [← BitVec.toNat_inj]
    rfl
  rw [BitVec.toNat_sub, BitVec.toNat_sub, BitVec.toNat_sub, show (0 : U64).toNat = 0 from rfl]
  by_cases h : slo = 0
  · rw [if_neg (not_not.mpr h), show (0 : U64).toNat = 0 from rfl]
    rw [hzero] at h
    omega
  · rw [if_pos h, show (1 : U64).toNat = 1 from rfl]
    rw [hzero] at h
    omega

theorem subMagnitudes_nat {minuend subtrahend : ℕ} (hminuend : minuend = big.toNat * 2 ^ 64)
    (hsubtrahend : subtrahend = shi.toNat * 2 ^ 64 + slo.toNat)
    (hle : sticky.toNat + subtrahend ≤ minuend) :
    sticky.toNat + ((subMagnitudes big shi slo sticky).1.toNat * 2 ^ 64 +
        (subMagnitudes big shi slo sticky).2.toNat) = minuend - subtrahend := by
  have hsub : subtrahend ≤ minuend := (Nat.le_add_left _ _).trans hle
  rw [hminuend, hsubtrahend] at hsub
  have hwords := difference_words hsub
  rw [← hminuend, ← hsubtrahend] at hwords
  clear hminuend hsubtrahend hsub
  simp only [subMagnitudes]
  generalize big - shi - (if slo ≠ 0 then 1 else 0) = hi at hwords ⊢
  generalize 0 - slo = lo at hwords ⊢
  have hhi := hi.isLt
  have hlo := lo.isLt
  have hzero : lo = 0 ↔ lo.toNat = 0 := by
    rw [← BitVec.toNat_inj]
    rfl
  cases sticky with
  | false =>
    rw [if_neg Bool.false_ne_true, show false.toNat = 0 from rfl, Nat.zero_add]
    exact hwords
  | true =>
    rw [if_pos rfl]
    rw [show true.toNat = 1 from rfl] at hle ⊢
    by_cases h : lo = 0
    · have hsub : (hi - 1).toNat = (2 ^ 64 - 1 + hi.toNat) % 2 ^ 64 := BitVec.toNat_sub hi 1
      have hones : (~~~0 : U64).toNat = 2 ^ 64 - 1 := rfl
      rw [if_pos h]
      dsimp only
      rw [hsub, hones]
      rw [hzero] at h
      omega
    · have hsub : (lo - 1).toNat = (2 ^ 64 - 1 + lo.toNat) % 2 ^ 64 := BitVec.toNat_sub lo 1
      rw [if_neg h]
      dsimp only
      rw [hsub]
      rw [hzero] at h
      omega

theorem subMagnitudes_spec (h : Aligned (shi, slo, sticky) M θ) (hle : M ≤ big.toNat * 2 ^ 64) :
    (big.toNat : ℚ) * 2 ^ 64 - M =
      ((subMagnitudes big shi slo sticky).1.toNat * 2 ^ 64 +
        (subMagnitudes big shi slo sticky).2.toNat : ℕ) + borrowed sticky θ := by
  have h0 := h.nonneg
  have hsticky := h.sticky
  have hvalue := h.value
  dsimp only at hsticky hvalue
  have hroom : sticky.toNat + (shi.toNat * 2 ^ 64 + slo.toNat) ≤ big.toNat * 2 ^ 64 := by
    have hle' : ((shi.toNat * 2 ^ 64 + slo.toNat : ℕ) : ℚ) + θ ≤ (big.toNat * 2 ^ 64 : ℕ) := by
      push_cast
      linarith
    have hrest : (sticky.toNat : ℚ) < θ + 1 := by
      cases sticky with
      | false =>
        change ((0 : ℕ) : ℚ) < θ + 1
        push_cast
        linarith
      | true =>
        have hpos : 0 < θ := hsticky.mp rfl
        change ((1 : ℕ) : ℚ) < θ + 1
        push_cast
        linarith
    have hlt : ((sticky.toNat + (shi.toNat * 2 ^ 64 + slo.toNat) : ℕ) : ℚ) <
        (big.toNat * 2 ^ 64 + 1 : ℕ) := by
      push_cast at hle' ⊢
      linarith
    exact Nat.lt_succ_iff.mp (Nat.cast_lt.mp hlt)
  have hnat := subMagnitudes_nat rfl rfl hroom
  have hsum := Nat.sub_add_cancel ((Nat.le_add_left _ _).trans hroom)
  rw [← hnat] at hsum
  have hsumQ : ((sticky.toNat : ℕ) : ℚ) + ((subMagnitudes big shi slo sticky).1.toNat * 2 ^ 64 +
      (subMagnitudes big shi slo sticky).2.toNat : ℕ) +
      (shi.toNat * 2 ^ 64 + slo.toNat) = big.toNat * 2 ^ 64 := by exact_mod_cast hsum
  have hborrowed : borrowed sticky θ = (sticky.toNat : ℕ) - θ := by
    cases sticky with
    | false =>
      have hθ : θ = 0 :=
        le_antisymm (not_lt.mp fun hlt => Bool.false_ne_true (hsticky.mpr hlt)) h0
      simp [borrowed, hθ]
    | true => simp [borrowed]
  rw [hborrowed, hvalue]
  linarith

/-! ## The difference back at the top -/

theorem clz64_eq (fuel : ℕ) (w : U64) (n : ℕ) : clz64 fuel w n = (normalize fuel w n).map Prod.snd := by
  have hbit (u : U64) : u >>> 63 = 0 ↔ ¬ u &&& ext80IntegerBit ≠ 0 := by
    rw [integerBit_iff, ← BitVec.toNat_inj, BitVec.toNat_ushiftRight, Nat.shiftRight_eq_div_pow]
    change _ = 0 ↔ _
    omega
  induction fuel generalizing w n with
  | zero => rfl
  | succ fuel ih =>
    rw [clz64, normalize]
    by_cases h : w >>> 63 = 0
    · rw [if_pos h, if_neg ((hbit w).mp h), ih]
    · rw [if_neg h, if_pos (not_not.mp ((hbit w).not.mp h))]
      rfl

/-- A pair with a nonzero high word is moved up by the zeroes above it. -/
theorem shiftToTop_spec {hi : U64} (hne : hi ≠ 0) (lo : U64) (e : ℤ) :
    ∃ (hi' lo' : U64) (k : ℕ), (do
        let shift ← clz64 64 hi 0
        if shift ≠ 0 then
          some ((hi <<< shift) ||| (lo >>> (64 - shift)), lo <<< shift, e - shift)
        else some (hi, lo, e)) = some (hi', lo', e - k) ∧
      2 ^ 63 ≤ hi'.toNat ∧
      hi'.toNat * 2 ^ 64 + lo'.toNat = (hi.toNat * 2 ^ 64 + lo.toNat) * 2 ^ k := by
  obtain ⟨top, k, hrun, hk, htop, hbit⟩ := normalize_of_ne_zero hne
  have hlt := top.isLt
  rw [clz64_eq, hrun]
  change ∃ (hi' lo' : U64) (k' : ℕ), (if k ≠ 0 then some ((hi <<< k) ||| (lo >>> (64 - k)), lo <<< k, e - k)
    else some (hi, lo, e)) = some (hi', lo', e - k') ∧ _
  by_cases h0 : k = 0
  · subst h0
    refine ⟨hi, lo, 0, by simp, ?_, by simp⟩
    rw [pow_zero, mul_one] at htop
    omega
  · have hroom : hi.toNat * 2 ^ k < 2 ^ 64 := by omega
    have hpair := toNat_shiftPair lo (show k ≤ 64 by omega) hroom
    have hlow : (lo <<< k).toNat < 2 ^ 64 := (lo <<< k).isLt
    refine ⟨_, _, k, if_pos h0, ?_, hpair⟩
    generalize ((hi <<< k) ||| (lo >>> (64 - k))).toNat = moved at hpair ⊢
    have hge : top.toNat * 2 ^ 64 ≤ moved * 2 ^ 64 + (lo <<< k).toNat := by
      rw [hpair, htop]
      calc hi.toNat * 2 ^ k * 2 ^ 64 = hi.toNat * 2 ^ 64 * 2 ^ k := by ring
        _ ≤ _ := Nat.mul_le_mul_right _ (Nat.le_add_right _ _)
    omega

theorem normalizeDifference_spec {hi lo : U64} (hne : ¬ (hi = 0 ∧ lo = 0)) (e : ℤ) :
    ∃ (hi' lo' : U64) (k : ℕ), normalizeDifference (hi, lo) e = some (hi', lo', e - k) ∧
      2 ^ 63 ≤ hi'.toNat ∧
      hi'.toNat * 2 ^ 64 + lo'.toNat = (hi.toNat * 2 ^ 64 + lo.toNat) * 2 ^ k := by
  have htop : hi >>> 63 = 0 ↔ hi.toNat < 2 ^ 63 := by
    rw [← BitVec.toNat_inj, BitVec.toNat_ushiftRight, Nat.shiftRight_eq_div_pow]
    change _ = 0 ↔ _
    omega
  unfold normalizeDifference
  dsimp only
  by_cases hclear : hi >>> 63 = 0
  swap
  · rw [if_neg hclear]
    exact ⟨hi, lo, 0, by simp, Nat.not_lt.mp (htop.not.mp hclear), by simp⟩
  rw [if_pos hclear]
  by_cases hhi : hi = 0
  · have hlo : lo ≠ 0 := fun h => hne ⟨hhi, h⟩
    rw [if_pos hhi]
    obtain ⟨hi', lo', k, hrun, hbit, hwords⟩ := shiftToTop_spec hlo 0 (e - 64)
    refine ⟨hi', lo', 64 + k, ?_, hbit, ?_⟩
    · rw [show e - ((64 + k : ℕ) : ℤ) = e - 64 - k by push_cast; ring]
      exact hrun
    · rw [hwords, hhi, pow_add]
      change (lo.toNat * 2 ^ 64 + 0) * 2 ^ k = (0 * 2 ^ 64 + lo.toNat) * (2 ^ 64 * 2 ^ k)
      ring
  · rw [if_neg hhi]
    exact shiftToTop_spec hhi lo e

/-- The two words of a difference as one number. -/
def wordsOf (pair : U64 × U64) : ℕ := pair.1.toNat * 2 ^ 64 + pair.2.toNat

/-- With a sticky bit the subtrahend is far below the minuend, so at most one zero leads. -/
theorem wordsOf_large (hbig : 2 ^ 63 ≤ big.toNat) (h : Aligned (shi, slo, sticky) M θ)
    (hle : M ≤ big.toNat * 2 ^ 64) (hsticky : sticky = true) :
    (2 ^ 63 - 1) * 2 ^ 64 ≤ wordsOf (subMagnitudes big shi slo sticky) := by
  have hspec := subMagnitudes_spec h hle
  have hvalue := h.value
  obtain ⟨hshi, hslo⟩ := h.low hsticky
  dsimp only at hvalue hshi hslo
  rw [hshi, Nat.cast_zero, zero_mul, zero_add] at hvalue
  rw [borrowed, if_pos hsticky, hvalue] at hspec
  have hwords : (big.toNat * 2 ^ 64 : ℕ) = (wordsOf (subMagnitudes big shi slo sticky) : ℚ) +
      slo.toNat + 1 := by
    unfold wordsOf
    push_cast at hspec ⊢
    linarith
  have hnat : big.toNat * 2 ^ 64 = wordsOf (subMagnitudes big shi slo sticky) + slo.toNat + 1 := by
    exact_mod_cast hwords
  have hbig' : 2 ^ 63 * 2 ^ 64 ≤ big.toNat * 2 ^ 64 := Nat.mul_le_mul_right _ hbig
  rw [hnat] at hbig'
  omega

theorem cancels_iff (hbig : 2 ^ 63 ≤ big.toNat) (h : Aligned (shi, slo, sticky) M θ)
    (hle : M ≤ big.toNat * 2 ^ 64) :
    ((subMagnitudes big shi slo sticky).1 = 0 ∧ (subMagnitudes big shi slo sticky).2 = 0) ↔
      (big.toNat : ℚ) * 2 ^ 64 - M = 0 := by
  have hspec := subMagnitudes_spec h hle
  obtain ⟨hb0, hb1, hb⟩ := borrowed_spec h
  rw [hspec]
  constructor
  · rintro ⟨hhi, hlo⟩
    have hnot : ¬ sticky = true := by
      intro hsticky
      have hlarge := wordsOf_large hbig h hle hsticky
      rw [wordsOf, hhi, hlo] at hlarge
      exact absurd hlarge (by decide)
    rw [hhi, hlo, borrowed, if_neg hnot, show (0 : U64).toNat = 0 from rfl]
    norm_num
  · intro hzero
    have hnat : (((subMagnitudes big shi slo sticky).1.toNat * 2 ^ 64 +
        (subMagnitudes big shi slo sticky).2.toNat : ℕ) : ℚ) ≤ ((0 : ℕ) : ℚ) := by
      rw [Nat.cast_zero]
      linarith
    have hwords := Nat.le_zero.mp (Nat.cast_le.mp hnat)
    rw [Nat.add_eq_zero_iff, Nat.mul_eq_zero] at hwords
    exact ⟨BitVec.eq_of_toNat_eq (hwords.1.resolve_right (by norm_num)),
      BitVec.eq_of_toNat_eq hwords.2⟩

theorem difference_standsFor (hbig : 2 ^ 63 ≤ big.toNat) (h : Aligned (shi, slo, sticky) M θ)
    (hle : M ≤ big.toNat * 2 ^ 64)
    (hne : ¬ ((subMagnitudes big shi slo sticky).1 = 0 ∧ (subMagnitudes big shi slo sticky).2 = 0))
    (e : ℤ) :
    ∃ hi lo e', normalizeDifference (subMagnitudes big shi slo sticky) e = some (hi, lo, e') ∧
      StandsFor hi lo sticky e' (big.toNat * 2 ^ 64 - M) e := by
  have hspec := subMagnitudes_spec h hle
  have hlarge := wordsOf_large hbig h hle
  obtain ⟨hb0, hb1, hb⟩ := borrowed_spec h
  generalize subMagnitudes big shi slo sticky = difference at hspec hlarge hne ⊢
  obtain ⟨hi, lo⟩ := difference
  unfold wordsOf at hlarge
  dsimp only at hspec hlarge hne
  obtain ⟨hi', lo', k, hrun, hbit, hwords⟩ := normalizeDifference_spec hne e
  refine ⟨hi', lo', e - k, hrun, lo'.toNat + borrowed sticky θ * 2 ^ k, ?_, fun scale => ?_⟩
  · have hsticky : sticky = true ↔ 0 < borrowed sticky θ * 2 ^ k := by
      rw [hb, mul_pos_iff_of_pos_right (by positivity)]
    cases sticky with
    | false =>
      apply pairOf_fraction hbit (one_dvd _) (one_dvd _) (by positivity) _ hsticky
      simp [borrowed]
    | true =>
      have hlt := hi'.isLt
      have hlt' := lo'.isLt
      have hk : k ≤ 1 := by
        by_contra hmany
        have hpow : 2 ^ 2 ≤ 2 ^ k := Nat.pow_le_pow_right Nat.two_pos (by omega)
        have hover := Nat.mul_le_mul (hlarge rfl) hpow
        rw [← hwords] at hover
        omega
      have hdvd : 2 ^ k ∣ lo'.toNat := by
        have hsum : 2 ^ k ∣ hi'.toNat * 2 ^ 64 + lo'.toNat := ⟨_, hwords.trans (mul_comm _ _)⟩
        exact (Nat.dvd_add_right (Dvd.dvd.mul_left (pow_dvd_pow 2 (by omega)) _)).mp hsum
      apply pairOf_fraction hbit (pow_dvd_pow 2 (by omega)) hdvd (by positivity) _ hsticky
      push_cast
      exact mul_lt_of_lt_one_left (by positivity) hb1
  · have hwordsQ : (hi'.toNat : ℚ) * 2 ^ 64 + lo'.toNat = (hi.toNat * 2 ^ 64 + lo.toNat) * 2 ^ k := by
      exact_mod_cast hwords
    have hscale : (2 : ℚ) ^ (e + scale) = 2 ^ k * 2 ^ (e - k + scale) := by
      rw [show e + scale = (k : ℤ) + (e - k + scale) by ring, zpow_add₀ two_ne_zero, zpow_natCast]
    rw [hspec, hscale]
    push_cast
    linear_combination 2 ^ (e - k + scale) * hwordsQ

end Magnitudes

/-! ## The exact sum -/

section Sum

variable {x y : Ext80} {subtract : Bool}

/-- What the operation is to compute. -/
def exactSum (x y : Ext80) (subtract : Bool) : ℚ :=
  if subtract then x.value - y.value else x.value + y.value

/-- The sign of the sum: its own, and for a zero the one that round to nearest gives, negative only
from two negative operands. -/
def sumNegative (x y : Ext80) (subtract : Bool) : Bool :=
  if exactSum x y subtract = 0 then x.negative && (y.negative ^^ subtract)
  else decide (exactSum x y subtract < 0)

theorem addendSign_cases (y : Ext80) (subtract : Bool) :
    addendSign y subtract = 0 ∨ addendSign y subtract = ext80SignBit := by
  unfold addendSign
  rcases and_signBit_cases y.signExp with h | h <;> rw [h] <;> cases subtract <;> decide

theorem addendSign_ne_zero (y : Ext80) (subtract : Bool) :
    decide (addendSign y subtract ≠ 0) = (y.negative ^^ subtract) := by
  rw [addendSign, and_signBit, y.negative_eq]
  cases y.signExp.getLsbD 15 <;> cases subtract <;> rfl

/-- The magnitude of a finite encoding. -/
def magnitude (v : Ext80) : ℚ := (v.signif.toNat : ℚ) * 2 ^ (max v.exponent 1 - ext80Bias - 63)

theorem exactSum_eq (x y : Ext80) (subtract : Bool) :
    exactSum x y subtract =
      signed x.negative (magnitude x) + signed (y.negative ^^ subtract) (magnitude y) := by
  rw [exactSum, Ext80.value, Ext80.value, ← magnitude, ← magnitude]
  cases subtract <;> cases y.negative <;> simp [signed, sub_eq_add_neg]

theorem magnitude_pos (h : x.Normal) : 0 < magnitude x := by
  have hbit := h.2.2
  have hpos : (0 : ℚ) < x.signif.toNat := by
    have : 0 < x.signif.toNat := by omega
    exact_mod_cast this
  exact mul_pos hpos (zpow_two_pos _)

theorem magnitude_zero (h : x.Zero) : magnitude x = 0 := by
  rw [magnitude, h.2, Nat.cast_zero, zero_mul]

theorem signed_lt_zero {b : Bool} {m : ℚ} (h : 0 < m) : decide (signed b m < 0) = b := by
  cases b with
  | false =>
    rw [decide_eq_false_iff_not]
    exact h.le.not_gt
  | true =>
    rw [decide_eq_true_iff]
    exact neg_lt_zero.mpr h

theorem signed_ne_zero {b : Bool} {m : ℚ} (h : 0 < m) : signed b m ≠ 0 := by
  cases b with
  | false => exact h.ne'
  | true => exact (neg_lt_zero.mpr h).ne

theorem Ext80.Normal.inRange (h : x.Normal) : InRange x.value := by
  rw [InRange, h.roundSig_value, biasedExponent, h.log_value, sub_add_cancel]
  exact ⟨h.1, h.2.1⟩

/-! ### A zero operand -/

/-- The second operand under the addend's sign, which is the sum when the first is zero. -/
theorem addend_fields (hy : y.Normal) (subtract : Bool) :
    let z := Ext80.mk y.signif ((y.signExp &&& ext80ExpMask) ||| addendSign y subtract)
    z.Normal ∧ z.value = signed (y.negative ^^ subtract) (magnitude y) ∧
      z.negative = (y.negative ^^ subtract) := by
  have hsign := addendSign_cases y subtract
  have hfield : (y.signExp &&& ext80ExpMask) ||| addendSign y subtract =
      signAndExp (addendSign y subtract) y.exponent := by
    rw [signAndExp, BitVec.or_comm, Ext80.exponent, BitVec.ofInt_natCast, BitVec.ofNat_toNat,
      BitVec.setWidth_eq]
  dsimp only
  rw [hfield]
  refine ⟨normal_signAndExp hsign hy.1 hy.2.1 hy.2.2, ?_, ?_⟩
  · rw [value_signAndExp hsign hy.1 hy.2.1, addendSign_ne_zero, magnitude, max_eq_left hy.1]
  · rw [negative_signAndExp hsign y.exponent_nonneg y.exponent_le, addendSign_ne_zero]

theorem sumNegative_of_pos {b : Bool} {m : ℚ} (hm : 0 < m)
    (hsum : exactSum x y subtract = signed b m) : sumNegative x y subtract = b := by
  rw [sumNegative, hsum, if_neg (signed_ne_zero hm), signed_lt_zero hm]

theorem zero_first_answers (hx : x.Zero) (hy : y.Normal) (f : U16) :
    Answers (exactSum x y subtract) (sumNegative x y subtract) f
      (true, some ⟨y.signif, (y.signExp &&& ext80ExpMask) ||| addendSign y subtract⟩, some f) := by
  obtain ⟨hnormal, hvalue, hnegative⟩ := addend_fields hy subtract
  have hsum : exactSum x y subtract = signed (y.negative ^^ subtract) (magnitude y) := by
    rw [exactSum_eq, magnitude_zero hx]
    cases x.negative <;> simp [signed]
  have hanswer := exact_answers (Or.inl hnormal) f
  rw [hvalue, hnegative] at hanswer
  rw [sumNegative_of_pos (magnitude_pos hy) hsum, hsum]
  exact hanswer

theorem zero_second_answers (hx : x.Normal) (hy : y.Zero) (f : U16) :
    Answers (exactSum x y subtract) (sumNegative x y subtract) f (true, some x, some f) := by
  have hsum : exactSum x y subtract = signed x.negative (magnitude x) := by
    rw [exactSum_eq, magnitude_zero hy]
    cases y.negative ^^ subtract <;> simp [signed]
  rw [sumNegative_of_pos (magnitude_pos hx) hsum, hsum]
  exact exact_answers (Or.inl hx) f

theorem zero_both_answers (hx : x.Zero) (hy : y.Zero) (f : U16) :
    Answers (exactSum x y subtract) (sumNegative x y subtract) f
      (true, some ⟨0, if x.signExp &&& ext80SignBit = addendSign y subtract then
        addendSign y subtract else 0⟩, some f) := by
  have hsum : exactSum x y subtract = 0 := by
    rw [exactSum_eq, magnitude_zero hx, magnitude_zero hy]
    cases x.negative <;> cases y.negative ^^ subtract <;> simp [signed]
  have hxSign : decide (x.signExp &&& ext80SignBit ≠ 0) = x.negative := rfl
  have hySign := addendSign_ne_zero y subtract
  have hsign : ∀ a b : U16, (a = 0 ∨ a = ext80SignBit) → (b = 0 ∨ b = ext80SignBit) →
      ((if a = b then b else 0) = 0 ∨ (if a = b then b else 0) = ext80SignBit) ∧
        decide ((if a = b then b else 0) ≠ 0) = (decide (a ≠ 0) && decide (b ≠ 0)) := by
    rintro a b (rfl | rfl) (rfl | rfl) <;> decide
  obtain ⟨hcases, hne⟩ := hsign _ _ (and_signBit_cases x.signExp) (addendSign_cases y subtract)
  obtain ⟨hzero, hnegative⟩ := signed_zero_fields hcases
  have hanswer := exact_answers (Or.inr hzero) f
  rw [hzero.value_eq, hnegative, hne, hxSign, hySign] at hanswer
  rw [sumNegative, if_pos hsum, hsum]
  exact hanswer

/-! ### Two normals -/

/-- The aligned smaller operand in units of the larger one's lower word. -/
def alignedValue (big small : Ext80) : ℚ :=
  (small.signif.toNat : ℚ) * 2 ^ 64 / 2 ^ (big.exponent - small.exponent).toNat

theorem magnitude_eq_scaled (h : x.Normal) :
    magnitude x = x.signif.toNat * 2 ^ 64 * 2 ^ (x.exponent + (-ext80Bias - 127)) := by
  rw [magnitude, max_eq_left h.1, mul_assoc]
  congr 1
  rw [← zpow_natCast, ← zpow_add₀ two_ne_zero]
  congr 1
  push_cast
  ring

theorem magnitude_eq_aligned {big small : Ext80} (hs : small.Normal)
    (hle : small.exponent ≤ big.exponent) :
    magnitude small = alignedValue big small * 2 ^ (big.exponent + (-ext80Bias - 127)) := by
  have hexp : big.exponent + (-ext80Bias - 127) =
      ((big.exponent - small.exponent).toNat : ℤ) + (small.exponent + (-ext80Bias - 127)) := by
    omega
  have hscale : (2 : ℚ) ^ (big.exponent + (-ext80Bias - 127)) =
      2 ^ (big.exponent - small.exponent).toNat * 2 ^ (small.exponent + (-ext80Bias - 127)) := by
    rw [hexp, zpow_add₀ two_ne_zero, zpow_natCast]
  rw [magnitude_eq_scaled hs, alignedValue, hscale, ← mul_assoc, div_mul_cancel₀ _ (by positivity)]

/-- What the ordering by magnitude settles. -/
structure Ordered (x y big small : Ext80) (sign smallSign : U16) (subtract : Bool) : Prop where
  bigNormal : big.Normal
  smallNormal : small.Normal
  exponent_le : small.exponent ≤ big.exponent
  aligned_le : alignedValue big small ≤ big.signif.toNat * 2 ^ 64
  sign_cases : sign = 0 ∨ sign = ext80SignBit
  smallSign_cases : smallSign = 0 ∨ smallSign = ext80SignBit
  sum_eq : exactSum x y subtract = signed (decide (sign ≠ 0)) (magnitude big) +
    signed (decide (smallSign ≠ 0)) (magnitude small)

theorem alignedValue_le {big small : Ext80} (hb : big.Normal)
    (hle : small.exponent < big.exponent ∨
      small.exponent = big.exponent ∧ small.signif.toNat ≤ big.signif.toNat) :
    alignedValue big small ≤ big.signif.toNat * 2 ^ 64 := by
  unfold alignedValue
  rcases hle with hlt | ⟨heq, hsig⟩
  · obtain ⟨d, hd⟩ : ∃ d, (big.exponent - small.exponent).toNat = d + 1 :=
      ⟨(big.exponent - small.exponent).toNat - 1, by omega⟩
    have hbig : (2 : ℚ) ^ 63 ≤ big.signif.toNat := by exact_mod_cast hb.2.2
    have hsmall : (small.signif.toNat : ℚ) ≤ 2 ^ 64 := by exact_mod_cast small.signif.isLt.le
    have hpow : (1 : ℚ) ≤ 2 ^ d := one_le_pow₀ one_le_two
    have hproduct : (2 : ℚ) ^ 63 * 1 ≤ big.signif.toNat * 2 ^ d :=
      mul_le_mul hbig hpow zero_le_one (by linarith)
    rw [hd, div_le_iff₀ (by positivity)]
    calc (small.signif.toNat : ℚ) * 2 ^ 64 ≤ 2 ^ 64 * 2 ^ 64 :=
          mul_le_mul_of_nonneg_right hsmall (by positivity)
      _ = 2 ^ 63 * 1 * (2 * 2 ^ 64) := by norm_num
      _ ≤ big.signif.toNat * 2 ^ d * (2 * 2 ^ 64) :=
          mul_le_mul_of_nonneg_right hproduct (by positivity)
      _ = big.signif.toNat * 2 ^ 64 * 2 ^ (d + 1) := by ring
  · rw [heq, sub_self]
    have hsig' : (small.signif.toNat : ℚ) ≤ big.signif.toNat := by exact_mod_cast hsig
    norm_num
    linarith

theorem orderOperands_spec (hx : x.Normal) (hy : y.Normal) (subtract : Bool) :
    let ordered := orderOperands x y (addendSign y subtract)
    Ordered x y ordered.1 ordered.2.1 ordered.2.2.1 ordered.2.2.2 subtract := by
  have hxSign : decide (x.signExp &&& ext80SignBit ≠ 0) = x.negative := rfl
  have hySign := addendSign_ne_zero y subtract
  simp only [orderOperands]
  by_cases h : y.exponent > x.exponent ∨ (y.exponent = x.exponent ∧ y.signif > x.signif)
  · rw [if_pos h]
    rw [gt_iff_lt, gt_iff_lt, BitVec.lt_def] at h
    have hlarger : x.exponent < y.exponent ∨
        x.exponent = y.exponent ∧ x.signif.toNat ≤ y.signif.toNat := by omega
    refine ⟨hy, hx, (show x.exponent ≤ y.exponent by omega), alignedValue_le hy hlarger,
      addendSign_cases y subtract, and_signBit_cases _, ?_⟩
    rw [exactSum_eq, hySign, hxSign, add_comm]
  · rw [if_neg h]
    rw [gt_iff_lt, gt_iff_lt, BitVec.lt_def] at h
    have hlarger : y.exponent < x.exponent ∨
        y.exponent = x.exponent ∧ y.signif.toNat ≤ x.signif.toNat := by omega
    refine ⟨hx, hy, (show y.exponent ≤ x.exponent by omega), alignedValue_le hx hlarger,
      and_signBit_cases _, addendSign_cases y subtract, ?_⟩
    rw [exactSum_eq, hySign, hxSign]

/-- The rounding of a pair that stands for the magnitude of the sum. -/
theorem publish_sum {hi lo : U64} {sticky : Bool} {e e' : ℤ} {V : ℚ} {sign : U16}
    (hsign : sign = 0 ∨ sign = ext80SignBit) (h : StandsFor hi lo sticky e' V e) (hV : 0 < V)
    (hsum : exactSum x y subtract = signed (decide (sign ≠ 0)) (V * 2 ^ (e + (-ext80Bias - 127))))
    (o : Ext80) (f : U16) :
    (InRange (exactSum x y subtract) →
      Answers (exactSum x y subtract) (sumNegative x y subtract) f
        (publish sign (roundPair hi lo sticky e') (some o) (some f))) ∧
    (¬ InRange (exactSum x y subtract) →
      publish sign (roundPair hi lo sticky e') (some o) (some f) = (false, some o, some f)) := by
  obtain ⟨F, hpair, hvalue⟩ := h
  have hexact : exactSum x y subtract = pairValue (decide (sign ≠ 0)) hi F e' := by
    rw [hsum, ← hvalue, pairValue, ← words_scaled]
    congr 3
    ring
  have hnegative : sumNegative x y subtract = decide (sign ≠ 0) :=
    sumNegative_of_pos (mul_pos hV (zpow_two_pos _)) hsum
  rw [hnegative]
  exact ⟨fun hrange => publish_answers hsign hpair hexact hrange o f,
    fun hrange => publish_refuses hpair hexact hrange _ _⟩

/-- Two normals of one sign. -/
theorem sum_same_sign {big small : Ext80} {sign smallSign : U16}
    (h : Ordered x y big small sign smallSign subtract) (heq : sign = smallSign) :
    exactSum x y subtract = signed (decide (sign ≠ 0))
      ((big.signif.toNat * 2 ^ 64 + alignedValue big small) *
        2 ^ (big.exponent + (-ext80Bias - 127))) := by
  rw [h.sum_eq, ← heq, magnitude_eq_scaled h.bigNormal,
    magnitude_eq_aligned h.smallNormal h.exponent_le, signed_add_signed, add_mul]

/-- Two normals of opposite signs. -/
theorem sum_opposite_sign {big small : Ext80} {sign smallSign : U16}
    (h : Ordered x y big small sign smallSign subtract) (hne : sign ≠ smallSign) :
    exactSum x y subtract = signed (decide (sign ≠ 0))
      ((big.signif.toNat * 2 ^ 64 - alignedValue big small) *
        2 ^ (big.exponent + (-ext80Bias - 127))) := by
  have hopposite : decide (smallSign ≠ 0) = !decide (sign ≠ 0) := by
    rcases h.sign_cases with hs | hs <;> rcases h.smallSign_cases with hs' | hs' <;>
      rw [hs, hs'] at hne ⊢
    · exact absurd rfl hne
    · rfl
    · rfl
    · exact absurd rfl hne
  rw [h.sum_eq, hopposite, magnitude_eq_scaled h.bigNormal,
    magnitude_eq_aligned h.smallNormal h.exponent_le, signed_add_signed_not, sub_mul]

/-- What the operation settles: the ordinary inputs, the sum rounded, and no write on a refusal. -/
def SumSettled (control : U16) (x y : Ext80) (subtract : Bool) (o : Ext80) (f : U16)
    (result : Outcome) : Prop :=
  (result.1 = true ↔ roundingMode control = .nearest ∧
    control &&& x87PcMask = x87PcExtended ∧ (x.Normal ∨ x.Zero) ∧ (y.Normal ∨ y.Zero) ∧
    ¬ (x.Normal ∧ y.Normal ∧ exactSum x y subtract = 0) ∧
    (exactSum x y subtract ≠ 0 → InRange (exactSum x y subtract))) ∧
  (result.1 = true → Answers (exactSum x y subtract) (sumNegative x y subtract) f result) ∧
  (result.1 = false → result.2 = (some o, some f))

variable {control : U16} {o : Ext80} {f : U16}

theorem zero_operand_settled (hnearest : roundingMode control = .nearest)
    (hextended : control &&& x87PcMask = x87PcExtended) (hx : x.Normal ∨ x.Zero)
    (hy : y.Normal ∨ y.Zero) (hzero : x.Zero ∨ y.Zero) :
    SumSettled control x y subtract o f
      (if ¬ ext80IsZero y then
        (true, some ⟨y.signif, (y.signExp &&& ext80ExpMask) ||| addendSign y subtract⟩, some f)
      else if ¬ ext80IsZero x then (true, some x, some f)
      else (true, some ⟨0, if x.signExp &&& ext80SignBit = addendSign y subtract then
        addendSign y subtract else 0⟩, some f)) := by
  have hnot : ¬ (x.Normal ∧ y.Normal ∧ exactSum x y subtract = 0) := by
    rintro ⟨hxn, hyn, _⟩
    exact hzero.elim hxn.not_zero hyn.not_zero
  by_cases hyz : y.Zero
  · rw [if_neg (not_not.mpr (ext80IsZero_iff.mpr hyz))]
    by_cases hxz : x.Zero
    · rw [if_neg (not_not.mpr (ext80IsZero_iff.mpr hxz))]
      have hsum : exactSum x y subtract = 0 := by
        rw [exactSum_eq, magnitude_zero hxz, magnitude_zero hyz]
        cases x.negative <;> cases y.negative ^^ subtract <;> simp [signed]
      exact accepted_spec ⟨hnearest, hextended, hx, hy, hnot, fun hne => absurd hsum hne⟩
        (zero_both_answers hxz hyz f)
    · rw [if_pos (ext80IsZero_iff.not.mpr hxz)]
      have hxn := hx.resolve_right hxz
      have hsum : exactSum x y subtract = x.value := by
        rw [exactSum_eq, magnitude_zero hyz, Ext80.value, ← magnitude]
        cases y.negative ^^ subtract <;> simp [signed]
      exact accepted_spec ⟨hnearest, hextended, hx, hy, hnot, fun _ => hsum ▸ hxn.inRange⟩
        (zero_second_answers hxn hyz f)
  · rw [if_pos (ext80IsZero_iff.not.mpr hyz)]
    have hyn := hy.resolve_right hyz
    have hxz := hzero.resolve_right hyz
    obtain ⟨hnormal, hvalue, _⟩ := addend_fields hyn subtract
    have hsum : exactSum x y subtract = signed (y.negative ^^ subtract) (magnitude y) := by
      rw [exactSum_eq, magnitude_zero hxz]
      cases x.negative <;> simp [signed]
    exact accepted_spec ⟨hnearest, hextended, hx, hy, hnot,
      fun _ => hsum ▸ hvalue ▸ hnormal.inRange⟩ (zero_first_answers hxz hyn f)

theorem published_settled {hi lo : U64} {sticky : Bool} {e e' : ℤ} {V : ℚ} {sign : U16}
    (hnearest : roundingMode control = .nearest)
    (hextended : control &&& x87PcMask = x87PcExtended) (hx : x.Normal) (hy : y.Normal)
    (hsign : sign = 0 ∨ sign = ext80SignBit) (h : StandsFor hi lo sticky e' V e) (hV : 0 < V)
    (hsum : exactSum x y subtract = signed (decide (sign ≠ 0)) (V * 2 ^ (e + (-ext80Bias - 127)))) :
    SumSettled control x y subtract o f
      (publish sign (roundPair hi lo sticky e') (some o) (some f)) := by
  have hne : exactSum x y subtract ≠ 0 := by
    rw [hsum]
    exact signed_ne_zero (mul_pos hV (zpow_two_pos _))
  obtain ⟨hin, hout⟩ := publish_sum hsign h hV hsum o f
  by_cases hrange : InRange (exactSum x y subtract)
  · exact accepted_spec ⟨hnearest, hextended, Or.inl hx, Or.inl hy, fun hc => hne hc.2.2,
      fun _ => hrange⟩ (hin hrange)
  · rw [hout hrange]
    exact refused_spec fun hp => hrange (hp.2.2.2.2.2 hne)

theorem addOrdered_settled (hnearest : roundingMode control = .nearest)
    (hextended : control &&& x87PcMask = x87PcExtended) (hx : x.Normal) (hy : y.Normal) :
    ∃ result, addOrdered (orderOperands x y (addendSign y subtract)) (some o) (some f) =
      some result ∧ SumSettled control x y subtract o f result := by
  have hordered := orderOperands_spec hx hy subtract
  dsimp only at hordered
  generalize orderOperands x y (addendSign y subtract) = ordered at hordered ⊢
  obtain ⟨big, small, sign, smallSign⟩ := ordered
  dsimp only at hordered
  have hbit := hordered.bigNormal.2.2
  have hsmall : small.signif.toNat ≠ 0 := by
    have := hordered.smallNormal.2.2
    omega
  obtain ⟨θ, haligned⟩ :=
    alignSmaller_spec hsmall (big.exponent - small.exponent).toNat
  rw [← alignedValue] at haligned
  unfold addOrdered
  dsimp only
  generalize alignSmaller small.signif (big.exponent - small.exponent).toNat = pair at haligned ⊢
  obtain ⟨shi, slo, sticky⟩ := pair
  dsimp only
  by_cases heq : sign = smallSign
  · rw [if_pos heq]
    have hstands := addMagnitudes_spec hbit haligned big.exponent
    dsimp only at hstands
    generalize addMagnitudes big.signif shi slo sticky big.exponent = sum at hstands ⊢
    obtain ⟨hi, lo, sticky', e'⟩ := sum
    have hpos : 0 < (big.signif.toNat : ℚ) * 2 ^ 64 + alignedValue big small := by
      have hbig : (0 : ℚ) < big.signif.toNat := by exact_mod_cast (show 0 < _ by omega)
      have hnonneg : 0 ≤ alignedValue big small := by
        unfold alignedValue
        positivity
      positivity
    exact ⟨_, rfl, published_settled hnearest hextended hx hy hordered.sign_cases hstands hpos
      (sum_same_sign hordered heq)⟩
  · rw [if_neg heq]
    have hsum := sum_opposite_sign hordered heq
    have hcancels := cancels_iff hbit haligned hordered.aligned_le
    by_cases hzero : (subMagnitudes big.signif shi slo sticky).1 = 0 ∧
        (subMagnitudes big.signif shi slo sticky).2 = 0
    · rw [if_pos hzero]
      have hsum0 : exactSum x y subtract = 0 := by
        rw [hsum, hcancels.mp hzero, zero_mul]
        cases decide (sign ≠ 0) <;> simp [signed]
      exact ⟨_, rfl, refused_spec fun hp => hp.2.2.2.2.1 ⟨hx, hy, hsum0⟩⟩
    · rw [if_neg hzero]
      obtain ⟨hi, lo, e', hrun, hstands⟩ :=
        difference_standsFor hbit haligned hordered.aligned_le hzero big.exponent
      have hpos : 0 < (big.signif.toNat : ℚ) * 2 ^ 64 - alignedValue big small :=
        lt_of_le_of_ne (sub_nonneg.mpr hordered.aligned_le) fun h => hzero (hcancels.mpr h.symm)
      rw [hrun]
      exact ⟨_, rfl, published_settled hnearest hextended hx hy hordered.sign_cases hstands hpos
        hsum⟩

/-- The operation answers just the ordinary case and with the exact sum rounded to 64 significant
bits; a cancellation of normals and everything else is refused with nothing written. -/
theorem add_correctly_rounded (control : U16) (x y : Ext80) (subtract : Bool) (o : Ext80)
    (f : U16) :
    ∃ result, ext80AddOrdinary control x y subtract (some o) (some f) = some result ∧
      (result.1 = true ↔ roundingMode control = .nearest ∧
        control &&& x87PcMask = x87PcExtended ∧ (x.Normal ∨ x.Zero) ∧ (y.Normal ∨ y.Zero) ∧
        ¬ (x.Normal ∧ y.Normal ∧ exactSum x y subtract = 0) ∧
        (exactSum x y subtract ≠ 0 → InRange (exactSum x y subtract))) ∧
      (result.1 = true → Answers (exactSum x y subtract) (sumNegative x y subtract) f result) ∧
      (result.1 = false → result.2 = (some o, some f)) := by
  change ∃ result, _ ∧ SumSettled control x y subtract o f result
  have hnull : ¬ ((some o : Option Ext80) = none ∨ (some f : Option U16) = none) := by simp
  unfold ext80AddOrdinary
  rw [if_neg hnull]
  by_cases hcontrol : ext80ControlIsOrdinary control = true
  swap
  · rw [if_pos hcontrol]
    rw [ext80ControlIsOrdinary_iff] at hcontrol
    exact ⟨_, rfl, refused_spec fun h => hcontrol ⟨h.1, h.2.1⟩⟩
  rw [if_neg (not_not.mpr hcontrol)]
  obtain ⟨hnearest, hextended⟩ := ext80ControlIsOrdinary_iff.mp hcontrol
  by_cases hclass : (x.Normal ∨ x.Zero) ∧ (y.Normal ∨ y.Zero)
  swap
  · rw [if_pos]
    · exact ⟨_, rfl, refused_spec fun h => hclass ⟨h.2.2.1, h.2.2.2.1⟩⟩
    · rw [ext80IsNormalOrZero_iff, ext80IsNormalOrZero_iff, ← not_and_or]
      exact hclass
  have hrefuse : ¬ (¬ ext80IsNormalOrZero x = true ∨ ¬ ext80IsNormalOrZero y = true) := by
    rw [ext80IsNormalOrZero_iff, ext80IsNormalOrZero_iff, ← not_and_or, not_not]
    exact hclass
  rw [if_neg hrefuse]
  dsimp only
  by_cases hzero : (ext80IsZero x || ext80IsZero y) = true
  · rw [if_pos hzero, if_neg hrefuse]
    rw [Bool.or_eq_true, ext80IsZero_iff, ext80IsZero_iff] at hzero
    refine ⟨_, ?_, zero_operand_settled hnearest hextended hclass.1 hclass.2 hzero⟩
    split_ifs <;> rfl
  · rw [if_neg hzero]
    rw [Bool.or_eq_true, ext80IsZero_iff, ext80IsZero_iff, not_or] at hzero
    exact addOrdered_settled hnearest hextended (hclass.1.resolve_right hzero.1)
      (hclass.2.resolve_right hzero.2)

end Sum

end X86Port.X87
