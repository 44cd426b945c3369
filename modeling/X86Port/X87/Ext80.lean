import Mathlib.Data.Rat.Floor
import Mathlib.Tactic.IntervalCases
import X86Port.Lib.Rounding
import X86Port.Word

/-!
# The ten-byte encoding

An x87 register as its fields: a word with the sign and the biased exponent, and a significand
whose top bit is the integer bit. A finite encoding stands for a dyadic rational; infinities,
NaNs and unnormals (an exponent without the integer bit) stand for none.

* `normalize_eq`: the loop that moves a significand to the top ends and loses nothing.
* `log_value`, `roundSig_value`: the binary exponent of a normal, and that it has 64 bits.
-/

namespace X86Port.X87

open Lib.Rounding

structure Ext80 where
  signif : U64
  signExp : U16
  deriving DecidableEq, Repr

def ext80Bias : ℤ := 16383

def ext80ExpMask : U16 := 0x7FFF#16

def ext80SignBit : U16 := 0x8000#16

def ext80IntegerBit : U64 := 1#64 <<< 63

/-! ## The control word -/

def x87RcMask : U16 := 0x0C00#16
def x87RcNearest : U16 := 0x0000#16
def x87RcDown : U16 := 0x0400#16
def x87RcUp : U16 := 0x0800#16
def x87RcTruncate : U16 := 0x0C00#16
def x87PcMask : U16 := 0x0300#16
def x87PcExtended : U16 := 0x0300#16

/-- The mode a control word's RC field names. -/
def roundingMode (control : U16) : Mode :=
  if control &&& x87RcMask = x87RcDown then .down
  else if control &&& x87RcMask = x87RcUp then .up
  else if control &&& x87RcMask = x87RcTruncate then .truncate
  else .nearest

theorem rcField_cases (control : U16) :
    control &&& x87RcMask = x87RcNearest ∨ control &&& x87RcMask = x87RcDown ∨
      control &&& x87RcMask = x87RcUp ∨ control &&& x87RcMask = x87RcTruncate := by
  have hfield : control &&& x87RcMask = ((control >>> 10) &&& 3#16) <<< 10 := by
    apply BitVec.eq_of_getLsbD_eq
    intro i hi
    interval_cases i <;> simp [x87RcMask]
  have hsmall : ((control >>> 10) &&& 3#16).toNat < 4 := by
    rw [BitVec.toNat_and]
    exact Nat.lt_succ_of_le Nat.and_le_right
  rw [hfield]
  generalize (control >>> 10) &&& 3#16 = c at hsmall
  obtain ⟨n, hn⟩ : ∃ n, c.toNat = n := ⟨_, rfl⟩
  have hc : c = BitVec.ofNat 16 n := by rw [← hn, BitVec.ofNat_toNat, BitVec.setWidth_eq]
  subst hc
  rw [hn] at hsmall
  interval_cases n <;> decide

theorem roundingMode_eq_nearest {control : U16} :
    roundingMode control = .nearest ↔ control &&& x87RcMask = x87RcNearest := by
  unfold roundingMode
  rcases rcField_cases control with h | h | h | h <;> rw [h] <;> decide

/-! ## Fields and classes -/

namespace Ext80

def negative (v : Ext80) : Bool := v.signExp &&& ext80SignBit ≠ 0

def exponent (v : Ext80) : ℤ := (v.signExp &&& ext80ExpMask).toNat

def integerBit (v : Ext80) : Bool := v.signif &&& ext80IntegerBit ≠ 0

/-- The all-ones exponent of the infinities and the NaNs. -/
def IsInfinityOrNan (v : Ext80) : Prop := v.exponent = 0x7FFF

/-- An exponent that asks for an integer bit which is not there. -/
def IsUnnormal (v : Ext80) : Prop :=
  v.exponent ≠ 0 ∧ v.exponent ≠ 0x7FFF ∧ v.integerBit = false

def IsFinite (v : Ext80) : Prop := ¬ v.IsInfinityOrNan ∧ ¬ v.IsUnnormal

instance : DecidablePred IsFinite := fun v => by
  unfold IsFinite IsInfinityOrNan IsUnnormal
  infer_instance

/-- What a finite encoding stands for. A zero exponent has the scale of exponent one. -/
def value (v : Ext80) : ℚ :=
  signed v.negative ((v.signif.toNat : ℚ) * 2 ^ (max v.exponent 1 - ext80Bias - 63))

end Ext80

/-- The encoding with a sign bit and an exponent, as the sources put it together. -/
def signAndExp (sign : U16) (exponent : ℤ) : U16 := sign ||| BitVec.ofInt 16 exponent

variable {v : Ext80}

theorem Ext80.exponent_nonneg (v : Ext80) : 0 ≤ v.exponent := Int.natCast_nonneg _

theorem Ext80.exponent_le (v : Ext80) : v.exponent ≤ 0x7FFF := by
  have h : (v.signExp &&& ext80ExpMask).toNat ≤ 0x7FFF := by
    rw [BitVec.toNat_and]
    exact Nat.and_le_right
  rw [Ext80.exponent]
  exact_mod_cast h

theorem integerBit_iff (s : U64) : s &&& ext80IntegerBit ≠ 0 ↔ 2 ^ 63 ≤ s.toNat := by
  have hbit : s &&& ext80IntegerBit ≠ 0 ↔ s.getLsbD 63 = true := by
    constructor
    · intro h
      by_contra hclear
      apply h
      apply BitVec.eq_of_getLsbD_eq
      intro i hi
      rw [BitVec.getLsbD_and, ext80IntegerBit, BitVec.getLsbD_shiftLeft]
      rcases Nat.lt_or_ge i 63 with hlt | hge
      · simp [hlt]
      · have h63 : i = 63 := by omega
        subst h63
        simpa using hclear
    · intro h hzero
      have hbit : (s &&& ext80IntegerBit).getLsbD 63 = true := by
        rw [BitVec.getLsbD_and, h]
        rfl
      rw [hzero] at hbit
      cases hbit
  rw [hbit, BitVec.getLsbD, Nat.testBit_eq_decide_div_mod_eq]
  have := s.isLt
  rw [decide_eq_true_iff]
  omega

theorem even_toNat_iff (w : U64) : Even (w.toNat : ℤ) ↔ w &&& 1 = 0 := by
  rw [Int.even_iff, ← BitVec.toNat_inj, BitVec.toNat_and]
  change _ ↔ w.toNat &&& 1 = 0
  rw [Nat.and_one_is_mod]
  omega

theorem Ext80.integerBit_eq_true : v.integerBit = true ↔ 2 ^ 63 ≤ v.signif.toNat := by
  rw [Ext80.integerBit, decide_eq_true_iff, integerBit_iff]

/-! ## Putting the fields together -/

section SignAndExp

variable {sign : U16} {exponent : ℤ}

theorem ofInt_and_expMask (h0 : 0 ≤ exponent) (h1 : exponent ≤ 0x7FFF) :
    BitVec.ofInt 16 exponent &&& ext80ExpMask = BitVec.ofInt 16 exponent := by
  apply BitVec.eq_of_toNat_eq
  rw [BitVec.toNat_and, BitVec.toNat_ofInt, show ext80ExpMask.toNat = 2 ^ 15 - 1 from rfl,
    Nat.and_two_pow_sub_one_eq_mod]
  omega

theorem ofInt_and_signBit (h0 : 0 ≤ exponent) (h1 : exponent ≤ 0x7FFF) :
    BitVec.ofInt 16 exponent &&& ext80SignBit = 0 := by
  rw [← ofInt_and_expMask h0 h1, BitVec.and_assoc]
  simp [ext80ExpMask, ext80SignBit]

theorem exponent_signAndExp (hsign : sign = 0 ∨ sign = ext80SignBit) (h0 : 0 ≤ exponent)
    (h1 : exponent ≤ 0x7FFF) (signif : U64) :
    (Ext80.mk signif (signAndExp sign exponent)).exponent = exponent := by
  have hclear : sign &&& ext80ExpMask = 0 := by rcases hsign with rfl | rfl <;> rfl
  have hfield : signAndExp sign exponent &&& ext80ExpMask = BitVec.ofInt 16 exponent := by
    rw [signAndExp, BitVec.and_or_distrib_right, hclear, ofInt_and_expMask h0 h1]
    exact BitVec.zero_or
  rw [Ext80.exponent, hfield, BitVec.toNat_ofInt]
  omega

theorem negative_signAndExp (hsign : sign = 0 ∨ sign = ext80SignBit) (h0 : 0 ≤ exponent)
    (h1 : exponent ≤ 0x7FFF) (signif : U64) :
    (Ext80.mk signif (signAndExp sign exponent)).negative = decide (sign ≠ 0) := by
  have hfield : signAndExp sign exponent &&& ext80SignBit = sign := by
    rw [signAndExp, BitVec.and_or_distrib_right, ofInt_and_signBit h0 h1]
    rcases hsign with rfl | rfl <;> rfl
  rw [Ext80.negative, hfield]

end SignAndExp

theorem and_signBit (s : U16) : s &&& ext80SignBit = if s.getLsbD 15 then ext80SignBit else 0 :=
  BitVec.and_twoPow s 15

theorem and_signBit_cases (s : U16) :
    s &&& ext80SignBit = 0 ∨ s &&& ext80SignBit = ext80SignBit := by
  rw [and_signBit]
  cases s.getLsbD 15
  · exact Or.inl rfl
  · exact Or.inr rfl

theorem Ext80.negative_eq (v : Ext80) : v.negative = v.signExp.getLsbD 15 := by
  rw [Ext80.negative, and_signBit]
  cases v.signExp.getLsbD 15 <;> rfl

/-! ## Normal numbers -/

/-- A stored exponent that is neither zero nor all ones, with the integer bit. -/
def Ext80.Normal (v : Ext80) : Prop :=
  1 ≤ v.exponent ∧ v.exponent ≤ 0x7FFE ∧ 2 ^ 63 ≤ v.signif.toNat

theorem Ext80.Normal.isFinite (h : v.Normal) : v.IsFinite := by
  obtain ⟨_, hhi, hbit⟩ := h
  refine ⟨fun hinf => ?_, fun hun => ?_⟩
  · rw [Ext80.IsInfinityOrNan] at hinf
    omega
  · rw [Ext80.IsUnnormal, Ext80.integerBit_eq_true.mpr hbit] at hun
    exact absurd hun.2.2 (by simp)

theorem Ext80.Normal.value_eq (h : v.Normal) :
    v.value = signed v.negative ((v.signif.toNat : ℚ) * 2 ^ (v.exponent - ext80Bias - 63)) := by
  rw [Ext80.value, max_eq_left h.1]

section SignAndExp

variable {sign : U16} {exponent : ℤ} {signif : U64}

theorem normal_signAndExp (hsign : sign = 0 ∨ sign = ext80SignBit) (h1 : 1 ≤ exponent)
    (h2 : exponent ≤ 0x7FFE) (hbit : 2 ^ 63 ≤ signif.toNat) :
    (Ext80.mk signif (signAndExp sign exponent)).Normal := by
  have hexp := exponent_signAndExp hsign (by omega) (show exponent ≤ 0x7FFF by omega) signif
  exact ⟨by omega, by omega, hbit⟩

theorem value_signAndExp (hsign : sign = 0 ∨ sign = ext80SignBit) (h1 : 1 ≤ exponent)
    (h2 : exponent ≤ 0x7FFE) :
    (Ext80.mk signif (signAndExp sign exponent)).value =
      signed (decide (sign ≠ 0)) ((signif.toNat : ℚ) * 2 ^ (exponent - ext80Bias - 63)) := by
  have h3 : exponent ≤ 0x7FFF := by omega
  rw [Ext80.value, exponent_signAndExp hsign (by omega) h3, max_eq_left h1,
    negative_signAndExp hsign (by omega) h3]

end SignAndExp

theorem Ext80.Normal.log_value (h : v.Normal) : Int.log 2 |v.value| = v.exponent - ext80Bias := by
  have hlo : (2 : ℚ) ^ ((64 : ℤ) - 1) ≤ v.signif.toNat := by
    rw [show (64 : ℤ) - 1 = (63 : ℕ) from rfl, zpow_natCast]
    exact_mod_cast h.2.2
  have hhi : (v.signif.toNat : ℚ) < 2 ^ (64 : ℤ) := by exact_mod_cast v.signif.isLt
  rw [h.value_eq, abs_signed, log_mul_zpow hlo hhi]
  ring

theorem Ext80.Normal.roundSig_value (h : v.Normal) : roundSig 64 v.value = v.value := by
  have hbits : |(v.signif.toNat : ℤ)| < 2 ^ 64 := by
    rw [abs_of_nonneg (Int.natCast_nonneg _)]
    exact_mod_cast v.signif.isLt
  rw [h.value_eq, roundSig_signed]
  congr 1
  exact roundSig_eq_self hbits (by push_cast; rfl)

/-! ## Moving a significand to the top -/

/-- The loop that shifts a significand until its integer bit is set, counting the shifts; `none`
if it has not ended in the given number of rounds. -/
def normalize : ℕ → U64 → ℕ → Option (U64 × ℕ)
  | 0, _, _ => none
  | fuel + 1, magnitude, shift =>
    if magnitude &&& ext80IntegerBit ≠ 0 then some (magnitude, shift)
    else normalize fuel (magnitude <<< 1) (shift + 1)

theorem toNat_shiftLeft_one {w : U64} (h : w.toNat < 2 ^ 63) : (w <<< 1).toNat = w.toNat * 2 := by
  rw [BitVec.toNat_shiftLeft, Nat.shiftLeft_eq]
  omega

theorem normalize_eq {k fuel : ℕ} {w : U64} (hk : k < fuel) (hlo : 2 ^ 63 ≤ w.toNat * 2 ^ k)
    (hhi : w.toNat * 2 ^ k < 2 ^ 64) (shift : ℕ) :
    ∃ top : U64, normalize fuel w shift = some (top, shift + k) ∧ top.toNat = w.toNat * 2 ^ k := by
  induction k generalizing fuel w shift with
  | zero =>
    obtain ⟨fuel, rfl⟩ : ∃ f, fuel = f + 1 := ⟨fuel - 1, by omega⟩
    refine ⟨w, ?_, by simp⟩
    rw [normalize, if_pos ((integerBit_iff w).mpr (by simpa using hlo))]
    rfl
  | succ k ih =>
    obtain ⟨fuel, rfl⟩ : ∃ f, fuel = f + 1 := ⟨fuel - 1, by omega⟩
    have hpos : 0 < 2 ^ k := Nat.two_pow_pos k
    have hsmall : w.toNat < 2 ^ 63 := by
      rw [pow_succ] at hhi
      nlinarith
    have hnext : (w <<< 1).toNat * 2 ^ k = w.toNat * 2 ^ (k + 1) := by
      rw [toNat_shiftLeft_one hsmall]
      ring
    obtain ⟨top, hrun, htop⟩ := ih (show k < fuel by omega) (by rw [hnext]; exact hlo)
      (by rw [hnext]; exact hhi) (shift + 1)
    refine ⟨top, ?_, htop.trans hnext⟩
    rw [normalize, if_neg ((integerBit_iff w).not.mpr (by omega)), hrun]
    congr 2
    omega

/-- A nonzero significand reaches the top within its sixty-four bits. -/
theorem normalize_of_ne_zero {w : U64} (hw : w ≠ 0) :
    ∃ (top : U64) (k : ℕ), normalize 64 w 0 = some (top, k) ∧ k ≤ 63 ∧
      top.toNat = w.toNat * 2 ^ k ∧ 2 ^ 63 ≤ top.toNat := by
  have hpos : 0 < w.toNat := Nat.pos_of_ne_zero fun h => hw (BitVec.eq_of_toNat_eq h)
  obtain ⟨k, hk, hlo, hhi⟩ := exists_leading hpos w.isLt
  obtain ⟨top, hrun, htop⟩ := normalize_eq (show k < 64 by omega) hlo hhi 0
  exact ⟨top, k, by simpa using hrun, hk, htop, by omega⟩

end X86Port.X87
