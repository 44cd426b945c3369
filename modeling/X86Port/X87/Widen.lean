import Mathlib.Data.Nat.Bitwise
import X86Port.Lib.Interchange
import X86Port.X87.Integer
import X86Port.X87.Ordinary

/-!
# Widening a memory operand

The load of a binary32 or binary64 operand as an x87 register: the fields are moved to their new
places, and a subnormal is moved up until its leading one can be made explicit.

* `normalizeField_eq`: the loop over a subnormal ends, with the same places moved in each of its
  two uses.
* `widenBits_spec`: the encoding has the sign and the value of the pattern; an infinity stays one,
  and a NaN keeps its payload and is quiet.
-/

namespace X86Port.X87

open Lib.Rounding

def ext80QuietBit : U64 := 1#64 <<< 62

/-! ## The widening -/

/-- What the bits of a memory operand mean. -/
structure Ext80Source where
  field : ℕ
  expMax : ℕ
  bias : ℕ
  deriving DecidableEq, Repr

def ext80Source (width : ℕ) : Ext80Source :=
  if width = 4 then ⟨23, 0xFF, 127⟩
  else if width = 8 then ⟨52, 0x7FF, 1023⟩
  else ⟨0, 0, 0⟩

/-- The loop that moves a subnormal fraction up to its format's implied bit, counting by `step`;
`none` if it has not ended in the given number of rounds. -/
def normalizeField (implicit : U64) (step : ℤ) : ℕ → U64 → ℤ → Option (U64 × ℤ)
  | 0, _, _ => none
  | fuel + 1, mant, count =>
    if mant &&& implicit ≠ 0 then some (mant, count)
    else normalizeField implicit step fuel (mant <<< 1) (count + step)

def widen (sign : U64) (exp : ℕ) (mant : U64) (field expMax bias : ℕ) : Option Ext80 :=
  let shift := 63 - field
  let signExp : U16 := (sign <<< 15).setWidth 16
  if exp = expMax then
    let signif := if mant ≠ 0 then ext80IntegerBit ||| (mant <<< shift ||| ext80QuietBit)
      else ext80IntegerBit
    some ⟨signif, signExp ||| ext80ExpMask⟩
  else if exp ≠ 0 then
    some ⟨(mant ||| 1#64 <<< field) <<< shift, signAndExp signExp (exp - bias + ext80Bias)⟩
  else if mant = 0 then some ⟨0, signExp⟩
  else
    (normalizeField (1#64 <<< field) (-1) 64 mant (ext80Bias + 1 - bias)).map fun (mant, biased) =>
      ⟨mant <<< shift, signAndExp signExp biased⟩

def widenBits (bits : U64) (width : ℕ) : Option Ext80 :=
  let s := ext80Source width
  let sign := bits >>> (width * 8 - 1)
  let exp := ((bits >>> s.field) &&& BitVec.ofNat 64 s.expMax).toNat
  let mant := bits &&& ((1#64 <<< s.field) - 1)
  widen sign exp mant s.field s.expMax s.bias

def ext80FromF32Bits (bits : U32) : Option Ext80 := widenBits (bits.setWidth 64) 4

def ext80FromF64Bits (bits : U64) : Option Ext80 := widenBits bits 8

/-! ## What an operand stands for -/

def binary32 : Format := ⟨23, 8, by decide, by decide⟩

def binary64 : Format := ⟨52, 11, by decide, by decide⟩

/-- The formats an operand of some number of bytes can have. -/
inductive OperandFormat : ℕ → Format → Prop where
  | binary32 : OperandFormat 4 binary32
  | binary64 : OperandFormat 8 binary64

/-- The encoding says what the pattern says. Of the infinities and the NaNs that is the class, the
sign and the payload, with the quiet bit set. -/
structure Widened (F : Format) (n : ℕ) (z : Ext80) : Prop where
  negative : z.negative = F.negative n
  value : F.exponent n ≠ F.expMax → z.value = F.value n
  zero : F.Zero n → z.Zero
  normal : F.exponent n ≠ F.expMax → ¬ F.Zero n → z.Normal
  infinity : F.exponent n = F.expMax → F.fraction n = 0 →
    z.exponent = 0x7FFF ∧ z.signif.toNat = 2 ^ 63
  nan : F.exponent n = F.expMax → F.fraction n ≠ 0 →
    z.exponent = 0x7FFF ∧ z.signif.toNat = 2 ^ 63 ||| (F.fraction n <<< (63 - F.field) ||| 2 ^ 62)

section Format

variable {width : ℕ} {F : Format} (hF : OperandFormat width F)
include hF

theorem OperandFormat.source_eq : ext80Source width = ⟨F.field, F.expMax, F.bias.toNat⟩ := by
  cases hF <;> rfl

theorem OperandFormat.width_eq : width * 8 = F.width := by
  cases hF <;> rfl

theorem OperandFormat.width_le : F.width ≤ 64 := by
  cases hF <;> decide

theorem OperandFormat.field_le : F.field ≤ 52 := by
  cases hF <;> decide

theorem OperandFormat.bias_nonneg : 0 ≤ F.bias := by
  cases hF <;> decide

/-- The exponents of the format, down to its last subnormal, are exponents of normals. -/
theorem OperandFormat.room : F.bias + F.field < ext80Bias := by
  cases hF <;> decide

theorem OperandFormat.expMax_le : (F.expMax : ℤ) ≤ 2 * F.bias + 1 := by
  cases hF <;> decide

end Format

/-! ## The loop -/

section Loop

variable {field : ℕ}

theorem and_bit_ne_zero {mant : U64} (hfield : field < 64) (hlt : mant.toNat < 2 ^ (field + 1)) :
    mant &&& (1#64 <<< field) ≠ 0 ↔ 2 ^ field ≤ mant.toNat := by
  have hbit : (mant &&& (1#64 <<< field)).toNat = (mant.toNat / 2 ^ field % 2) * 2 ^ field := by
    rw [BitVec.toNat_and, toNat_one_shiftLeft hfield, Nat.and_two_pow, Nat.toNat_testBit]
  have hdiv : mant.toNat / 2 ^ field < 2 := by
    rw [Nat.div_lt_iff_lt_mul (Nat.two_pow_pos _), mul_comm, ← pow_succ]
    exact hlt
  rw [ne_eq, ← BitVec.toNat_inj, hbit, Nat.mod_eq_of_lt hdiv]
  change ¬ _ = 0 ↔ _
  rw [Nat.mul_eq_zero, or_iff_left (Nat.two_pow_pos field).ne', Nat.div_eq_zero_iff, or_iff_right
    (Nat.two_pow_pos field).ne', Nat.not_lt]

theorem normalizeField_run {k fuel : ℕ} {mant : U64} (step : ℤ) (hfield : field < 63)
    (hk : k < fuel) (hlo : 2 ^ field ≤ mant.toNat * 2 ^ k)
    (hhi : mant.toNat * 2 ^ k < 2 ^ (field + 1)) (count : ℤ) :
    ∃ top : U64, normalizeField (1#64 <<< field) step fuel mant count =
      some (top, count + k * step) ∧ top.toNat = mant.toNat * 2 ^ k := by
  have hpow : 2 ^ (field + 1) ≤ 2 ^ 63 := Nat.pow_le_pow_right Nat.two_pos hfield
  induction k generalizing fuel mant count with
  | zero =>
    obtain ⟨fuel, rfl⟩ : ∃ f, fuel = f + 1 := ⟨fuel - 1, by omega⟩
    rw [pow_zero, mul_one] at hlo hhi
    refine ⟨mant, ?_, by simp⟩
    rw [normalizeField, if_pos ((and_bit_ne_zero (by omega) hhi).mpr hlo)]
    simp
  | succ k ih =>
    obtain ⟨fuel, rfl⟩ : ∃ f, fuel = f + 1 := ⟨fuel - 1, by omega⟩
    have hpos : 1 ≤ 2 ^ k := Nat.two_pow_pos k
    have hsmall : mant.toNat < 2 ^ field := by
      rw [pow_succ, pow_succ, ← mul_assoc] at hhi
      nlinarith
    have hnext : (mant <<< 1).toNat * 2 ^ k = mant.toNat * 2 ^ (k + 1) := by
      rw [toNat_shiftLeft_one (by rw [pow_succ] at hpow; omega)]
      ring
    obtain ⟨top, hrun, htop⟩ := ih (show k < fuel by omega) (by rw [hnext]; exact hlo)
      (by rw [hnext]; exact hhi) (count + step)
    refine ⟨top, ?_, htop.trans hnext⟩
    rw [normalizeField, if_neg ((and_bit_ne_zero (by omega) (by rw [pow_succ]; omega)).not.mpr
      (by omega)), hrun]
    push_cast
    congr 2
    ring

/-- A subnormal fraction moves up by as many places as its leading zeros, whatever is counted. -/
theorem normalizeField_eq {mant : U64} (hfield : field < 63) (h0 : mant ≠ 0)
    (hlt : mant.toNat < 2 ^ field) :
    ∃ (top : U64) (k : ℕ), k ≤ field ∧ top.toNat = mant.toNat * 2 ^ k ∧ 2 ^ field ≤ top.toNat ∧
      top.toNat < 2 ^ (field + 1) ∧ ∀ step count,
        normalizeField (1#64 <<< field) step 64 mant count = some (top, count + k * step) := by
  have hpos : 0 < mant.toNat := Nat.pos_of_ne_zero fun h => h0 (BitVec.eq_of_toNat_eq h)
  obtain ⟨k, hk, hlo, hhi⟩ := exists_leading hpos (show mant.toNat < 2 ^ (field + 1) by
    rw [pow_succ]
    omega)
  obtain ⟨top, _, htop⟩ := normalizeField_run 0 hfield (show k < 64 by omega) hlo hhi 0
  refine ⟨top, k, hk, htop, by omega, by omega, fun step count => ?_⟩
  obtain ⟨top', hrun, htop'⟩ :=
    normalizeField_run step hfield (show k < 64 by omega) hlo hhi count
  rw [hrun, BitVec.eq_of_toNat_eq (htop'.trans htop.symm)]

end Loop

/-! ## The fields of an operand -/

/-- A sign as the encoding's top bit. -/
def signBit (negative : Bool) : U16 := if negative then ext80SignBit else 0

theorem signBit_cases (b : Bool) : signBit b = 0 ∨ signBit b = ext80SignBit := by
  cases b
  · exact Or.inl rfl
  · exact Or.inr rfl

@[simp] theorem decide_signBit_ne_zero (b : Bool) : decide (signBit b ≠ 0) = b := by
  cases b <;> rfl

theorem setWidth_sign {sign : U64} {b : Bool} (h : sign.toNat = b.toNat) :
    (sign <<< 15).setWidth 16 = signBit b := by
  have hsign : sign = if b then 1 else 0 := by
    apply BitVec.eq_of_toNat_eq
    cases b <;> exact h
  rw [hsign]
  cases b <;> rfl

section Fields

variable {width : ℕ} {F : Format} {bits : U64}

theorem toNat_fieldMask {field : ℕ} (hfield : field < 64) (mant : U64) :
    (mant &&& ((1#64 <<< field) - 1)).toNat = mant.toNat % 2 ^ field := by
  rw [BitVec.toNat_and, toNat_lowMask hfield, Nat.and_two_pow_sub_one_eq_mod]

theorem toNat_sign (hF : OperandFormat width F) (hbits : bits.toNat < 2 ^ F.width) :
    (bits >>> (width * 8 - 1)).toNat = (F.negative bits.toNat).toNat := by
  rw [BitVec.toNat_ushiftRight, Nat.shiftRight_eq_div_pow, hF.width_eq, ← Format.top_eq hbits]
  rfl

theorem toNat_exponent (hF : OperandFormat width F) :
    ((bits >>> F.field) &&& BitVec.ofNat 64 F.expMax).toNat = F.exponent bits.toNat := by
  have hwidth := hF.width_le
  have hmask : (BitVec.ofNat 64 F.expMax).toNat = 2 ^ F.expBits - 1 := by
    have hpow : 2 ^ F.expBits ≤ 2 ^ 64 :=
      Nat.pow_le_pow_right Nat.two_pos (by rw [Format.width] at hwidth; omega)
    rw [BitVec.toNat_ofNat, Format.expMax, Nat.mod_eq_of_lt]
    omega
  rw [BitVec.toNat_and, BitVec.toNat_ushiftRight, Nat.shiftRight_eq_div_pow, hmask,
    Nat.and_two_pow_sub_one_eq_mod, Format.exponent]

end Fields

/-- A word with its leading one at the top of a field, moved to the top of the significand. -/
theorem toNat_toTop {m : U64} {field : ℕ} (hfield : field < 63) (hlt : m.toNat < 2 ^ (field + 1)) :
    (m <<< (63 - field)).toNat = m.toNat * 2 ^ (63 - field) := by
  rw [BitVec.toNat_shiftLeft, Nat.shiftLeft_eq, Nat.mod_eq_of_lt]
  calc m.toNat * 2 ^ (63 - field) < 2 ^ (field + 1) * 2 ^ (63 - field) :=
        Nat.mul_lt_mul_of_pos_right hlt (Nat.two_pow_pos _)
    _ = 2 ^ 64 := by rw [← pow_add]; congr 1; omega

theorem top_le {m field : ℕ} (hfield : field < 63) (hlo : 2 ^ field ≤ m) :
    2 ^ 63 ≤ m * 2 ^ (63 - field) := by
  calc 2 ^ 63 = 2 ^ field * 2 ^ (63 - field) := by rw [← pow_add]; congr 1; omega
    _ ≤ _ := Nat.mul_le_mul_right _ hlo

/-- Setting the implied bit of a fraction. -/
theorem toNat_or_implied {mant : U64} {field : ℕ} (hfield : field < 63)
    (hlt : mant.toNat < 2 ^ field) :
    (mant ||| 1#64 <<< field).toNat = 2 ^ field + mant.toNat := by
  rw [BitVec.toNat_or, toNat_one_shiftLeft (by omega), Nat.or_comm]
  have h := Nat.shiftLeft_add_eq_or_of_lt hlt 1
  rw [Nat.shiftLeft_eq, one_mul] at h
  exact h.symm

/-! ## The encoding -/

section Encoding

variable {width : ℕ} {F : Format} {n : ℕ} {m : U64} {e : ℤ}

/-- A nonzero number, given by its leading one at the top of the field and by the exponent of
that, is encoded as a normal of its value. -/
theorem widened_of_leading (hF : OperandFormat width F) (hfinite : F.exponent n ≠ F.expMax)
    (hzero : ¬ F.Zero n) (hlo : 2 ^ F.field ≤ m.toNat) (hhi : m.toNat < 2 ^ (F.field + 1))
    (he1 : 1 ≤ e + ext80Bias) (he2 : e + ext80Bias ≤ 0x7FFE)
    (hvalue : (m.toNat : ℚ) * 2 ^ (e - F.field) =
      F.significand n * 2 ^ (max (F.exponent n : ℤ) 1 - F.bias - F.field)) :
    Widened F n ⟨m <<< (63 - F.field), signAndExp (signBit (F.negative n)) (e + ext80Bias)⟩ := by
  have hfield := hF.field_le
  have htop := toNat_toTop (show F.field < 63 by omega) hhi
  have hsign := signBit_cases (F.negative n)
  refine ⟨?_, fun _ => ?_, fun h => absurd h hzero, fun _ _ => ?_, fun h => absurd h hfinite,
    fun h => absurd h hfinite⟩
  · rw [negative_signAndExp hsign (by omega) (by omega), decide_signBit_ne_zero]
  · rw [value_signAndExp hsign he1 he2, decide_signBit_ne_zero, Format.value, ← hvalue, htop]
    congr 1
    have hcast : ((63 - F.field : ℕ) : ℤ) = 63 - F.field := by omega
    rw [show e - (F.field : ℤ) = ((63 - F.field : ℕ) : ℤ) + (e + ext80Bias - ext80Bias - 63) by
      omega, zpow_add₀ two_ne_zero, zpow_natCast]
    push_cast
    ring
  · apply normal_signAndExp hsign he1 he2
    rw [htop]
    exact top_le (by omega) hlo

variable {sign mant : U64}

theorem widen_normal_eq (hF : OperandFormat width F) (hsign : sign.toNat = (F.negative n).toNat)
    (hn : F.Normal n) : widen sign (F.exponent n) mant F.field F.expMax F.bias.toNat =
      some ⟨(mant ||| 1#64 <<< F.field) <<< (63 - F.field),
        signAndExp (signBit (F.negative n)) (F.exponent n - F.bias + ext80Bias)⟩ := by
  rw [widen, if_neg hn.2, if_pos hn.1, setWidth_sign hsign, Int.toNat_of_nonneg hF.bias_nonneg]

theorem widen_subnormal_eq (hF : OperandFormat width F)
    (hsign : sign.toNat = (F.negative n).toNat) (hexp : F.exponent n = 0) (hne : mant ≠ 0)
    {top : U64} {k : ℕ} (hrun : ∀ step count,
      normalizeField (1#64 <<< F.field) step 64 mant count = some (top, count + k * step)) :
    widen sign (F.exponent n) mant F.field F.expMax F.bias.toNat =
      some ⟨top <<< (63 - F.field),
        signAndExp (signBit (F.negative n)) (1 - F.bias - k + ext80Bias)⟩ := by
  have hmax : (0 : ℕ) ≠ F.expMax := by cases hF <;> decide
  have hcount : ext80Bias + 1 - F.bias + (k : ℤ) * (-1) = 1 - F.bias - k + ext80Bias := by ring
  rw [widen, hexp, if_neg hmax, if_neg (not_not.mpr rfl), if_neg hne, hrun, setWidth_sign hsign,
    Int.toNat_of_nonneg hF.bias_nonneg, hcount]
  rfl

theorem widen_normal (hF : OperandFormat width F) (hsign : sign.toNat = (F.negative n).toNat)
    (hmant : mant.toNat = F.fraction n) (hn : F.Normal n) :
    ∃ z, widen sign (F.exponent n) mant F.field F.expMax F.bias.toNat = some z ∧
      Widened F n z := by
  have hfield := hF.field_le
  have hroom := hF.room
  have hbias := hF.bias_nonneg
  have hmax := hF.expMax_le
  have hexp := Format.exponent_le (F := F) (n := n)
  have hlt : mant.toNat < 2 ^ F.field := hmant ▸ Format.fraction_lt
  have himplied := toNat_or_implied (show F.field < 63 by omega) hlt
  have h0 := hn.1
  refine ⟨_, widen_normal_eq hF hsign hn, ?_⟩
  apply widened_of_leading hF hn.2 (fun h => hn.1 h.1)
  · omega
  · rw [himplied, pow_succ]
    omega
  · unfold ext80Bias at *
    omega
  · unfold ext80Bias at *
    omega
  · rw [hn.significand_eq, himplied, hmant, max_eq_left (by omega)]

theorem widen_subnormal (hF : OperandFormat width F) (hsign : sign.toNat = (F.negative n).toNat)
    (hmant : mant.toNat = F.fraction n) (hexp : F.exponent n = 0) (hfrac : F.fraction n ≠ 0) :
    ∃ z, widen sign (F.exponent n) mant F.field F.expMax F.bias.toNat = some z ∧
      Widened F n z := by
  have hfield := hF.field_le
  have hroom := hF.room
  have hbias := hF.bias_nonneg
  have hmax : (0 : ℕ) ≠ F.expMax := by cases hF <;> decide
  have hne : mant ≠ 0 := fun h => hfrac (by rw [← hmant, h]; rfl)
  obtain ⟨top, k, hk, htop, hlo, hhi, hrun⟩ :=
    normalizeField_eq (show F.field < 63 by omega) hne (hmant ▸ Format.fraction_lt)
  refine ⟨_, widen_subnormal_eq hF hsign hexp hne hrun, ?_⟩
  apply widened_of_leading hF (hexp ▸ hmax) (fun h => hfrac h.2) hlo hhi
  · unfold ext80Bias at *
    omega
  · unfold ext80Bias at *
    omega
  · rw [Format.significand, if_pos hexp, hexp, htop, hmant,
      show (1 : ℤ) - F.bias - k - F.field = -(k : ℤ) + (1 - F.bias - F.field) by ring,
      zpow_add₀ two_ne_zero, zpow_neg, zpow_natCast]
    push_cast
    rw [max_eq_right (by omega)]
    field_simp

theorem widen_special (hF : OperandFormat width F) (hsign : sign.toNat = (F.negative n).toNat)
    (hmant : mant.toNat = F.fraction n) (hexp : F.exponent n = F.expMax) :
    ∃ z, widen sign (F.exponent n) mant F.field F.expMax F.bias.toNat = some z ∧
      Widened F n z := by
  have hfield := hF.field_le
  have hmax : F.expMax ≠ 0 := by cases hF <;> decide
  have hcases := signBit_cases (F.negative n)
  have hfieldExp : signBit (F.negative n) ||| ext80ExpMask =
      signAndExp (signBit (F.negative n)) 0x7FFF := rfl
  have hlt : mant.toNat < 2 ^ (F.field + 1) := by
    have := Format.fraction_lt (F := F) (n := n)
    rw [hmant, pow_succ]
    omega
  refine ⟨_, by rw [widen, if_pos hexp, setWidth_sign hsign, hfieldExp], ?_⟩
  have hexponent := fun signif => exponent_signAndExp hcases (by decide) (le_refl 0x7FFF) signif
  refine ⟨?_, fun h => absurd hexp h, fun h => absurd (hexp.symm.trans h.1) hmax,
    fun h => absurd hexp h, fun _ hfrac => ⟨hexponent _, ?_⟩, fun _ hfrac => ⟨hexponent _, ?_⟩⟩
  · rw [negative_signAndExp hcases (by decide) (le_refl _), decide_signBit_ne_zero]
  · have hzero : mant = 0 := BitVec.eq_of_toNat_eq (hmant.trans hfrac)
    rw [if_neg (not_not.mpr hzero)]
    rfl
  · have hne : mant ≠ 0 := fun h => hfrac (by rw [← hmant, h]; rfl)
    rw [if_pos hne, BitVec.toNat_or, BitVec.toNat_or, toNat_toTop (by omega) hlt, hmant,
      Nat.shiftLeft_eq]
    rfl

theorem widen_zero (hsign : sign.toNat = (F.negative n).toNat) (hmant : mant.toNat = F.fraction n)
    (hF : OperandFormat width F) (hzero : F.Zero n) :
    ∃ z, widen sign (F.exponent n) mant F.field F.expMax F.bias.toNat = some z ∧
      Widened F n z := by
  have hmax : (0 : ℕ) ≠ F.expMax := by cases hF <;> decide
  have hmant0 : mant = 0 := BitVec.eq_of_toNat_eq (hmant.trans hzero.2)
  have hcases := signBit_cases (F.negative n)
  have hsignExp : signBit (F.negative n) = signAndExp (signBit (F.negative n)) 0 := by
    cases F.negative n <;> rfl
  have hz : (Ext80.mk 0 (signAndExp (signBit (F.negative n)) 0)).Zero :=
    ⟨exponent_signAndExp hcases le_rfl (by decide) 0, rfl⟩
  refine ⟨_, by rw [widen, hzero.1, if_neg hmax, if_neg (not_not.mpr rfl), if_pos hmant0,
    setWidth_sign hsign, hsignExp], ?_⟩
  refine ⟨?_, fun _ => by rw [hz.value_eq, hzero.value_eq], fun _ => hz, fun _ h => absurd hzero h,
    fun h => absurd (hzero.1.symm.trans h) hmax, fun h => absurd (hzero.1.symm.trans h) hmax⟩
  rw [negative_signAndExp hcases le_rfl (by decide), decide_signBit_ne_zero]

end Encoding

theorem widenBits_eq {width : ℕ} {F : Format} (hF : OperandFormat width F) (bits : U64) :
    widenBits bits width = widen (bits >>> (width * 8 - 1)) (F.exponent bits.toNat)
      (bits &&& ((1#64 <<< F.field) - 1)) F.field F.expMax F.bias.toNat := by
  rw [widenBits, hF.source_eq]
  dsimp only
  rw [toNat_exponent hF]

/-- Every pattern has an encoding, which says what the pattern says. -/
theorem widenBits_spec {width : ℕ} {F : Format} {bits : U64} (hF : OperandFormat width F)
    (hbits : bits.toNat < 2 ^ F.width) :
    ∃ z, widenBits bits width = some z ∧ Widened F bits.toNat z := by
  have hsign := toNat_sign hF hbits
  have hmant : (bits &&& ((1#64 <<< F.field) - 1)).toNat = F.fraction bits.toNat :=
    toNat_fieldMask (by have := hF.field_le; omega) bits
  rw [widenBits_eq hF]
  by_cases hmax : F.exponent bits.toNat = F.expMax
  · exact widen_special hF hsign hmant hmax
  by_cases hexp : F.exponent bits.toNat = 0
  · by_cases hfrac : F.fraction bits.toNat = 0
    · exact widen_zero hsign hmant hF ⟨hexp, hfrac⟩
    · exact widen_subnormal hF hsign hmant hexp hfrac
  · exact widen_normal hF hsign hmant ⟨hexp, hmax⟩

end X86Port.X87
