import X86Port.X87.Ext80

/-!
# Integers to and from the ten-byte encoding

FILD and FIST on the fields of the encoding. An encoding below one, one from `2 ^ 63` on and the
values between have a branch each; all of them round one magnitude by its sign and its fraction.

* `fromInt_spec`: every integer of eight bytes is encoded exactly.
* `toInt_spec`: the conversion is the rounding of the encoded value, refused where it does not fit.
-/

namespace X86Port.X87

open Lib.Rounding

abbrev I64 := BitVec 64

def int64Min : I64 := 0x8000000000000000#64

/-- The magnitude as unsigned, so the least integer is `2 ^ 63` rather than an overflow. -/
def unsignedMagnitude (value : I64) : U64 := if value.slt 0 then 0 - value else value

/-- `x86p_ext80_from_int`; `none` where the normalising loop does not end. -/
def ext80FromInt (value : I64) : Option Ext80 :=
  if value = 0 then some ⟨0, 0⟩
  else do
    let (magnitude, shift) ← normalize 64 (unsignedMagnitude value) 0
    return ⟨magnitude,
      BitVec.ofInt 16 (ext80Bias + 63 - shift) ||| (if value.slt 0 then ext80SignBit else 0)⟩

/-- Whether the discarded fraction rounds the magnitude up, by RC. `below` is the fraction's bits
and `half` one half in the same units. -/
def roundsUp (control : U16) (negative : Bool) (integer below half : U64) : Bool :=
  if below = 0 then false
  else if control &&& x87RcMask = x87RcDown then negative
  else if control &&& x87RcMask = x87RcUp then !negative
  else if control &&& x87RcMask = x87RcTruncate then false
  else below > half || (below = half && integer &&& 1 ≠ 0)

/-- The end of `x86p_ext80_to_int`: the magnitude against the limit of its sign, and the store. -/
def storeMagnitude (negative : Bool) (width : ℤ) (magnitude : U64) (out : Option I64) :
    Bool × Option I64 :=
  let bits := width.toNat * 8
  let limit : U64 := (1#64 <<< (bits - 1)) - (if negative then 0 else 1)
  if magnitude > limit then (false, out)
  else (true, some (if negative then 0 - magnitude else magnitude))

/-- `x86p_ext80_to_int`: the result and what `out` holds, `none` for a null pointer. -/
def ext80ToInt (control : U16) (value : Ext80) (width : ℤ) (out : Option I64) :
    Bool × Option I64 :=
  let negative := value.negative
  let exponent := value.exponent
  if out = none ∨ (width ≠ 2 ∧ width ≠ 4 ∧ width ≠ 8) then (false, out)
  else if exponent = 0x7FFF then (false, out)
  else if exponent ≠ 0 ∧ value.integerBit = false then (false, out)
  else if value.signif = 0 then storeMagnitude negative width 0 out
  else if exponent - ext80Bias < 0 then
    let unbiased := exponent - ext80Bias
    let below := if unbiased = -1 then value.signif else 1
    let half := if unbiased = -1 then ext80IntegerBit else uint64Max
    storeMagnitude negative width (if roundsUp control negative 0 below half then 1 else 0) out
  else if exponent - ext80Bias ≥ 63 then
    if negative ∧ width = 8 ∧ exponent - ext80Bias = 63 ∧ value.signif = ext80IntegerBit then
      (true, some int64Min)
    else (false, out)
  else
    let shift := 63 - (exponent - ext80Bias).toNat
    let integer := value.signif >>> shift
    let below := if shift ≠ 0 then value.signif &&& ((1#64 <<< shift) - 1) else 0
    let half := if shift ≠ 0 then 1#64 <<< (shift - 1) else 0
    storeMagnitude negative width
      (integer + if roundsUp control negative integer below half then 1 else 0) out

/-! ## From an integer -/

theorem slt_zero_iff (value : I64) : value.slt 0 = true ↔ value.toInt < 0 := by
  rw [BitVec.slt_iff_toInt_lt]
  rfl

theorem toNat_unsignedMagnitude (value : I64) :
    ((unsignedMagnitude value).toNat : ℤ) = |value.toInt| := by
  have hcond := BitVec.toInt_eq_toNat_cond value
  have hlt := value.isLt
  unfold unsignedMagnitude
  by_cases h : value.toInt < 0
  · rw [if_pos ((slt_zero_iff value).mpr h), abs_of_neg h, BitVec.toNat_sub]
    rw [show (0 : I64).toNat = 0 from rfl]
    split_ifs at hcond <;> omega
  · rw [if_neg ((slt_zero_iff value).not.mpr h), abs_of_nonneg (not_lt.mp h)]
    split_ifs at hcond <;> omega

theorem signed_abs_toInt (value : I64) :
    signed (value.slt 0) (|value.toInt| : ℚ) = value.toInt := by
  unfold signed
  by_cases h : value.toInt < 0
  · have h' : (value.toInt : ℚ) < 0 := by exact_mod_cast h
    rw [if_pos ((slt_zero_iff value).mpr h), abs_of_neg h', neg_neg]
  · have h' : (0 : ℚ) ≤ value.toInt := by exact_mod_cast not_lt.mp h
    rw [if_neg ((slt_zero_iff value).not.mpr h), abs_of_nonneg h']

theorem fromInt_spec (value : I64) :
    ∃ e, ext80FromInt value = some e ∧ e.IsFinite ∧ e.value = value.toInt := by
  unfold ext80FromInt
  by_cases hzero : value = 0
  · subst hzero
    refine ⟨⟨0, 0⟩, if_pos rfl, by decide, ?_⟩
    simp [Ext80.value, signed]
  · rw [if_neg hzero]
    have hmag : unsignedMagnitude value ≠ 0 := by
      intro h
      have habs := toNat_unsignedMagnitude value
      rw [h] at habs
      apply hzero
      apply BitVec.eq_of_toInt_eq
      simpa using habs.symm
    obtain ⟨top, k, hrun, hk, htop, hbit⟩ := normalize_of_ne_zero hmag
    rw [hrun]
    have hsign : (if value.slt 0 then ext80SignBit else 0) = 0 ∨
        (if value.slt 0 then ext80SignBit else 0) = ext80SignBit := by
      cases value.slt 0
      · exact Or.inl rfl
      · exact Or.inr rfl
    have hnegative : decide ((if value.slt 0 then ext80SignBit else 0) ≠ 0) = value.slt 0 := by
      cases value.slt 0 <;> rfl
    have hexp1 : 1 ≤ ext80Bias + 63 - (k : ℤ) := by
      unfold ext80Bias
      omega
    have hexp2 : ext80Bias + 63 - (k : ℤ) ≤ 0x7FFE := by
      unfold ext80Bias
      omega
    refine ⟨⟨top, signAndExp (if value.slt 0 then ext80SignBit else 0)
      (ext80Bias + 63 - k)⟩, ?_, (normal_signAndExp hsign hexp1 hexp2 hbit).isFinite, ?_⟩
    · rw [signAndExp, BitVec.or_comm]
      rfl
    · have hscale : (top.toNat : ℚ) * 2 ^ (ext80Bias + 63 - (k : ℤ) - ext80Bias - 63) =
          |(value.toInt : ℚ)| := by
        rw [htop, show ext80Bias + 63 - (k : ℤ) - ext80Bias - 63 = -(k : ℤ) by ring, zpow_neg,
          zpow_natCast]
        push_cast
        rw [mul_inv_cancel_right₀ (by positivity), ← Int.cast_abs, ← toNat_unsignedMagnitude]
        rfl
      rw [value_signAndExp hsign hexp1 hexp2, hnegative, hscale, signed_abs_toInt]

/-! ## To an integer -/

section ToInt

variable {control : U16} {negative : Bool} {integer below half : U64} {t : ℚ} {width : ℤ}

/-- The source's test is the mode's rule when its two words compare as the fraction does. -/
theorem roundsUp_iff (ht0 : 0 ≤ t) (hzero : below = 0 ↔ t = 0) (hup : half < below ↔ 1 < 2 * t)
    (htie : below = half ↔ 2 * t = 1) :
    roundsUp control negative integer below half = true ↔
      (roundingMode control).roundsUp negative integer.toNat t := by
  unfold roundsUp roundingMode
  by_cases hb : below = 0
  · have ht : t = 0 := hzero.mp hb
    subst ht
    rw [if_pos hb]
    split_ifs <;> simp [Mode.roundsUp]
  · have ht : 0 < t := lt_of_le_of_ne ht0 fun h => hb (hzero.mpr h.symm)
    rw [if_neg hb]
    split_ifs
    · simp [Mode.roundsUp, ht]
    · simp [Mode.roundsUp, ht]
    · simp [Mode.roundsUp]
    · rw [Bool.or_eq_true, Bool.and_eq_true, decide_eq_true_iff, decide_eq_true_iff,
        decide_eq_true_iff, Mode.roundsUp, even_toNat_iff, gt_iff_lt, hup, htie]

/-- What the signed integers of `width` bytes reach down to. -/
def intLimit (width : ℤ) : ℤ := 2 ^ (width.toNat * 8 - 1)

theorem intLimit_le (hwidth : width = 2 ∨ width = 4 ∨ width = 8) :
    intLimit width ≤ 2 ^ 63 ∧ (intLimit width = 2 ^ 63 → width = 8) := by
  rcases hwidth with rfl | rfl | rfl <;> decide

/-- A signed integer of `width` bytes. -/
def Fits (width r : ℤ) : Prop := -intLimit width ≤ r ∧ r < intLimit width

instance (width r : ℤ) : Decidable (Fits width r) := by
  unfold Fits
  infer_instance

theorem storeMagnitude_eq (hwidth : width = 2 ∨ width = 4 ∨ width = 8) (magnitude : U64)
    (out : Option I64) :
    storeMagnitude negative width magnitude out =
      if Fits width (signed negative (magnitude.toNat : ℤ)) then
        (true, some (BitVec.ofInt 64 (signed negative (magnitude.toNat : ℤ))))
      else (false, out) := by
  have hstored : (if negative then 0 - magnitude else magnitude) =
      BitVec.ofInt 64 (signed negative (magnitude.toNat : ℤ)) := by
    cases negative with
    | false => simp [signed]
    | true => simp [signed, BitVec.ofInt_neg]
  have hlimit : magnitude > (1#64 <<< (width.toNat * 8 - 1)) - (if negative then 0 else 1) ↔
      ¬ Fits width (signed negative (magnitude.toNat : ℤ)) := by
    have hlt := magnitude.isLt
    rw [gt_iff_lt, BitVec.lt_def, Fits, intLimit]
    rcases hwidth with rfl | rfl | rfl <;> cases negative <;> simp [signed] <;> omega
  simp only [storeMagnitude]
  rw [hstored]
  simp only [hlimit]
  by_cases hfits : Fits width (signed negative (magnitude.toNat : ℤ)) <;> simp [hfits]

theorem toInt_ofInt_of_fits (hwidth : width = 2 ∨ width = 4 ∨ width = 8) {r : ℤ}
    (h : Fits width r) : (BitVec.ofInt 64 r).toInt = r := by
  obtain ⟨hlo, hhi⟩ := h
  have hlimit := (intLimit_le hwidth).1
  rw [BitVec.toInt_ofInt, Int.bmod_eq_of_le] <;> omega

/-- What the conversion leaves for a value whose rounding is `r`. -/
def converted (width r : ℤ) (out : Option I64) : Bool × Option I64 :=
  if Fits width r then (true, some (BitVec.ofInt 64 r)) else (false, out)

theorem storeMagnitude_rounded (hwidth : width = 2 ∨ width = 4 ∨ width = 8) (out : Option I64)
    (ht0 : 0 ≤ t) (ht1 : t < 1) (hzero : below = 0 ↔ t = 0) (hup : half < below ↔ 1 < 2 * t)
    (htie : below = half ↔ 2 * t = 1) (hroom : integer.toNat < 2 ^ 63) :
    storeMagnitude negative width
        (integer + if roundsUp control negative integer below half then 1 else 0) out =
      converted width
        ((roundingMode control).round (signed negative ((integer.toNat : ℚ) + t))) out := by
  have hround := (roundingMode control).round_signed negative
    (Int.natCast_nonneg integer.toNat) ht0 ht1
  rw [Int.cast_natCast] at hround
  have hmagnitude :
      ((integer + if roundsUp control negative integer below half then 1 else 0 : U64).toNat : ℤ) =
        if (roundingMode control).roundsUp negative integer.toNat t then (integer.toNat : ℤ) + 1
        else integer.toNat := by
    simp only [roundsUp_iff ht0 hzero hup htie]
    split_ifs
    · rw [BitVec.toNat_add, show (1 : U64).toNat = 1 from rfl]
      omega
    · rw [BitVec.toNat_add, show (0 : U64).toNat = 0 from rfl]
      omega
  rw [storeMagnitude_eq hwidth, hmagnitude, hround, converted]

theorem toNat_one_shiftLeft {n : ℕ} (h : n < 64) : (1#64 <<< n).toNat = 2 ^ n := by
  rw [BitVec.toNat_shiftLeft, Nat.shiftLeft_eq]
  change 1 * 2 ^ n % 2 ^ 64 = _
  rw [one_mul, Nat.mod_eq_of_lt (Nat.pow_lt_pow_right (by omega) h)]

theorem toNat_lowMask {n : ℕ} (h : n < 64) : ((1#64 <<< n) - 1).toNat = 2 ^ n - 1 := by
  have hpos : 0 < 2 ^ n := Nat.two_pow_pos n
  have hlt : 2 ^ n < 2 ^ 64 := Nat.pow_lt_pow_right (by omega) h
  rw [BitVec.toNat_sub, toNat_one_shiftLeft h, show (1 : U64).toNat = 1 from rfl]
  omega

variable {value : Ext80}

/-- Below one: the magnitude is the rounding alone, and its fraction is compared exactly only from
one half on. -/
theorem toInt_below_one (hwidth : width = 2 ∨ width = 4 ∨ width = 8) (out : Option I64)
    (hsig : value.signif ≠ 0) (hsmall : value.exponent - ext80Bias < 0) :
    storeMagnitude value.negative width
        (if roundsUp control value.negative 0
            (if value.exponent - ext80Bias = -1 then value.signif else 1)
            (if value.exponent - ext80Bias = -1 then ext80IntegerBit else uint64Max)
          then 1 else 0) out =
      converted width ((roundingMode control).round value.value) out := by
  have hsigNat : value.signif.toNat ≠ 0 := fun h => hsig (BitVec.eq_of_toNat_eq h)
  have hsigLt := value.signif.isLt
  have hadd : ∀ b : Bool, (if b then 1 else 0 : U64) = 0 + if b then 1 else 0 := by
    intro b
    cases b <;> rfl
  rw [hadd]
  by_cases hunbiased : value.exponent - ext80Bias = -1
  · -- from one half on the significand itself is the fraction
    rw [if_pos hunbiased, if_pos hunbiased]
    have hexp : max value.exponent 1 - ext80Bias - 63 = -((63 + 1 : ℕ) : ℤ) := by
      unfold ext80Bias at *
      omega
    have hvalue : value.value = signed value.negative
        (((0 : U64).toNat : ℚ) + (value.signif.toNat : ℚ) / 2 ^ (63 + 1)) := by
      rw [Ext80.value, hexp, zpow_neg, zpow_natCast, ← div_eq_mul_inv]
      simp
    rw [hvalue]
    apply storeMagnitude_rounded hwidth out (by positivity) (digits_lt_one hsigLt)
    · rw [div_eq_zero_iff, or_iff_left (by positivity), Nat.cast_eq_zero]
      exact iff_of_false hsig hsigNat
    · rw [BitVec.lt_def]
      exact (one_lt_two_mul_digits (n := 63)).symm
    · rw [← BitVec.toNat_inj]
      exact (two_mul_digits_eq_one (n := 63)).symm
    · decide
  · -- below it only that the fraction is nonzero and less than one half matters
    rw [if_neg hunbiased, if_neg hunbiased]
    generalize hscale : max value.exponent 1 - ext80Bias - 63 = scale
    have hscaleLe : scale ≤ -65 := by
      unfold ext80Bias at *
      omega
    have hpos : (0 : ℚ) < value.signif.toNat * 2 ^ scale := by
      have : (0 : ℚ) < value.signif.toNat := by exact_mod_cast Nat.pos_of_ne_zero hsigNat
      exact mul_pos this (zpow_two_pos _)
    have hhalf : 2 * ((value.signif.toNat : ℚ) * 2 ^ scale) < 1 := by
      have hsigQ : (value.signif.toNat : ℚ) < 2 ^ (64 : ℤ) := by exact_mod_cast hsigLt
      have hle : (2 : ℚ) ^ scale ≤ 2 ^ (-65 : ℤ) := zpow_le_zpow_right₀ (by norm_num) hscaleLe
      calc 2 * ((value.signif.toNat : ℚ) * 2 ^ scale)
          < 2 * (2 ^ (64 : ℤ) * 2 ^ scale) := by
            have := mul_lt_mul_of_pos_right hsigQ (show (0 : ℚ) < 2 ^ scale from zpow_two_pos _)
            linarith
        _ ≤ 2 * (2 ^ (64 : ℤ) * 2 ^ (-65 : ℤ)) := by
            have := mul_le_mul_of_nonneg_left hle (show (0 : ℚ) ≤ 2 ^ (64 : ℤ) from (zpow_two_pos _).le)
            linarith
        _ = 1 := by norm_num
    have hvalue : value.value = signed value.negative
        (((0 : U64).toNat : ℚ) + (value.signif.toNat : ℚ) * 2 ^ scale) := by
      rw [Ext80.value, hscale]
      simp
    rw [hvalue]
    apply storeMagnitude_rounded hwidth out hpos.le (by linarith)
    · exact iff_of_false (by decide) hpos.ne'
    · exact iff_of_false (by decide) (by linarith)
    · exact iff_of_false (by decide) hhalf.ne
    · decide

theorem toInt_large (hwidth : width = 2 ∨ width = 4 ∨ width = 8) (out : Option I64)
    (hfinite : value.IsFinite) (hlarge : value.exponent - ext80Bias ≥ 63) :
    (if value.negative ∧ width = 8 ∧ value.exponent - ext80Bias = 63 ∧
        value.signif = ext80IntegerBit then (true, some int64Min) else (false, out)) =
      converted width ((roundingMode control).round value.value) out := by
  obtain ⟨d, hd⟩ : ∃ d : ℕ, value.exponent - ext80Bias = 63 + d :=
    ⟨(value.exponent - ext80Bias - 63).toNat, by omega⟩
  have hexp : max value.exponent 1 - ext80Bias - 63 = (d : ℤ) := by
    unfold ext80Bias at *
    omega
  have hbit : 2 ^ 63 ≤ value.signif.toNat := by
    rw [← Ext80.integerBit_eq_true]
    by_contra hclear
    refine hfinite.2 ⟨?_, hfinite.1, Bool.not_eq_true _ ▸ hclear⟩
    unfold ext80Bias at *
    omega
  have hround : (roundingMode control).round value.value =
      signed value.negative ((value.signif.toNat * 2 ^ d : ℕ) : ℤ) := by
    have hvalue : value.value =
        ((signed value.negative ((value.signif.toNat * 2 ^ d : ℕ) : ℤ) : ℤ) : ℚ) := by
      rw [cast_signed, Ext80.value, hexp, zpow_natCast]
      push_cast
      rfl
    rw [hvalue, Mode.round_intCast]
  have hge : 2 ^ 63 ≤ value.signif.toNat * 2 ^ d := by
    calc 2 ^ 63 ≤ value.signif.toNat := hbit
      _ ≤ _ := Nat.le_mul_of_pos_right _ (Nat.two_pow_pos d)
  rw [hround, converted]
  by_cases hleast : value.negative ∧ width = 8 ∧ value.exponent - ext80Bias = 63 ∧
      value.signif = ext80IntegerBit
  · obtain ⟨hneg, hw, hd0, hsig⟩ := hleast
    have hd' : d = 0 := by omega
    rw [if_pos ⟨hneg, hw, hd0, hsig⟩, hneg, hsig, hd', hw]
    rfl
  · rw [if_neg hleast, if_neg]
    rintro ⟨hlo, hhi⟩
    apply hleast
    obtain ⟨hlimit, hlimit8⟩ := intLimit_le hwidth
    generalize hm : value.signif.toNat * 2 ^ d = magnitude at *
    have hcase : value.negative = true ∧ width = 8 ∧ magnitude = 2 ^ 63 := by
      cases hneg : value.negative with
      | false =>
        rw [hneg] at hhi
        change (magnitude : ℤ) < _ at hhi
        omega
      | true =>
        rw [hneg] at hlo
        change _ ≤ -(magnitude : ℤ) at hlo
        exact ⟨rfl, hlimit8 (by omega), by omega⟩
    obtain ⟨hneg, hw, hmagnitude⟩ := hcase
    have hd0 : d = 0 := by
      by_contra hne
      have htwo : 2 ≤ 2 ^ d := Nat.pow_le_pow_right Nat.two_pos (show 1 ≤ d by omega)
      have hdouble := Nat.mul_le_mul hbit htwo
      rw [hm] at hdouble
      omega
    refine ⟨hneg, hw, by omega, BitVec.eq_of_toNat_eq ?_⟩
    rw [hd0, pow_zero, mul_one] at hm
    rw [hm, hmagnitude]
    rfl

theorem toInt_between (hwidth : width = 2 ∨ width = 4 ∨ width = 8) (out : Option I64)
    (hsmall : ¬ value.exponent - ext80Bias < 0) (hlarge : ¬ value.exponent - ext80Bias ≥ 63)
    {shift : ℕ} (hshift : shift = 63 - (value.exponent - ext80Bias).toNat) :
    storeMagnitude value.negative width
        (value.signif >>> shift + if roundsUp control value.negative (value.signif >>> shift)
            (if shift ≠ 0 then value.signif &&& ((1#64 <<< shift) - 1) else 0)
            (if shift ≠ 0 then 1#64 <<< (shift - 1) else 0) then 1 else 0) out =
      converted width ((roundingMode control).round value.value) out := by
  have hexp : max value.exponent 1 - ext80Bias - 63 = -(shift : ℤ) := by
    unfold ext80Bias at *
    omega
  obtain ⟨n, rfl⟩ : ∃ n, shift = n + 1 := ⟨shift - 1, by omega⟩
  have hn : n < 63 := by omega
  have hinteger : (value.signif >>> (n + 1)).toNat = value.signif.toNat / 2 ^ (n + 1) := by
    rw [BitVec.toNat_ushiftRight, Nat.shiftRight_eq_div_pow]
  have hbelow : (value.signif &&& ((1#64 <<< (n + 1)) - 1)).toNat =
      value.signif.toNat % 2 ^ (n + 1) := by
    rw [BitVec.toNat_and, toNat_lowMask (by omega), Nat.and_two_pow_sub_one_eq_mod]
  have hhalf : (1#64 <<< n).toNat = 2 ^ n := toNat_one_shiftLeft (by omega)
  have hvalue : value.value = signed value.negative
      (((value.signif >>> (n + 1)).toNat : ℚ) +
        (value.signif.toNat % 2 ^ (n + 1) : ℕ) / 2 ^ (n + 1)) := by
    rw [Ext80.value, hexp, zpow_neg, zpow_natCast, ← div_eq_mul_inv, hinteger, cast_div_two_pow]
  have hlt : value.signif.toNat % 2 ^ (n + 1) < 2 ^ (n + 1) := Nat.mod_lt _ (Nat.two_pow_pos _)
  rw [hvalue, if_pos (Nat.succ_ne_zero n), if_pos (Nat.succ_ne_zero n), Nat.add_sub_cancel]
  apply storeMagnitude_rounded hwidth out (by positivity) (digits_lt_one hlt)
  · rw [← BitVec.toNat_inj, hbelow, div_eq_zero_iff, or_iff_left (by positivity)]
    exact_mod_cast Iff.rfl
  · rw [BitVec.lt_def, hbelow, hhalf]
    exact one_lt_two_mul_digits.symm
  · rw [← BitVec.toNat_inj, hbelow, hhalf]
    exact two_mul_digits_eq_one.symm
  · rw [hinteger]
    have := value.signif.isLt
    rw [Nat.div_lt_iff_lt_mul (Nat.two_pow_pos _)]
    calc value.signif.toNat < 2 ^ 63 * 2 ^ 1 := by omega
      _ ≤ 2 ^ 63 * 2 ^ (n + 1) := Nat.mul_le_mul_left _ (Nat.pow_le_pow_right (by omega) (by omega))

theorem toInt_spec (control : U16) (value : Ext80) (hwidth : width = 2 ∨ width = 4 ∨ width = 8)
    (o : I64) :
    ext80ToInt control value width (some o) =
      if value.IsFinite then
        converted width ((roundingMode control).round value.value) (some o)
      else (false, some o) := by
  have hnot : ¬ ((some o : Option I64) = none ∨ (width ≠ 2 ∧ width ≠ 4 ∧ width ≠ 8)) := by
    rintro (h | ⟨h2, h4, h8⟩)
    · cases h
    · rcases hwidth with h | h | h
      · exact h2 h
      · exact h4 h
      · exact h8 h
  simp only [ext80ToInt]
  rw [if_neg hnot]
  by_cases hinf : value.exponent = 0x7FFF
  · rw [if_pos hinf, if_neg fun h => h.1 hinf]
  rw [if_neg hinf]
  by_cases hun : value.exponent ≠ 0 ∧ value.integerBit = false
  · rw [if_pos hun, if_neg fun h => h.2 ⟨hun.1, hinf, hun.2⟩]
  have hfinite : value.IsFinite := ⟨hinf, fun h => hun ⟨h.1, h.2.2⟩⟩
  rw [if_neg hun, if_pos hfinite]
  by_cases hsig : value.signif = 0
  · have hvalue : value.value = ((signed value.negative ((0 : U64).toNat : ℤ) : ℤ) : ℚ) := by
      rw [cast_signed, Ext80.value, hsig]
      simp
    rw [if_pos hsig, hvalue, Mode.round_intCast, storeMagnitude_eq hwidth, converted]
  rw [if_neg hsig]
  by_cases hsmall : value.exponent - ext80Bias < 0
  · rw [if_pos hsmall]
    exact toInt_below_one hwidth _ hsig hsmall
  rw [if_neg hsmall]
  by_cases hlarge : value.exponent - ext80Bias ≥ 63
  · rw [if_pos hlarge]
    exact toInt_large hwidth _ hfinite hlarge
  rw [if_neg hlarge]
  exact toInt_between hwidth _ hsmall hlarge rfl

/-- The conversion is the exact rounding of the encoded value, and refuses without a store just
where there is no value or the integer has no room; an integer encoded and converted back is
itself. -/
theorem integer_conversion_exact :
    (∀ (control : U16) (value : Ext80) (width : ℤ) (o : I64),
      width = 2 ∨ width = 4 ∨ width = 8 →
      let r := (roundingMode control).round value.value
      ((ext80ToInt control value width (some o)).1 = false ↔
        value.IsInfinityOrNan ∨ value.IsUnnormal ∨
          ¬ (-2 ^ (8 * width.toNat - 1) ≤ r ∧ r < 2 ^ (8 * width.toNat - 1))) ∧
      ((ext80ToInt control value width (some o)).1 = false →
        (ext80ToInt control value width (some o)).2 = some o) ∧
      ((ext80ToInt control value width (some o)).1 = true →
        ∃ stored, (ext80ToInt control value width (some o)).2 = some stored ∧
          stored.toInt = r)) ∧
    ∀ (control : U16) (n o : I64),
      ∃ e, ext80FromInt n = some e ∧ ext80ToInt control e 8 (some o) = (true, some n) := by
  constructor
  · intro control value width o hwidth r
    rw [toInt_spec control value hwidth o]
    have hlimit : Fits width r ↔
        -2 ^ (8 * width.toNat - 1) ≤ r ∧ r < 2 ^ (8 * width.toNat - 1) := by
      rw [Fits, intLimit, mul_comm]
    rw [← hlimit]
    by_cases hfinite : value.IsFinite
    · rw [if_pos hfinite, converted]
      by_cases hfits : Fits width r
      · rw [if_pos hfits]
        refine ⟨?_, (fun h => nomatch h), fun _ => ⟨_, rfl, toInt_ofInt_of_fits hwidth hfits⟩⟩
        have hno : ¬ (value.IsInfinityOrNan ∨ value.IsUnnormal ∨ ¬ Fits width r) := by
          rintro (h | h | h)
          · exact hfinite.1 h
          · exact hfinite.2 h
          · exact h hfits
        exact iff_of_false (fun h => nomatch h) hno
      · rw [if_neg hfits]
        exact ⟨iff_of_true rfl (Or.inr (Or.inr hfits)), fun _ => rfl, fun h => nomatch h⟩
    · rw [if_neg hfinite]
      have hclass : value.IsInfinityOrNan ∨ value.IsUnnormal := by
        rwa [Ext80.IsFinite, ← not_or, not_not] at hfinite
      refine ⟨iff_of_true rfl ?_, fun _ => rfl, fun h => nomatch h⟩
      exact hclass.elim Or.inl fun h => Or.inr (Or.inl h)
  · intro control n o
    obtain ⟨e, hencode, hfinite, hvalue⟩ := fromInt_spec n
    refine ⟨e, hencode, ?_⟩
    have hfits : Fits 8 n.toInt := ⟨BitVec.le_toInt n, BitVec.toInt_lt⟩
    rw [toInt_spec control e (Or.inr (Or.inr rfl)) o, if_pos hfinite, hvalue, Mode.round_intCast,
      converted, if_pos hfits, BitVec.ofInt_toInt]

/-- 2.5, with RC nearest. -/
def twoAndHalf : Ext80 := ⟨0xA000000000000000#64, 0x4000#16⟩

theorem twoAndHalf_converts :
    (ext80ToInt 0x037F#16 twoAndHalf 2 (some 7)).1 = true ∧
      ∃ stored, (ext80ToInt 0x037F#16 twoAndHalf 2 (some 7)).2 = some stored ∧
        stored.toInt = (roundingMode 0x037F#16).round twoAndHalf.value :=
  ⟨by decide, (integer_conversion_exact.1 _ _ 2 7 (Or.inl rfl)).2.2 (by decide)⟩

end ToInt

end X86Port.X87
