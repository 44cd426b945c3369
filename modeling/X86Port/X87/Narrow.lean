import X86Port.X87.Widen

/-!
# Narrowing to a memory operand

The ordinary case of the store of an x87 register as a binary32 or binary64 operand: half a unit
of the last kept place is added, a tie is made even again, and a carry out of the significand goes
to the exponent.

* `roundField_eq`: the kept bits after the rounding are the nearest integer, also where it carried.
* `narrow_spec`: the store happens just for a zero and for a value in the operand's normal range
  before and after the rounding, and then stores the rounded value's pattern.
* `narrow_widenBits`: a normal or zero that was loaded is stored as it was.
-/

namespace X86Port.X87

open Lib.Rounding

/-! ## The narrowing -/

/-- The significand with half a unit of the last kept place added and a tie made even, and whether
the sum wrapped. -/
def roundField (signif : U64) (drop : ℕ) : U64 × Bool :=
  let half := 1#64 <<< (drop - 1)
  let below := (1#64 <<< drop) - 1
  let remainder := signif &&& below
  let rounded := signif + half
  (if remainder = half then rounded &&& ~~~(1#64 <<< drop) else rounded, rounded < signif)

def packField (sign : U64) (biased : ℤ) (signif : U64) (width field : ℕ) : U64 :=
  sign <<< (width * 8 - 1) ||| BitVec.ofInt 64 biased <<< field |||
    ((signif >>> (63 - field)) &&& ((1#64 <<< field) - 1))

def ext80NarrowNearest (value : Ext80) (width : ℕ) (out : Option U64) : Bool × Option U64 :=
  let target := ext80Source width
  let exp := value.exponent
  let sign : U64 := (value.signExp >>> 15).setWidth 64 &&& 1
  if out = none ∨ target.field = 0 then (false, out)
  else if exp = 0 ∧ value.signif = 0 then (true, some (sign <<< (width * 8 - 1)))
  else if exp = 0 ∨ exp = 0x7FFF ∨ value.signif &&& ext80IntegerBit = 0 then (false, out)
  else
    let biased := exp - ext80Bias + target.bias
    if biased < 1 ∨ biased > (target.expMax : ℤ) - 1 then (false, out)
    else
      let (signif, carried) := roundField value.signif (63 - target.field)
      if carried then
        -- the significand became the next power of two, which may be out of the target's range
        if biased + 1 > (target.expMax : ℤ) - 1 then (false, out)
        else (true, some (packField sign (biased + 1) ext80IntegerBit width target.field))
      else (true, some (packField sign biased signif width target.field))

/-! ## The rounding of the kept bits -/

section RoundField

variable {signif : U64} {d : ℕ}

theorem toNat_kept (w : U64) (d : ℕ) : (w >>> d).toNat = w.toNat / 2 ^ d := by
  rw [BitVec.toNat_ushiftRight, Nat.shiftRight_eq_div_pow]

/-- Clearing the last kept bit. -/
theorem toNat_clear_kept (w : U64) (hd : d < 64) :
    ((w &&& ~~~(1#64 <<< d)) >>> d).toNat = w.toNat / 2 ^ d / 2 * 2 := by
  have hclear : (w &&& ~~~(1#64 <<< d)) >>> d = ((w >>> d) >>> 1) <<< 1 := by
    apply BitVec.eq_of_getLsbD_eq
    intro i hi
    simp only [BitVec.getLsbD_ushiftRight, BitVec.getLsbD_and, BitVec.getLsbD_not,
      BitVec.getLsbD_shiftLeft, BitVec.getLsbD_one]
    cases i with
    | zero => simp [hd]
    | succ i =>
      have hi' : i + 1 < 64 := hi
      by_cases h : d + (i + 1) < 64
      · simp [h, hi', add_comm]
      · simp [h, hi', BitVec.getLsbD_of_ge w (d + (i + 1)) (by omega),
          BitVec.getLsbD_of_ge w (d + (1 + i)) (by omega)]
  rw [hclear, BitVec.toNat_shiftLeft, toNat_kept, toNat_kept, Nat.shiftLeft_eq, pow_one]
  have := Nat.div_le_self w.toNat (2 ^ d)
  omega

/-- Where the sum wraps the kept bits are all ones, and the digits shifted out are a half or more. -/
theorem all_ones_of_wrap {s n : ℕ} (hn : n < 63) (hlt : s < 2 ^ 64) (hwrap : 2 ^ 64 ≤ s + 2 ^ n) :
    s / 2 ^ (n + 1) + 1 = 2 ^ (63 - n) ∧ 2 ^ n ≤ s % 2 ^ (n + 1) := by
  have hall : 2 ^ 64 = 2 ^ (63 - n) * 2 ^ (n + 1) := by rw [← pow_add]; congr 1; omega
  have hdiv := Nat.div_add_mod' s (2 ^ (n + 1))
  have hmod := Nat.mod_lt s (Nat.two_pow_pos (n + 1))
  have hq : s / 2 ^ (n + 1) < 2 ^ (63 - n) := by
    rw [Nat.div_lt_iff_lt_mul (Nat.two_pow_pos _), ← hall]
    exact hlt
  have htwo : 2 ^ (n + 1) = 2 * 2 ^ n := by ring
  generalize s / 2 ^ (n + 1) = q at *
  generalize s % 2 ^ (n + 1) = r at *
  have hq1 : q + 1 = 2 ^ (63 - n) := by
    by_contra hne
    have hle : (q + 2) * 2 ^ (n + 1) ≤ 2 ^ 64 := by
      rw [hall]
      exact Nat.mul_le_mul_right _ (by omega)
    rw [add_mul] at hle
    omega
  refine ⟨hq1, ?_⟩
  rw [← hq1, add_mul] at hall
  omega

theorem carried_iff {n : ℕ} (hn : n < 63) :
    signif + (1#64 <<< n) < signif ↔ 2 ^ 64 ≤ signif.toNat + 2 ^ n := by
  have hlt := signif.isLt
  have hpos : 0 < 2 ^ n := Nat.two_pow_pos n
  have hhalf : 2 ^ n < 2 ^ 63 := Nat.pow_lt_pow_right (by omega) hn
  rw [BitVec.lt_def, BitVec.toNat_add, toNat_one_shiftLeft (by omega)]
  omega

/-- The kept bits after the rounding are the nearest integer, or it carried out of them. -/
theorem roundField_eq {n : ℕ} (hn : n < 63) (signif : U64) :
    nearestEven ((signif.toNat : ℚ) / 2 ^ (n + 1)) =
      if (roundField signif (n + 1)).2 then 2 ^ (63 - n)
      else (((roundField signif (n + 1)).1 >>> (n + 1)).toNat : ℤ) := by
  have hlt := signif.isLt
  have hhalf : (1#64 <<< n).toNat = 2 ^ n := toNat_one_shiftLeft (by omega)
  have hbelow : (signif &&& ((1#64 <<< (n + 1)) - 1)).toNat = signif.toNat % 2 ^ (n + 1) := by
    rw [BitVec.toNat_and, toNat_lowMask (by omega), Nat.and_two_pow_sub_one_eq_mod]
  have hcarried : signif + (1#64 <<< n) < signif ↔ _ := carried_iff hn
  have hmod := Nat.mod_lt signif.toNat (Nat.two_pow_pos (n + 1))
  have htwo : 2 ^ (n + 1) = 2 * 2 ^ n := by ring
  rw [nearestEven_digits]
  simp only [roundField, Nat.add_sub_cancel, decide_eq_true_iff]
  by_cases hwrap : 2 ^ 64 ≤ signif.toNat + 2 ^ n
  · obtain ⟨hq, hr⟩ := all_ones_of_wrap hn hlt hwrap
    have hodd : ¬ Even (signif.toNat / 2 ^ (n + 1)) := by
      rw [← Nat.even_add_one, hq, Nat.even_pow]
      exact ⟨even_two, by omega⟩
    rw [if_pos (hcarried.mpr hwrap), if_pos]
    · exact_mod_cast hq
    · rcases Nat.lt_or_eq_of_le hr with h | h
      · exact Or.inl h
      · exact Or.inr ⟨h.symm, hodd⟩
  · rw [if_neg (hcarried.not.mpr hwrap)]
    have hsum : (signif + (1#64 <<< n)).toNat = signif.toNat + 2 ^ n := by
      rw [BitVec.toNat_add, hhalf, Nat.mod_eq_of_lt (by omega)]
    have hkept : (signif.toNat + 2 ^ n) / 2 ^ (n + 1) = signif.toNat / 2 ^ (n + 1) +
        if 2 ^ n ≤ signif.toNat % 2 ^ (n + 1) then 1 else 0 := by
      have hdiv := Nat.div_add_mod' signif.toNat (2 ^ (n + 1))
      generalize signif.toNat / 2 ^ (n + 1) = q at *
      generalize signif.toNat % 2 ^ (n + 1) = r at *
      rw [← hdiv, add_assoc, mul_comm, Nat.mul_add_div (Nat.two_pow_pos _)]
      congr 1
      split
      · exact Nat.div_eq_of_lt_le (by omega) (by omega)
      · exact Nat.div_eq_of_lt (by omega)
    by_cases htie : signif &&& ((1#64 <<< (n + 1)) - 1) = 1#64 <<< n
    · have hr : signif.toNat % 2 ^ (n + 1) = 2 ^ n := by rw [← hbelow, htie, hhalf]
      rw [if_pos htie, toNat_clear_kept _ (by omega), hsum, hkept, hr, if_pos le_rfl]
      by_cases heven : Even (signif.toNat / 2 ^ (n + 1))
      · rw [if_neg (by simp [heven])]
        have := Nat.even_iff.mp heven
        omega
      · rw [if_pos (Or.inr ⟨rfl, heven⟩)]
        have := Nat.not_even_iff.mp heven
        omega
    · have hr : signif.toNat % 2 ^ (n + 1) ≠ 2 ^ n := fun h =>
        htie (BitVec.eq_of_toNat_eq (by rw [hbelow, h, hhalf]))
      rw [if_neg htie, toNat_kept, hsum, hkept]
      by_cases hup : 2 ^ n < signif.toNat % 2 ^ (n + 1)
      · rw [if_pos (Or.inl hup), if_pos hup.le]
        push_cast
        rfl
      · rw [if_neg (by simp [hup, hr]), if_neg (by omega)]
        rfl

end RoundField

/-! ## The rounded value -/

section Rounded

variable {v : Ext80} {field : ℕ}

/-- The significand and the exponent after the rounding. -/
def roundedTop (v : Ext80) (field : ℕ) : U64 :=
  if (roundField v.signif (63 - field)).2 then ext80IntegerBit
  else (roundField v.signif (63 - field)).1

def roundedExponent (v : Ext80) (field : ℕ) : ℤ :=
  if (roundField v.signif (63 - field)).2 then v.exponent + 1 else v.exponent

/-- The bits kept of a normal, before the rounding. -/
theorem Ext80.Normal.value_kept (h : v.Normal) (hfield : field ≤ 63) :
    v.value = signed v.negative
      ((v.signif.toNat : ℚ) / 2 ^ (63 - field) * 2 ^ (v.exponent - ext80Bias - field)) := by
  have hcast : ((63 - field : ℕ) : ℤ) = 63 - field := by omega
  rw [h.value_eq, show v.exponent - ext80Bias - (field : ℤ) =
    ((63 - field : ℕ) : ℤ) + (v.exponent - ext80Bias - 63) by omega, zpow_add₀ two_ne_zero,
    zpow_natCast, div_mul_eq_mul_div, ← mul_assoc, mul_div_right_comm, mul_div_cancel_right₀]
  exact pow_ne_zero _ two_ne_zero

theorem kept_ge (h : v.Normal) (hfield : field ≤ 63) :
    (2 : ℚ) ^ field ≤ v.signif.toNat / 2 ^ (63 - field) := by
  have hbit : 2 ^ field * 2 ^ (63 - field) ≤ v.signif.toNat := by
    rw [← pow_add, Nat.add_sub_cancel' hfield]
    exact h.2.2
  rw [le_div_iff₀ (by positivity)]
  exact_mod_cast hbit

theorem kept_lt (v : Ext80) (hfield : field ≤ 63) :
    (v.signif.toNat : ℚ) / 2 ^ (63 - field) < 2 ^ (field + 1) := by
  have hlt : v.signif.toNat < 2 ^ (field + 1) * 2 ^ (63 - field) := by
    rw [← pow_add, show field + 1 + (63 - field) = 64 by omega]
    exact v.signif.isLt
  rw [div_lt_iff₀ (by positivity)]
  exact_mod_cast hlt

theorem roundSig_kept (h : v.Normal) (hfield : field ≤ 63) :
    roundSig (field + 1) v.value = signed v.negative
      ((nearestEven ((v.signif.toNat : ℚ) / 2 ^ (63 - field)) : ℚ) *
        2 ^ (v.exponent - ext80Bias - field)) := by
  rw [h.value_kept hfield, roundSig_signed, roundSig_scaled]
  · rw [Nat.cast_add_one, add_sub_cancel_right, zpow_natCast]
    exact kept_ge h hfield
  · rw [zpow_natCast]
    exact kept_lt v hfield

theorem roundedTop_spec (h : v.Normal) (hfield : field ≤ 62) :
    2 ^ field ≤ (roundedTop v field >>> (63 - field)).toNat ∧
      (roundedTop v field >>> (63 - field)).toNat < 2 ^ (field + 1) ∧
      roundSig (field + 1) v.value = signed v.negative
        (((roundedTop v field >>> (63 - field)).toNat : ℚ) *
          2 ^ (roundedExponent v field - ext80Bias - field)) := by
  have hround := roundField_eq (show 62 - field < 63 by omega) v.signif
  rw [show 62 - field + 1 = 63 - field by omega, show 63 - (62 - field) = field + 1 by omega]
    at hround
  have hvalue := roundSig_kept h (show field ≤ 63 by omega)
  have hfloor := floor_le_nearestEven ((v.signif.toNat : ℚ) / 2 ^ (63 - field))
  rw [hround] at hvalue hfloor
  rw [hvalue, roundedTop, roundedExponent]
  cases hcarried : (roundField v.signif (63 - field)).2 with
  | true =>
    have htop : (ext80IntegerBit >>> (63 - field)).toNat = 2 ^ field := by
      rw [toNat_kept, show ext80IntegerBit.toNat = 2 ^ field * 2 ^ (63 - field) by
        rw [← pow_add, Nat.add_sub_cancel' (by omega)]; rfl, Nat.mul_div_cancel _
        (Nat.two_pow_pos _)]
    rw [if_pos rfl, if_pos rfl, if_pos rfl, htop]
    refine ⟨le_rfl, Nat.pow_lt_pow_right one_lt_two (Nat.lt_succ_self field), ?_⟩
    rw [show v.exponent + 1 - ext80Bias - (field : ℤ) = 1 + (v.exponent - ext80Bias - field) by
      ring, zpow_add₀ two_ne_zero]
    push_cast
    congr 1
    ring
  | false =>
    rw [hcarried, if_neg Bool.false_ne_true] at hfloor
    rw [if_neg Bool.false_ne_true, if_neg Bool.false_ne_true, if_neg Bool.false_ne_true]
    refine ⟨?_, ?_, by push_cast; rfl⟩
    · have hle : (2 ^ field : ℤ) ≤ ⌊(v.signif.toNat : ℚ) / 2 ^ (63 - field)⌋ :=
        Int.le_floor.mpr (by push_cast; exact kept_ge h (by omega))
      exact_mod_cast hle.trans hfloor
    · rw [toNat_kept, Nat.div_lt_iff_lt_mul (Nat.two_pow_pos _), ← pow_add,
        show field + 1 + (63 - field) = 64 by omega]
      exact BitVec.isLt _

/-- Where the leading bit of the rounded value is. -/
theorem log_roundSig (h : v.Normal) (hfield : field ≤ 62) :
    Int.log 2 |roundSig (field + 1) v.value| = roundedExponent v field - ext80Bias := by
  obtain ⟨hlo, hhi, hvalue⟩ := roundedTop_spec h hfield
  rw [hvalue, abs_signed, log_mul_zpow (b := (field : ℤ) + 1)]
  · ring
  · rw [add_sub_cancel_right, zpow_natCast]
    exact_mod_cast hlo
  · rw [← Nat.cast_add_one, zpow_natCast]
    exact_mod_cast hhi

end Rounded

/-! ## The stored pattern -/

section Store

variable {v : Ext80} {width : ℕ} {F : Format}

/-- What the store of a normal or a zero says: done just for a zero and in the normal range on both
sides of the rounding, and then with the rounded value's pattern. -/
structure Narrowed (F : Format) (v : Ext80) (out : Option U64) (result : Bool × Option U64) :
    Prop where
  done : result.1 = true ↔
    v.value = 0 ∨ F.InRange v.value ∧ F.InRange (roundSig (F.field + 1) v.value)
  pattern : result.1 = true → ∃ bits, result.2 = some bits ∧ bits.toNat < 2 ^ F.width ∧
    (F.Normal bits.toNat ∨ F.Zero bits.toNat) ∧ F.negative bits.toNat = v.negative ∧
    F.value bits.toNat = roundSig (F.field + 1) v.value
  refused : result.1 = false → result.2 = out

theorem toNat_signWord (v : Ext80) :
    (((v.signExp >>> 15).setWidth 64 &&& 1 : U64)).toNat = v.negative.toNat := by
  rw [v.negative_eq, BitVec.getLsbD, Nat.toNat_testBit]
  change ((v.signExp >>> 15).setWidth 64).toNat &&& 1 = _
  rw [Nat.and_one_is_mod, BitVec.toNat_setWidth, BitVec.toNat_ushiftRight,
    Nat.shiftRight_eq_div_pow]
  have := v.signExp.isLt
  omega

theorem toNat_packField (hF : OperandFormat width F) (signif : U64) {sign : U64} {b : Bool} {e : ℕ}
    (hsign : sign.toNat = b.toNat) (he : e < 2 ^ F.expBits) :
    (packField sign e signif width F.field).toNat =
      F.encode b e ((signif >>> (63 - F.field)).toNat % 2 ^ F.field) := by
  have hwidth := hF.width_le
  have hfrac : (signif >>> (63 - F.field)).toNat % 2 ^ F.field < 2 ^ F.field :=
    Nat.mod_lt _ (Nat.two_pow_pos _)
  have htop : (sign <<< (F.field + F.expBits)).toNat = b.toNat <<< (F.field + F.expBits) := by
    rw [BitVec.toNat_shiftLeft, hsign, Nat.mod_eq_of_lt]
    calc b.toNat <<< (F.field + F.expBits) ≤ 1 * 2 ^ (F.field + F.expBits) := by
          rw [Nat.shiftLeft_eq]
          exact Nat.mul_le_mul_right _ b.toNat_le
      _ < 2 ^ 64 := by
          rw [one_mul]
          exact Nat.pow_lt_pow_right one_lt_two hwidth
  have hexp : (BitVec.ofInt 64 (e : ℤ) <<< F.field).toNat = e <<< F.field := by
    have hlow := Format.low_lt (F := F) he (Nat.two_pow_pos F.field)
    have hpow : 2 ^ (F.field + F.expBits) ≤ 2 ^ 64 := Nat.pow_le_pow_right Nat.two_pos (by
      rw [Format.width] at hwidth
      omega)
    have he64 : e < 2 ^ 64 := by
      calc e ≤ e * 2 ^ F.field := Nat.le_mul_of_pos_right _ (Nat.two_pow_pos _)
        _ < 2 ^ 64 := by omega
    rw [BitVec.toNat_shiftLeft, BitVec.ofInt_natCast, BitVec.toNat_ofNat, Nat.mod_eq_of_lt he64,
      Nat.mod_eq_of_lt]
    rw [Nat.shiftLeft_eq]
    omega
  have hlow := Format.low_lt he hfrac
  rw [packField, hF.width_eq, Format.width, Nat.add_sub_cancel, BitVec.toNat_or, BitVec.toNat_or,
    htop, hexp, toNat_fieldMask (by have := hF.field_le; omega), Nat.or_assoc,
    ← Nat.shiftLeft_add_eq_or_of_lt hfrac, Nat.shiftLeft_eq e,
    ← Nat.shiftLeft_add_eq_or_of_lt hlow, Nat.shiftLeft_eq, Format.encode, add_assoc]

theorem inRange_iff (h : v.Normal) :
    F.InRange v.value ↔ 1 ≤ v.exponent - ext80Bias + F.bias ∧
      v.exponent - ext80Bias + F.bias < F.expMax := by
  rw [Format.InRange, h.log_value]

theorem inRange_roundSig_iff (h : v.Normal) (hF : OperandFormat width F) :
    F.InRange (roundSig (F.field + 1) v.value) ↔
      1 ≤ roundedExponent v F.field - ext80Bias + F.bias ∧
        roundedExponent v F.field - ext80Bias + F.bias < F.expMax := by
  rw [Format.InRange, log_roundSig h (by have := hF.field_le; omega)]

/-- The source's two refusals, and the pattern it stores past them. -/
theorem narrow_normal (h : v.Normal) (hF : OperandFormat width F) (o : U64) :
    ext80NarrowNearest v width (some o) =
      if F.InRange v.value ∧ F.InRange (roundSig (F.field + 1) v.value) then
        (true, some (packField ((v.signExp >>> 15).setWidth 64 &&& 1)
          (roundedExponent v F.field - ext80Bias + F.bias) (roundedTop v F.field) width F.field))
      else (false, some o) := by
  obtain ⟨h1, h2, hbit⟩ := h
  have hpos := F.field_pos
  have hnone : ¬ ((some o : Option U64) = none ∨ F.field = 0) := by
    rintro (h | h)
    · cases h
    · omega
  have hzero : ¬ (v.exponent = 0 ∧ v.signif = 0) := fun h => by omega
  have hordinary : ¬ (v.exponent = 0 ∨ v.exponent = 0x7FFF ∨ v.signif &&& ext80IntegerBit = 0) := by
    rintro (h | h | h)
    · omega
    · omega
    · exact (integerBit_iff v.signif).mpr hbit h
  simp only [inRange_iff ⟨h1, h2, hbit⟩, inRange_roundSig_iff ⟨h1, h2, hbit⟩ hF,
    ext80NarrowNearest, hF.source_eq]
  rw [if_neg hnone, if_neg hzero, if_neg hordinary, Int.toNat_of_nonneg hF.bias_nonneg,
    roundedTop, roundedExponent]
  by_cases hbefore : v.exponent - ext80Bias + F.bias < 1 ∨
      v.exponent - ext80Bias + F.bias > (F.expMax : ℤ) - 1
  · rw [if_pos hbefore, if_neg]
    rintro ⟨hrange, _⟩
    omega
  rw [if_neg hbefore]
  cases hcarried : (roundField v.signif (63 - F.field)).2 with
  | true =>
    simp only [if_true]
    rw [show v.exponent + 1 - ext80Bias + F.bias = v.exponent - ext80Bias + F.bias + 1 by ring]
    by_cases hafter : v.exponent - ext80Bias + F.bias + 1 > (F.expMax : ℤ) - 1
    · rw [if_pos hafter, if_neg]
      rintro ⟨_, hrange⟩
      omega
    · rw [if_neg hafter, if_pos]
      omega
  | false =>
    simp only [Bool.false_eq_true, if_false]
    rw [if_pos]
    omega

theorem narrow_zero (h : v.Zero) (hF : OperandFormat width F) (o : U64) :
    ext80NarrowNearest v width (some o) =
      (true, some (((v.signExp >>> 15).setWidth 64 &&& 1) <<< (width * 8 - 1))) := by
  have hpos := F.field_pos
  have hnone : ¬ ((some o : Option U64) = none ∨ F.field = 0) := by
    rintro (h | h)
    · cases h
    · omega
  rw [ext80NarrowNearest, hF.source_eq]
  dsimp only
  rw [if_neg hnone, if_pos ⟨h.1, BitVec.eq_of_toNat_eq h.2⟩]

theorem narrow_normal_spec (h : v.Normal) (hF : OperandFormat width F) (o : U64) :
    Narrowed F v (some o) (ext80NarrowNearest v width (some o)) := by
  have hfield := hF.field_le
  obtain ⟨hlo, hhi, hvalue⟩ := roundedTop_spec h (show F.field ≤ 62 by omega)
  rw [narrow_normal h hF]
  by_cases hrange : F.InRange v.value ∧ F.InRange (roundSig (F.field + 1) v.value)
  · rw [if_pos hrange]
    refine ⟨iff_of_true rfl (Or.inr hrange), fun _ => ?_, fun hfalse => nomatch hfalse⟩
    obtain ⟨h1, h2⟩ := (inRange_roundSig_iff h hF).mp hrange.2
    obtain ⟨e, he⟩ : ∃ e : ℕ, roundedExponent v F.field - ext80Bias + F.bias = e :=
      ⟨_, (Int.toNat_of_nonneg (by omega)).symm⟩
    rw [he] at h1 h2
    have heMax : e < F.expMax := by exact_mod_cast h2
    have hePow : e < 2 ^ F.expBits := lt_of_lt_of_le heMax (Nat.sub_le _ _)
    have hbits := toNat_packField hF (roundedTop v F.field) (toNat_signWord v) hePow
    generalize (roundedTop v F.field >>> (63 - F.field)).toNat = K at *
    have hfrac : K % 2 ^ F.field < 2 ^ F.field := Nat.mod_lt _ (Nat.two_pow_pos _)
    have hexp := Format.exponent_encode (F := F) (b := v.negative) hePow hfrac
    have hfraction := Format.fraction_encode (b := v.negative) (e := e) hfrac
    have hnegative := Format.negative_encode (F := F) (b := v.negative) hePow hfrac
    have hnormal : F.Normal (F.encode v.negative e (K % 2 ^ F.field)) := by
      rw [Format.Normal, hexp]
      omega
    refine ⟨_, rfl, ?_⟩
    rw [he, hbits]
    refine ⟨Format.encode_lt hePow hfrac, Or.inl hnormal, hnegative, ?_⟩
    have hK : 2 ^ F.field + K % 2 ^ F.field = K := by
      rw [pow_succ] at hhi
      rw [Nat.mod_eq_sub_mod hlo, Nat.mod_eq_of_lt (by omega)]
      omega
    rw [hnormal.value_eq, hexp, hfraction, hnegative, hK, hvalue, ← he]
    congr 3
    ring
  · rw [if_neg hrange]
    refine ⟨iff_of_false Bool.false_ne_true ?_, (fun htrue => nomatch htrue), fun _ => rfl⟩
    rintro (hzero | hin)
    · exact h.value_ne_zero hzero
    · exact hrange hin

theorem narrow_zero_spec (h : v.Zero) (hF : OperandFormat width F) (o : U64) :
    Narrowed F v (some o) (ext80NarrowNearest v width (some o)) := by
  rw [narrow_zero h hF]
  refine ⟨iff_of_true rfl (Or.inl h.value_eq), fun _ => ?_, fun hfalse => nomatch hfalse⟩
  have he : 0 < 2 ^ F.expBits := Nat.two_pow_pos _
  have hf : 0 < 2 ^ F.field := Nat.two_pow_pos _
  have hbits : (((v.signExp >>> 15).setWidth 64 &&& 1 : U64) <<< (width * 8 - 1)).toNat =
      F.encode v.negative 0 0 := by
    have hpack := toNat_packField hF 0 (toNat_signWord v) he
    simpa [packField] using hpack
  have hzero : F.Zero (F.encode v.negative 0 0) :=
    ⟨Format.exponent_encode he hf, Format.fraction_encode hf⟩
  refine ⟨_, rfl, ?_⟩
  rw [hbits]
  refine ⟨Format.encode_lt he hf, Or.inr hzero, Format.negative_encode he hf, ?_⟩
  rw [hzero.value_eq, h.value_eq, roundSig_zero]

theorem narrow_spec (h : v.Normal ∨ v.Zero) (hF : OperandFormat width F) (o : U64) :
    Narrowed F v (some o) (ext80NarrowNearest v width (some o)) :=
  h.elim (fun h => narrow_normal_spec h hF o) fun h => narrow_zero_spec h hF o

/-! ## Loading and storing -/

/-- What was loaded is stored as it was. -/
theorem narrow_widened {n : U64} {z : Ext80} (hF : OperandFormat width F)
    (hn : F.Normal n.toNat ∨ F.Zero n.toNat) (hlt : n.toNat < 2 ^ F.width)
    (hz : Widened F n.toNat z) (o : U64) :
    ext80NarrowNearest z width (some o) = (true, some n) := by
  have hmax : F.exponent n.toNat ≠ F.expMax := by
    rcases hn with h | h
    · exact h.2
    · rw [h.1]
      cases hF <;> decide
  have hclass : z.Normal ∨ z.Zero := by
    by_cases hzero : F.Zero n.toNat
    · exact Or.inr (hz.zero hzero)
    · exact Or.inl (hz.normal hmax hzero)
  have hspec := narrow_spec hclass hF o
  have hround : roundSig (F.field + 1) z.value = F.value n.toNat := by
    rw [hz.value hmax, Format.roundSig_value]
  have hdone : (ext80NarrowNearest z width (some o)).1 = true := by
    rw [hspec.done, hround, hz.value hmax]
    rcases hn with h | h
    · exact Or.inr ⟨h.inRange, h.inRange⟩
    · exact Or.inl h.value_eq
  obtain ⟨bits, hbits, hbitsLt, hcases, hneg, hvalue⟩ := hspec.pattern hdone
  rw [hround] at hvalue
  rw [hz.negative] at hneg
  have hsame : bits.toNat = n.toNat := by
    rcases hcases, hn with ⟨hb | hb, h | h⟩
    · exact hb.eq_of_value h hbitsLt hlt hneg hvalue
    · exact absurd (hvalue.trans h.value_eq) hb.value_ne_zero
    · exact absurd (hvalue.symm.trans hb.value_eq) h.value_ne_zero
    · exact hb.eq_of_negative h hbitsLt hlt hneg
  rw [← BitVec.eq_of_toNat_eq hsame, ← hbits, ← hdone]

end Store

end X86Port.X87
