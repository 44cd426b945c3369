import X86Port.X87.Ordinary

/-!
# The multiply's ordinary case

The product of two significands in two words, doubled where it did not reach the top, and rounded
on the lower word.

* `mul64To128_eq`: the four partial products and their carries are the product.
* `mul_correctly_rounded`: the operation answers just the ordinary case, and with the exact product
  rounded.
-/

namespace X86Port.X87

open Lib.Rounding

/-- The 64 by 64 product in a high and a low word. -/
def mul64To128 (a b : U64) : U64 × U64 :=
  let a0 := a &&& 0xFFFFFFFF#64
  let a1 := a >>> 32
  let b0 := b &&& 0xFFFFFFFF#64
  let b1 := b >>> 32
  let p00 := a0 * b0
  let p01 := a0 * b1
  let p10 := a1 * b0
  let p11 := a1 * b1
  let middle := p10 + (p00 >>> 32) + (p01 &&& 0xFFFFFFFF#64)
  (p11 + (middle >>> 32) + (p01 >>> 32), (middle <<< 32) ||| (p00 &&& 0xFFFFFFFF#64))

/-- The product of two significands in `[1, 2)` is in `[1, 4)`: normalised by doubling where its
top bit is clear. -/
def normalizeProduct (product : U64 × U64) (exponent : ℤ) : U64 × U64 × ℤ :=
  let (hi, lo) := product
  if hi >>> 63 = 0 then ((hi <<< 1) ||| (lo >>> 63), lo <<< 1, exponent - 1) else (hi, lo, exponent)

/-- `x86p_ext80_mul_ordinary`. -/
def ext80MulOrdinary (control : U16) (x y : Ext80) (out : Option Ext80) (flags : Option U16) :
    Outcome :=
  if out = none ∨ flags = none then (false, out, flags)
  else if ¬ ext80ControlIsOrdinary control then (false, out, flags)
  else
    let sign := (x.signExp ^^^ y.signExp) &&& ext80SignBit
    if ext80IsZero x || ext80IsZero y then
      if ¬ ext80IsNormalOrZero x ∨ ¬ ext80IsNormalOrZero y then (false, out, flags)
      else (true, some ⟨0, sign⟩, flags)
    else if ¬ ext80IsNormal x ∨ ¬ ext80IsNormal y then (false, out, flags)
    else
      -- two biased exponents carry the bias twice, and the leading one lands one place above
      let exponent := x.exponent + y.exponent - (ext80Bias - 1)
      let (hi, lo, exponent) := normalizeProduct (mul64To128 x.signif y.signif) exponent
      publish sign (roundPair hi lo false exponent) out flags

/-! ## The product of two words -/

theorem toNat_low32 (a : U64) : (a &&& 0xFFFFFFFF#64).toNat = a.toNat % 2 ^ 32 := by
  rw [BitVec.toNat_and]
  exact Nat.and_two_pow_sub_one_eq_mod _ 32

theorem toNat_high32 (a : U64) : (a >>> 32).toNat = a.toNat / 2 ^ 32 := by
  rw [BitVec.toNat_ushiftRight, Nat.shiftRight_eq_div_pow]

theorem half_product_le {m n : ℕ} (hm : m < 2 ^ 32) (hn : n < 2 ^ 32) :
    m * n ≤ (2 ^ 32 - 1) * (2 ^ 32 - 1) := Nat.mul_le_mul (by omega) (by omega)

theorem toNat_half_product {a b : U64} (ha : a.toNat < 2 ^ 32) (hb : b.toNat < 2 ^ 32) :
    (a * b).toNat = a.toNat * b.toNat := by
  have := half_product_le ha hb
  rw [BitVec.toNat_mul, Nat.mod_eq_of_lt]
  omega

/-- A word moved up by half a word, with another word's lower half below it. -/
theorem toNat_join32 (a b : U64) : ((a <<< 32) ||| (b &&& 0xFFFFFFFF#64)).toNat =
    a.toNat % 2 ^ 32 * 2 ^ 32 + b.toNat % 2 ^ 32 := by
  have hshift : (a <<< 32).toNat = (a.toNat % 2 ^ 32) <<< 32 := by
    rw [BitVec.toNat_shiftLeft, Nat.shiftLeft_eq, Nat.shiftLeft_eq]
    omega
  rw [BitVec.toNat_or, hshift, toNat_low32,
    ← Nat.shiftLeft_add_eq_or_of_lt (Nat.mod_lt _ (by positivity)), Nat.shiftLeft_eq]

theorem mul64To128_eq (a b : U64) :
    (mul64To128 a b).1.toNat * 2 ^ 64 + (mul64To128 a b).2.toNat = a.toNat * b.toNat := by
  have ha := a.isLt
  have hb := b.isLt
  simp only [mul64To128]
  rw [toNat_join32]
  have hp (u w : U64) (hu : u.toNat < 2 ^ 32) (hw : w.toNat < 2 ^ 32) := toNat_half_product hu hw
  have ha0 : (a &&& 0xFFFFFFFF#64).toNat < 2 ^ 32 := by rw [toNat_low32]; omega
  have hb0 : (b &&& 0xFFFFFFFF#64).toNat < 2 ^ 32 := by rw [toNat_low32]; omega
  have ha1 : (a >>> 32).toNat < 2 ^ 32 := by rw [toNat_high32]; omega
  have hb1 : (b >>> 32).toNat < 2 ^ 32 := by rw [toNat_high32]; omega
  have hsplit : a.toNat * b.toNat =
      ((a >>> 32).toNat * 2 ^ 32 + (a &&& 0xFFFFFFFF#64).toNat) *
        ((b >>> 32).toNat * 2 ^ 32 + (b &&& 0xFFFFFFFF#64).toNat) := by
    rw [toNat_low32, toNat_high32, toNat_low32, toNat_high32, Nat.div_add_mod', Nat.div_add_mod']
  have hlt : a.toNat * b.toNat < 2 ^ 128 := by
    calc a.toNat * b.toNat ≤ (2 ^ 64 - 1) * (2 ^ 64 - 1) := Nat.mul_le_mul (by omega) (by omega)
      _ < 2 ^ 128 := by norm_num
  rw [hsplit] at hlt ⊢
  have h00 := half_product_le ha0 hb0
  have h01 := half_product_le ha0 hb1
  have h10 := half_product_le ha1 hb0
  rw [← hp _ _ ha0 hb0] at h00
  rw [← hp _ _ ha0 hb1] at h01
  rw [← hp _ _ ha1 hb0] at h10
  have hexpand (A1 A0 B1 B0 : ℕ) : (A1 * 2 ^ 32 + A0) * (B1 * 2 ^ 32 + B0) =
      A1 * B1 * 2 ^ 64 + (A1 * B0 + A0 * B1) * 2 ^ 32 + A0 * B0 := by ring
  rw [hexpand, ← hp _ _ ha1 hb1, ← hp _ _ ha1 hb0, ← hp _ _ ha0 hb1, ← hp _ _ ha0 hb0] at hlt ⊢
  generalize (a &&& 0xFFFFFFFF#64) * (b &&& 0xFFFFFFFF#64) = p00 at *
  generalize (a &&& 0xFFFFFFFF#64) * (b >>> 32) = p01 at *
  generalize (a >>> 32) * (b &&& 0xFFFFFFFF#64) = p10 at *
  generalize (a >>> 32) * (b >>> 32) = p11 at *
  have hmiddle : (p10 + (p00 >>> 32) + (p01 &&& 0xFFFFFFFF#64)).toNat =
      p10.toNat + p00.toNat / 2 ^ 32 + p01.toNat % 2 ^ 32 := by
    rw [BitVec.toNat_add, BitVec.toNat_add, toNat_high32, toNat_low32]
    omega
  rw [BitVec.toNat_add, BitVec.toNat_add, toNat_high32, toNat_high32, hmiddle]
  omega

/-! ## The normalised product -/

theorem normalizeProduct_spec {hi lo : U64} (h : 2 ^ 126 ≤ hi.toNat * 2 ^ 64 + lo.toNat)
    (e scale : ℤ) :
    let normalized := normalizeProduct (hi, lo) e
    2 ^ 63 ≤ normalized.1.toNat ∧
      ((normalized.1.toNat * 2 ^ 64 + normalized.2.1.toNat : ℕ) : ℚ) *
          2 ^ (normalized.2.2 + scale) =
        ((hi.toNat * 2 ^ 64 + lo.toNat : ℕ) : ℚ) * 2 ^ (e + scale) := by
  have hlo := lo.isLt
  have htop : hi >>> 63 = 0 ↔ hi.toNat < 2 ^ 63 := by
    rw [← BitVec.toNat_inj, BitVec.toNat_ushiftRight, Nat.shiftRight_eq_div_pow]
    change _ = 0 ↔ _
    omega
  simp only [normalizeProduct, htop]
  by_cases hclear : hi.toNat < 2 ^ 63
  · have hpair := toNat_shiftPair lo (show 1 ≤ 64 by omega)
      (show hi.toNat * 2 ^ 1 < 2 ^ 64 by omega)
    have hlt := (lo <<< 1).isLt
    rw [if_pos hclear]
    change 2 ^ 63 ≤ ((hi <<< 1) ||| (lo >>> (64 - 1))).toNat ∧
      ((((hi <<< 1) ||| (lo >>> (64 - 1))).toNat * 2 ^ 64 + (lo <<< 1).toNat : ℕ) : ℚ) *
        2 ^ (e - 1 + scale) = _
    have hscale : (2 : ℚ) ^ (e + scale) = 2 * 2 ^ (e - 1 + scale) := by
      rw [show e + scale = 1 + (e - 1 + scale) by ring, zpow_add₀ two_ne_zero, zpow_one]
    constructor
    · omega
    · rw [hpair, hscale]
      push_cast
      ring
  · rw [if_neg hclear]
    refine ⟨?_, rfl⟩
    change 2 ^ 63 ≤ hi.toNat
    omega

/-! ## The operation -/

variable {x y : Ext80}

theorem product_sign (x y : Ext80) :
    decide ((x.signExp ^^^ y.signExp) &&& ext80SignBit ≠ 0) = (x.negative ^^ y.negative) := by
  rw [and_signBit, BitVec.getLsbD_xor, x.negative_eq, y.negative_eq]
  cases x.signExp.getLsbD 15 ^^ y.signExp.getLsbD 15 <;> rfl

/-- Two normals: the normalised product stands for the exact one. -/
theorem product_pair (hx : x.Normal) (hy : y.Normal) :
    let normalized := normalizeProduct (mul64To128 x.signif y.signif)
      (x.exponent + y.exponent - (ext80Bias - 1))
    2 ^ 63 ≤ normalized.1.toNat ∧
      x.value * y.value = pairValue (x.negative ^^ y.negative) normalized.1
        (normalized.2.1.toNat : ℚ) normalized.2.2 := by
  have hproduct := mul64To128_eq x.signif y.signif
  have hge : 2 ^ 126 ≤ x.signif.toNat * y.signif.toNat := by
    calc 2 ^ 126 = 2 ^ 63 * 2 ^ 63 := by norm_num
      _ ≤ _ := Nat.mul_le_mul hx.2.2 hy.2.2
  rw [← hproduct] at hge
  have hspec := normalizeProduct_spec hge (x.exponent + y.exponent - (ext80Bias - 1))
    (-ext80Bias - 127)
  rw [hproduct] at hspec
  dsimp only at hspec ⊢
  generalize normalizeProduct (mul64To128 x.signif y.signif)
    (x.exponent + y.exponent - (ext80Bias - 1)) = normalized at hspec ⊢
  obtain ⟨hi, lo, e⟩ := normalized
  dsimp only at hspec ⊢
  obtain ⟨htop, hvalue⟩ := hspec
  refine ⟨htop, ?_⟩
  rw [hx.value_eq, hy.value_eq, signed_mul_signed, pairValue]
  congr 1
  have hwords := words_scaled hi (lo.toNat : ℚ) (e + (-ext80Bias - 127))
  have hsignifs : (x.signif.toNat : ℚ) * 2 ^ (x.exponent - ext80Bias - 63) *
      (y.signif.toNat * 2 ^ (y.exponent - ext80Bias - 63)) =
      ((x.signif.toNat * y.signif.toNat : ℕ) : ℚ) *
        2 ^ (x.exponent + y.exponent - (ext80Bias - 1) + (-ext80Bias - 127)) := by
    rw [mul_mul_mul_comm, ← zpow_add₀ two_ne_zero, Nat.cast_mul]
    congr 2
    ring
  rw [hsignifs, ← hvalue, show e - ext80Bias - 63 = e + (-ext80Bias - 127) + 64 by ring, hwords]
  push_cast
  rfl

/-- The operation answers just where the claim of the header says, with the exact product rounded
to 64 significant bits, and otherwise writes nothing. -/
theorem mul_correctly_rounded (control : U16) (x y : Ext80) (o : Ext80) (f : U16) :
    let result := ext80MulOrdinary control x y (some o) (some f)
    (result.1 = true ↔ roundingMode control = .nearest ∧
      control &&& x87PcMask = x87PcExtended ∧ (x.Normal ∨ x.Zero) ∧ (y.Normal ∨ y.Zero) ∧
        (x.value * y.value = 0 ∨ InRange (x.value * y.value))) ∧
    (result.1 = true → Answers (x.value * y.value) (x.negative ^^ y.negative) f result) ∧
    (result.1 = false → result.2 = (some o, some f)) := by
  have hnull : ¬ ((some o : Option Ext80) = none ∨ (some f : Option U16) = none) := by simp
  have hsign := and_signBit_cases (x.signExp ^^^ y.signExp)
  have hproductSign := product_sign x y
  simp only [ext80MulOrdinary]
  rw [if_neg hnull]
  by_cases hcontrol : ext80ControlIsOrdinary control = true
  swap
  · rw [if_pos hcontrol]
    rw [ext80ControlIsOrdinary_iff] at hcontrol
    exact refused_spec fun h => hcontrol ⟨h.1, h.2.1⟩
  rw [if_neg (not_not.mpr hcontrol)]
  obtain ⟨hnearest, hextended⟩ := ext80ControlIsOrdinary_iff.mp hcontrol
  by_cases hzero : (ext80IsZero x || ext80IsZero y) = true
  · rw [if_pos hzero]
    have hzero' : x.Zero ∨ y.Zero := by
      rwa [Bool.or_eq_true, ext80IsZero_iff, ext80IsZero_iff] at hzero
    by_cases hclass : (x.Normal ∨ x.Zero) ∧ (y.Normal ∨ y.Zero)
    · have hproduct : x.value * y.value = 0 := by
        rcases hzero' with h | h
        · rw [h.value_eq, zero_mul]
        · rw [h.value_eq, mul_zero]
      obtain ⟨hz, hnegative⟩ := signed_zero_fields hsign
      have hanswer := exact_answers (Or.inr hz) f
      rw [hz.value_eq, hnegative, hproductSign, ← hproduct] at hanswer
      rw [if_neg]
      · exact accepted_spec ⟨hnearest, hextended, hclass.1, hclass.2, Or.inl hproduct⟩ hanswer
      · rw [ext80IsNormalOrZero_iff, ext80IsNormalOrZero_iff, ← not_and_or, not_not]
        exact hclass
    · rw [if_pos]
      · exact refused_spec fun h => hclass ⟨h.2.2.1, h.2.2.2.1⟩
      · rw [ext80IsNormalOrZero_iff, ext80IsNormalOrZero_iff, ← not_and_or]
        exact hclass
  · rw [if_neg hzero]
    rw [Bool.or_eq_true, ext80IsZero_iff, ext80IsZero_iff, not_or] at hzero
    by_cases hclass : x.Normal ∧ y.Normal
    swap
    · rw [if_pos]
      · refine refused_spec fun h => hclass ⟨?_, ?_⟩
        · exact h.2.2.1.resolve_right hzero.1
        · exact h.2.2.2.1.resolve_right hzero.2
      · rw [ext80IsNormal_iff, ext80IsNormal_iff, ← not_and_or]
        exact hclass
    obtain ⟨hx, hy⟩ := hclass
    rw [if_neg (by rw [ext80IsNormal_iff, ext80IsNormal_iff, ← not_and_or, not_not]; exact ⟨hx, hy⟩)]
    have hpair := product_pair hx hy
    dsimp only at hpair
    generalize normalizeProduct (mul64To128 x.signif y.signif)
      (x.exponent + y.exponent - (ext80Bias - 1)) = normalized at hpair ⊢
    obtain ⟨hi, lo, e⟩ := normalized
    obtain ⟨htop, hvalue⟩ := hpair
    have hword := pairOf_word htop lo
    rw [← hproductSign] at hvalue ⊢
    have hne : x.value * y.value ≠ 0 := mul_ne_zero hx.value_ne_zero hy.value_ne_zero
    by_cases hrange : InRange (x.value * y.value)
    · exact accepted_spec ⟨hnearest, hextended, Or.inl hx, Or.inl hy, Or.inr hrange⟩
        (publish_answers hsign hword hvalue hrange o f)
    · dsimp only
      rw [publish_refuses hword hvalue hrange]
      exact refused_spec fun h => h.2.2.2.2.elim hne hrange

end X86Port.X87
