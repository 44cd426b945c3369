import X86Port.X87.Narrow

/-!
# Widening by way of binary128

The other route from a memory operand to a register: the operand is widened to the host's
binary128, and that is reassembled as the ten-byte encoding where no bit is lost.

* `ext80ToF128Exact_roundTrip`: a normal register goes to binary128 and comes back.
* `f128Route_spec`: the route is defined just for the nonzero finite operands, and gives the
  encoding of the direct widening.
* `widening_exact_narrowing_inverts`: the loads, the stores and the route together.
-/

namespace X86Port.X87

open Lib.Rounding

/-! ## The format -/

structure F128 where
  lo : U64
  hi : U64
  deriving DecidableEq, Repr

def f128ExpMask : U32 := 0x7FFF#32

def f128SignBit : U64 := 0x8000000000000000#64

def f128HiMantMask : U64 := 0x0000FFFFFFFFFFFF#64

def f128Make (sign : U64) (biasedExp : U32) (mantHi mantLo : U64) : F128 :=
  ⟨mantLo, sign ||| (biasedExp &&& f128ExpMask).setWidth 64 <<< 48 ||| (mantHi &&& f128HiMantMask)⟩

/-- The fraction and the exponent of a nonzero operand, at its own width. -/
def f128Fields (exp : ℕ) (mant implicit : U64) (expMax bias : ℕ) : Option (U64 × ℤ) :=
  if exp = expMax then some (if mant ≠ 0 then mant ||| implicit >>> 1 else mant, 0x7FFF)
  else if exp = 0 then
    (normalizeField implicit 1 64 mant 0).map fun (mant, norm) =>
      (mant &&& (implicit - 1), 16383 + 1 - bias - norm)
  else some (mant, exp - bias + 16383)

/-- A fraction moved up in the pair of words. -/
def f128Place (mant : U64) (shift : ℕ) : U64 × U64 :=
  if shift ≥ 64 then (mant <<< (shift - 64), 0) else (mant >>> (64 - shift), mant <<< shift)

def f128Widen (sign : U64) (exp : ℕ) (mant : U64) (precision expMax bias : ℕ) : Option F128 :=
  let field := precision - 1
  let shift := 112 - field
  if exp = 0 ∧ mant = 0 then some (f128Make sign 0 0 0)
  else
    (f128Fields exp mant (1#64 <<< field) expMax bias).map fun (mant, biased) =>
      f128Make sign (BitVec.ofInt 32 biased) (f128Place mant shift).1 (f128Place mant shift).2

def f128FromF32 (bits : U32) : Option F128 :=
  f128Widen ((bits >>> 31).setWidth 64 <<< 63) ((bits >>> 23) &&& 0xFF#32).toNat
    ((bits &&& 0x7FFFFF#32).setWidth 64) 24 0xFF 127

def f128FromF64 (bits : U64) : Option F128 :=
  f128Widen (bits &&& f128SignBit) ((bits >>> 52) &&& 0x7FF#64).toNat
    (bits &&& 0xFFFFFFFFFFFFF#64) 53 0x7FF 1023

/-! ## The reassembly -/

def kInexactLowMask : U64 := 0x0001FFFFFFFFFFFF#64

def isFiniteNormal (signExponent : U16) : Bool :=
  signExponent &&& ext80ExpMask ≠ 0 ∧ signExponent &&& ext80ExpMask ≠ ext80ExpMask

def f128ToExt80Exact (bits : Option F128) (out : Option Ext80) : Bool × Option Ext80 :=
  match bits with
  | none => (false, out)
  | some words =>
    let signExponent : U16 := (words.hi >>> 48).setWidth 16
    if out = none then (false, out)
    else if isFiniteNormal signExponent = false ∨ words.lo &&& kInexactLowMask ≠ 0 then (false, out)
    else
      (true, some ⟨ext80IntegerBit ||| (words.hi &&& f128HiMantMask) <<< 15 ||| words.lo >>> 49,
        signExponent⟩)

def ext80ToF128Exact (value : Ext80) (bits : Option F128) : Bool × Option F128 :=
  if bits = none ∨ isFiniteNormal value.signExp = false ∨ value.signif &&& ext80IntegerBit = 0 then
    (false, bits)
  else
    (true, some ⟨value.signif <<< 49,
      value.signExp.setWidth 64 <<< 48 ||| ((value.signif >>> 15) &&& f128HiMantMask)⟩)

/-! ## The upper word -/

section Upper

variable (s : U16) (m : U64)

theorem getLsbD_hiMantMask (i : ℕ) : f128HiMantMask.getLsbD i = decide (i < 48) := by
  change (2 ^ 48 - 1).testBit i = _
  exact Nat.testBit_two_pow_sub_one 48 i

theorem getLsbD_inexactLowMask (i : ℕ) : kInexactLowMask.getLsbD i = decide (i < 49) := by
  change (2 ^ 49 - 1).testBit i = _
  exact Nat.testBit_two_pow_sub_one 49 i

/-- The sign and the exponent come back from above the fraction. -/
theorem upper_signExp :
    ((s.setWidth 64 <<< 48 ||| (m &&& f128HiMantMask)) >>> 48).setWidth 16 = s := by
  apply BitVec.eq_of_getLsbD_eq
  intro i hi
  simp only [BitVec.getLsbD_setWidth, BitVec.getLsbD_ushiftRight, BitVec.getLsbD_or,
    BitVec.getLsbD_shiftLeft, BitVec.getLsbD_and, getLsbD_hiMantMask]
  simp [hi, show 48 + i < 64 by omega, show i < 64 by omega]

theorem upper_fraction :
    (s.setWidth 64 <<< 48 ||| (m &&& f128HiMantMask)) &&& f128HiMantMask = m &&& f128HiMantMask := by
  apply BitVec.eq_of_getLsbD_eq
  intro i hi
  simp only [BitVec.getLsbD_or, BitVec.getLsbD_shiftLeft, BitVec.getLsbD_and, getLsbD_hiMantMask]
  by_cases h : i < 48 <;> simp [h]

end Upper

/-- The significand is the fraction's two parts and the integer bit. -/
theorem join_fraction {m : U64} (h : m.getLsbD 63 = true) :
    ext80IntegerBit ||| ((m >>> 15) &&& f128HiMantMask) <<< 15 ||| (m <<< 49) >>> 49 = m := by
  apply BitVec.eq_of_getLsbD_eq
  intro i hi
  simp only [ext80IntegerBit, BitVec.getLsbD_or, BitVec.getLsbD_shiftLeft, BitVec.getLsbD_and,
    BitVec.getLsbD_ushiftRight, BitVec.getLsbD_one, getLsbD_hiMantMask]
  rcases Nat.lt_or_ge i 15 with hlow | hhigh
  · simp [hi, hlow, show i < 63 by omega, show 49 + i < 64 by omega, show 49 + i - 49 = i by omega]
  · rcases Nat.lt_or_ge i 63 with hmid | htop
    · simp [hi, hmid, show ¬ i < 15 by omega, show i - 15 < 48 by omega,
        show 15 + (i - 15) = i by omega, show ¬ 49 + i < 64 by omega]
    · have h63 : i = 63 := by omega
      subst h63
      simp [h]

theorem isFiniteNormal_iff (v : Ext80) :
    isFiniteNormal v.signExp = true ↔ 1 ≤ v.exponent ∧ v.exponent ≤ 0x7FFE := by
  have hle := v.exponent_le
  have hmask : ext80ExpMask.toNat = 0x7FFF := rfl
  rw [isFiniteNormal, decide_eq_true_iff, ne_eq, ne_eq, ← BitVec.toNat_inj, ← BitVec.toNat_inj]
  rw [Ext80.exponent] at hle ⊢
  rw [hmask]
  change ¬ _ = 0 ∧ _ ↔ _
  omega

/-! ## There and back -/

theorem ext80ToF128Exact_normal {v : Ext80} (h : v.Normal) (b : F128) :
    ext80ToF128Exact v (some b) = (true, some ⟨v.signif <<< 49,
      v.signExp.setWidth 64 <<< 48 ||| ((v.signif >>> 15) &&& f128HiMantMask)⟩) := by
  rw [ext80ToF128Exact, if_neg]
  rintro (hnone | hexp | hbit)
  · cases hnone
  · rw [(isFiniteNormal_iff v).mpr ⟨h.1, h.2.1⟩] at hexp
    cases hexp
  · exact (integerBit_iff v.signif).mpr h.2.2 hbit

theorem f128ToExt80Exact_placed {v : Ext80} (h : v.Normal) (o : Ext80) :
    f128ToExt80Exact (some ⟨v.signif <<< 49,
      v.signExp.setWidth 64 <<< 48 ||| ((v.signif >>> 15) &&& f128HiMantMask)⟩) (some o) =
        (true, some v) := by
  have hlow : (v.signif <<< 49) &&& kInexactLowMask = 0 := by
    apply BitVec.eq_of_getLsbD_eq
    intro i hi
    simp only [BitVec.getLsbD_and, BitVec.getLsbD_shiftLeft, getLsbD_inexactLowMask]
    by_cases h : i < 49 <;> simp [h]
  have htop : v.signif.getLsbD 63 = true := by
    rw [BitVec.getLsbD, Nat.testBit_eq_decide_div_mod_eq, decide_eq_true_iff]
    have := h.2.2
    have := v.signif.isLt
    omega
  simp only [f128ToExt80Exact]
  rw [upper_signExp, upper_fraction, hlow, (isFiniteNormal_iff v).mpr ⟨h.1, h.2.1⟩,
    join_fraction htop, if_neg (by simp), if_neg (by simp)]

/-- A normal register goes to binary128 and comes back. -/
theorem ext80ToF128Exact_roundTrip {v : Ext80} (h : v.Normal) (b : F128) (o : Ext80) :
    ∃ f, ext80ToF128Exact v (some b) = (true, some f) ∧
      f128ToExt80Exact (some f) (some o) = (true, some v) :=
  ⟨_, ext80ToF128Exact_normal h b, f128ToExt80Exact_placed h o⟩

/-! ## The route -/

section Route

variable {width : ℕ} {F : Format} {b : Bool} {e : ℤ}

/-- The sign as the upper word has it. -/
def f128Sign (negative : Bool) : U64 := if negative then f128SignBit else 0

theorem f128Make_eq (h0 : 0 ≤ e) (h1 : e ≤ 0x7FFF) (mantHi mantLo : U64) :
    f128Make (f128Sign b) (BitVec.ofInt 32 e) mantHi mantLo =
      ⟨mantLo, (signAndExp (signBit b) e).setWidth 64 <<< 48 ||| (mantHi &&& f128HiMantMask)⟩ := by
  have hexp : ((BitVec.ofInt 32 e &&& f128ExpMask).setWidth 64 : U64) =
      (BitVec.ofInt 16 e).setWidth 64 := by
    apply BitVec.eq_of_toNat_eq
    rw [BitVec.toNat_setWidth, BitVec.toNat_setWidth, BitVec.toNat_and, BitVec.toNat_ofInt,
      BitVec.toNat_ofInt, show f128ExpMask.toNat = 2 ^ 15 - 1 from rfl,
      Nat.and_two_pow_sub_one_eq_mod]
    omega
  have hsign : f128Sign b = (signBit b).setWidth 64 <<< 48 := by
    cases b <;> rfl
  have hjoin (s t : U16) :
      (s.setWidth 64 <<< 48 : U64) ||| t.setWidth 64 <<< 48 = (s ||| t).setWidth 64 <<< 48 := by
    apply BitVec.eq_of_getLsbD_eq
    intro i hi
    simp only [BitVec.getLsbD_or, BitVec.getLsbD_shiftLeft, BitVec.getLsbD_setWidth]
    by_cases h : i < 48 <;> simp [h, hi, show i - 48 < 64 by omega]
  rw [f128Make, hexp, hsign, signAndExp, hjoin]

/-- Nothing but a finite normal is reassembled. -/
theorem f128ToExt80Exact_special (he : e = 0 ∨ e = 0x7FFF) (mantHi mantLo : U64) (o : Ext80) :
    f128ToExt80Exact (some (f128Make (f128Sign b) (BitVec.ofInt 32 e) mantHi mantLo)) (some o) =
      (false, some o) := by
  have h0 : 0 ≤ e := by omega
  have h1 : e ≤ 0x7FFF := by omega
  have hnot : isFiniteNormal (signAndExp (signBit b) e) = false := by
    rw [← Bool.not_eq_true, isFiniteNormal_iff ⟨0, signAndExp (signBit b) e⟩,
      exponent_signAndExp (signBit_cases b) h0 h1]
    omega
  simp only [f128ToExt80Exact]
  rw [f128Make_eq h0 h1, upper_signExp, if_neg (by simp), if_pos (Or.inl hnot)]

section Place

variable (m : U64) (shift : ℕ) {i : ℕ} (hi : i < 64)
include hi

theorem getLsbD_f128Place_hi :
    (f128Place m shift).1.getLsbD i = (decide (shift ≤ i + 64) && m.getLsbD (i + 64 - shift)) := by
  rw [f128Place]
  by_cases hshift : shift ≥ 64
  · rw [if_pos hshift, BitVec.getLsbD_shiftLeft, show i - (shift - 64) = i + 64 - shift by omega]
    by_cases h : shift ≤ i + 64
    · simp [h, hi, show ¬ i < shift - 64 by omega]
    · simp [h, show i < shift - 64 by omega]
  · rw [if_neg hshift, BitVec.getLsbD_ushiftRight, show 64 - shift + i = i + 64 - shift by omega]
    simp [show shift ≤ i + 64 by omega]

theorem getLsbD_f128Place_lo :
    (f128Place m shift).2.getLsbD i = (decide (shift ≤ i) && m.getLsbD (i - shift)) := by
  rw [f128Place]
  by_cases hshift : shift ≥ 64
  · rw [if_pos hshift]
    simp [show ¬ shift ≤ i by omega]
  · rw [if_neg hshift, BitVec.getLsbD_shiftLeft]
    by_cases h : shift ≤ i
    · simp [h, hi, show ¬ i < shift by omega]
    · simp [h, show i < shift by omega]

end Place

/-- A fraction comes to stand where the register's significand has it. -/
theorem f128Place_eq {field : ℕ} (hfield : field ≤ 52) (m : U64) :
    (f128Place (m &&& ((1#64 <<< field) - 1)) (112 - field)).1 &&& f128HiMantMask =
        ((m <<< (63 - field)) >>> 15) &&& f128HiMantMask ∧
      (f128Place (m &&& ((1#64 <<< field) - 1)) (112 - field)).2 =
        (m <<< (63 - field)) <<< 49 := by
  have hmask (i : ℕ) : ((1#64 <<< field) - 1).getLsbD i = decide (i < field) := by
    rw [BitVec.getLsbD, toNat_lowMask (by omega), Nat.testBit_two_pow_sub_one]
  constructor
  · apply BitVec.eq_of_getLsbD_eq
    intro i hi
    rw [BitVec.getLsbD_and, BitVec.getLsbD_and, getLsbD_f128Place_hi _ _ hi, getLsbD_hiMantMask,
      BitVec.getLsbD_and, hmask, BitVec.getLsbD_ushiftRight, BitVec.getLsbD_shiftLeft,
      show i + 64 - (112 - field) = i + field - 48 by omega,
      show 15 + i - (63 - field) = i + field - 48 by omega]
    by_cases h48 : i < 48
    · by_cases hin : 48 ≤ i + field
      · simp [h48, show i + field - 48 < field by omega, show 112 - field ≤ i + 64 by omega,
          show 15 + i < 64 by omega, show ¬ 15 + i < 63 - field by omega]
      · simp [show ¬ 112 - field ≤ i + 64 by omega, show 15 + i < 63 - field by omega]
    · simp [h48]
  · apply BitVec.eq_of_getLsbD_eq
    intro i hi
    rw [getLsbD_f128Place_lo _ _ hi, BitVec.getLsbD_and, hmask, BitVec.getLsbD_shiftLeft,
      BitVec.getLsbD_shiftLeft, show i - (112 - field) = i + field - 112 by omega,
      show i - 49 - (63 - field) = i + field - 112 by omega]
    by_cases hin : 112 ≤ i + field
    · simp [hi, show i + field - 112 < field by omega, show 112 - field ≤ i by omega,
        show ¬ i < 49 by omega, show i - 49 < 64 by omega, show ¬ i - 49 < 63 - field by omega]
    · simp only [show ¬ 112 - field ≤ i by omega, decide_false, Bool.false_and]
      by_cases h49 : i < 49
      · simp [h49]
      · simp [show i - 49 < 63 - field by omega]

/-- A finite nonzero operand as binary128 is its direct widening as binary128. -/
theorem f128_of_leading {field : ℕ} (hfield : field ≤ 52) {m : U64} (hlo : 2 ^ field ≤ m.toNat)
    (hhi : m.toNat < 2 ^ (field + 1)) (he1 : 1 ≤ e) (he2 : e ≤ 0x7FFE) (o : Ext80) :
    f128ToExt80Exact (some (f128Make (f128Sign b) (BitVec.ofInt 32 e)
        (f128Place (m &&& ((1#64 <<< field) - 1)) (112 - field)).1
        (f128Place (m &&& ((1#64 <<< field) - 1)) (112 - field)).2)) (some o) =
      (true, some ⟨m <<< (63 - field), signAndExp (signBit b) e⟩) := by
  obtain ⟨hplaceHi, hplaceLo⟩ := f128Place_eq hfield m
  have htop : 2 ^ 63 ≤ (m <<< (63 - field)).toNat := by
    rw [toNat_toTop (by omega) hhi]
    exact top_le (by omega) hlo
  rw [f128Make_eq (by omega) (by omega), hplaceHi, hplaceLo]
  exact f128ToExt80Exact_placed (normal_signAndExp (signBit_cases b) he1 he2 htop) o

variable {n : ℕ} {sign mant : U64} {z : Ext80}

/-- The route refuses the zeros, the infinities and the NaNs, and agrees on all else. -/
def RouteAgrees (F : Format) (n : ℕ) (z : Ext80) (f : F128) : Prop :=
  ∀ o, f128ToExt80Exact (some f) (some o) =
    if F.exponent n = F.expMax ∨ F.exponent n = 0 ∧ F.fraction n = 0 then (false, some o)
    else (true, some z)

theorem f128Widen_normal (hF : OperandFormat width F) (hsign : sign.toNat = (F.negative n).toNat)
    (hmant : mant.toNat = F.fraction n) (hn : F.Normal n)
    (hz : widen sign (F.exponent n) mant F.field F.expMax F.bias.toNat = some z) :
    ∃ f, f128Widen (f128Sign (F.negative n)) (F.exponent n) mant (F.field + 1) F.expMax
      F.bias.toNat = some f ∧ RouteAgrees F n z f := by
  have hfield := hF.field_le
  have hroom := hF.room
  have hmax := hF.expMax_le
  have hexp := Format.exponent_le (F := F) (n := n)
  have hbias := hF.bias_nonneg
  have h0 := hn.1
  have h1 := hn.2
  have hlt : mant.toNat < 2 ^ F.field := hmant ▸ Format.fraction_lt
  have himplied := toNat_or_implied (show F.field < 63 by omega) hlt
  have hfrac : (mant ||| 1#64 <<< F.field) &&& ((1#64 <<< F.field) - 1) = mant := by
    apply BitVec.eq_of_toNat_eq
    rw [toNat_fieldMask (by omega), himplied, Nat.add_mod_left, Nat.mod_eq_of_lt hlt]
  rw [widen_normal_eq hF hsign hn, Option.some_inj] at hz
  have hroute := f128_of_leading (b := F.negative n)
    (e := F.exponent n - F.bias + ext80Bias) hfield (m := mant ||| 1#64 <<< F.field)
    (by omega) (by rw [himplied, pow_succ]; omega) (by unfold ext80Bias at *; omega)
    (by unfold ext80Bias at *; omega)
  rw [hfrac, hz] at hroute
  refine ⟨f128Make (f128Sign (F.negative n)) (BitVec.ofInt 32 (F.exponent n - F.bias + ext80Bias))
    (f128Place mant (112 - F.field)).1 (f128Place mant (112 - F.field)).2, ?_, fun o => ?_⟩
  · rw [f128Widen, if_neg (fun h => h0 h.1), f128Fields, if_neg h1, if_neg h0,
      Int.toNat_of_nonneg hbias]
    rfl
  · rw [if_neg (by omega)]
    exact hroute o

theorem f128Widen_subnormal (hF : OperandFormat width F)
    (hsign : sign.toNat = (F.negative n).toNat) (hmant : mant.toNat = F.fraction n)
    (hexp : F.exponent n = 0) (hfrac : F.fraction n ≠ 0)
    (hz : widen sign (F.exponent n) mant F.field F.expMax F.bias.toNat = some z) :
    ∃ f, f128Widen (f128Sign (F.negative n)) (F.exponent n) mant (F.field + 1) F.expMax
      F.bias.toNat = some f ∧ RouteAgrees F n z f := by
  have hfield := hF.field_le
  have hroom := hF.room
  have hbias := hF.bias_nonneg
  have hmax : (0 : ℕ) ≠ F.expMax := by cases hF <;> decide
  have hne : mant ≠ 0 := fun h => hfrac (by rw [← hmant, h]; rfl)
  obtain ⟨top, k, hk, _, hlo, hhi, hrun⟩ :=
    normalizeField_eq (show F.field < 63 by omega) hne (hmant ▸ Format.fraction_lt)
  rw [widen_subnormal_eq hF hsign hexp hne hrun, Option.some_inj] at hz
  have hroute := f128_of_leading (b := F.negative n) (e := 1 - F.bias - k + ext80Bias) hfield hlo hhi
    (by unfold ext80Bias at *; omega) (by unfold ext80Bias at *; omega)
  rw [hz] at hroute
  refine ⟨f128Make (f128Sign (F.negative n)) (BitVec.ofInt 32 (1 - F.bias - k + ext80Bias))
    (f128Place (top &&& ((1#64 <<< F.field) - 1)) (112 - F.field)).1
    (f128Place (top &&& ((1#64 <<< F.field) - 1)) (112 - F.field)).2, ?_, fun o => ?_⟩
  · have hcount : (16383 : ℤ) + 1 - F.bias - (0 + k * 1) = 1 - F.bias - k + ext80Bias := by
      unfold ext80Bias
      ring
    rw [f128Widen, hexp, if_neg (fun h => hne h.2), f128Fields, if_neg hmax, if_pos rfl,
      Int.toNat_of_nonneg hbias]
    simp only [Nat.add_sub_cancel, hrun, Option.map_some, hcount]
  · rw [if_neg (by omega)]
    exact hroute o

theorem f128Widen_special (hF : OperandFormat width F) (mant : U64)
    (hexp : F.exponent n = F.expMax) (z : Ext80) :
    ∃ f, f128Widen (f128Sign (F.negative n)) (F.exponent n) mant (F.field + 1) F.expMax
      F.bias.toNat = some f ∧ RouteAgrees F n z f := by
  have hmax : F.expMax ≠ 0 := by cases hF <;> decide
  have hnonzero : ¬ (F.exponent n = 0 ∧ mant = 0) := fun h => hmax (hexp.symm.trans h.1)
  rw [f128Widen, if_neg hnonzero, f128Fields, if_pos hexp]
  refine ⟨_, rfl, fun o => ?_⟩
  rw [if_pos (Or.inl hexp)]
  exact f128ToExt80Exact_special (Or.inr rfl) _ _ o

theorem f128Widen_zero (hmant : mant.toNat = F.fraction n) (hzero : F.Zero n) (z : Ext80) :
    ∃ f, f128Widen (f128Sign (F.negative n)) (F.exponent n) mant (F.field + 1) F.expMax
      F.bias.toNat = some f ∧ RouteAgrees F n z f := by
  have hmant0 : mant = 0 := BitVec.eq_of_toNat_eq (hmant.trans hzero.2)
  rw [f128Widen, if_pos ⟨hzero.1, hmant0⟩]
  refine ⟨_, rfl, fun o => ?_⟩
  rw [if_pos (Or.inr ⟨hzero.1, hzero.2⟩)]
  exact f128ToExt80Exact_special (Or.inl rfl) _ _ o

theorem f128Widen_spec (hF : OperandFormat width F) (hsign : sign.toNat = (F.negative n).toNat)
    (hmant : mant.toNat = F.fraction n)
    (hz : widen sign (F.exponent n) mant F.field F.expMax F.bias.toNat = some z) :
    ∃ f, f128Widen (f128Sign (F.negative n)) (F.exponent n) mant (F.field + 1) F.expMax
      F.bias.toNat = some f ∧ RouteAgrees F n z f := by
  by_cases hmax : F.exponent n = F.expMax
  · exact f128Widen_special hF mant hmax z
  by_cases hexp : F.exponent n = 0
  · by_cases hfrac : F.fraction n = 0
    · exact f128Widen_zero hmant ⟨hexp, hfrac⟩ z
    · exact f128Widen_subnormal hF hsign hmant hexp hfrac hz
  · exact f128Widen_normal hF hsign hmant ⟨hexp, hmax⟩ hz

/-- What a load says of an operand, and the store of what was loaded. -/
structure LoadExact (width : ℕ) (F : Format) (n : U64) (z : Ext80) (f : F128) : Prop where
  widened : Widened F n.toNat z
  route : RouteAgrees F n.toNat z f
  stored : F.Normal n.toNat ∨ F.Zero n.toNat → ∀ o,
    ext80NarrowNearest z width (some o) = (true, some n)

theorem loadExact_of_fields {bits : U64} (hF : OperandFormat width F)
    (hbits : bits.toNat < 2 ^ F.width) (hmant : mant = bits &&& ((1#64 <<< F.field) - 1)) :
    ∃ z f, widenBits bits width = some z ∧
      f128Widen (f128Sign (F.negative bits.toNat)) (F.exponent bits.toNat) mant (F.field + 1)
        F.expMax F.bias.toNat = some f ∧ LoadExact width F bits z f := by
  have hfraction : mant.toNat = F.fraction bits.toNat := by
    rw [hmant, toNat_fieldMask (by have := hF.field_le; omega)]
    rfl
  obtain ⟨z, hz, hwidened⟩ := widenBits_spec hF hbits
  have hz' := hz
  rw [widenBits_eq hF, ← hmant] at hz'
  obtain ⟨f, hf, hroute⟩ := f128Widen_spec hF (toNat_sign hF hbits) hfraction hz'
  exact ⟨z, f, hz, hf, hwidened, hroute, fun hn o => narrow_widened hF hn hbits hwidened o⟩

end Route

/-! ## The two operands -/

theorem f128FromF32_eq (bits : U32) :
    f128FromF32 bits = f128Widen (f128Sign (binary32.negative (bits.setWidth 64).toNat))
      (binary32.exponent (bits.setWidth 64).toNat) (bits.setWidth 64 &&& ((1#64 <<< 23) - 1)) 24 0xFF
      127 := by
  have hwide : (bits.setWidth 64).toNat = bits.toNat := by
    have := bits.isLt
    rw [BitVec.toNat_setWidth]
    omega
  have hsign : (bits >>> 31).setWidth 64 <<< 63 = f128Sign (binary32.negative bits.toNat) := by
    have htop : bits.toNat / 2 ^ 31 = (binary32.negative bits.toNat).toNat :=
      Format.top_eq (F := binary32) bits.isLt
    have hword : ((bits >>> 31).setWidth 64 : U64) =
        BitVec.ofNat 64 (binary32.negative bits.toNat).toNat := by
      apply BitVec.eq_of_toNat_eq
      rw [← htop, BitVec.toNat_setWidth, BitVec.toNat_ushiftRight, Nat.shiftRight_eq_div_pow,
        BitVec.toNat_ofNat]
    rw [hword]
    cases binary32.negative bits.toNat <;> rfl
  have hexp : ((bits >>> 23) &&& 0xFF#32).toNat = binary32.exponent bits.toNat := by
    rw [BitVec.toNat_and, BitVec.toNat_ushiftRight, Nat.shiftRight_eq_div_pow]
    exact Nat.and_two_pow_sub_one_eq_mod _ 8
  have hmant : (bits &&& 0x7FFFFF#32).setWidth 64 = bits.setWidth 64 &&& ((1#64 <<< 23) - 1) := by
    rw [BitVec.setWidth_and]
    rfl
  rw [f128FromF32, hsign, hexp, hmant, hwide]

theorem f128FromF64_eq (bits : U64) :
    f128FromF64 bits = f128Widen (f128Sign (binary64.negative bits.toNat))
      (binary64.exponent bits.toNat) (bits &&& ((1#64 <<< 52) - 1)) 53 0x7FF 1023 := by
  have hsign : bits &&& f128SignBit = f128Sign (binary64.negative bits.toNat) := by
    have h := BitVec.and_twoPow bits 63
    exact h
  have hexp : ((bits >>> 52) &&& 0x7FF#64).toNat = binary64.exponent bits.toNat := by
    rw [BitVec.toNat_and, BitVec.toNat_ushiftRight, Nat.shiftRight_eq_div_pow]
    exact Nat.and_two_pow_sub_one_eq_mod _ 11
  rw [f128FromF64, hsign, hexp]
  rfl

/-- Loads are exact, by either route; stores of normals and zeros are the rounding to nearest in
the operand's normal range; and a load followed by a store changes nothing. -/
theorem widening_exact_narrowing_inverts :
    (∀ bits : U32, ∃ z f, ext80FromF32Bits bits = some z ∧ f128FromF32 bits = some f ∧
      LoadExact 4 binary32 (bits.setWidth 64) z f) ∧
    (∀ bits : U64, ∃ z f, ext80FromF64Bits bits = some z ∧ f128FromF64 bits = some f ∧
      LoadExact 8 binary64 bits z f) ∧
    ∀ (v : Ext80) (width : ℕ) (F : Format) (o : U64), OperandFormat width F →
      v.Normal ∨ v.Zero → Narrowed F v (some o) (ext80NarrowNearest v width (some o)) := by
  refine ⟨fun bits => ?_, fun bits => ?_, fun v width F o hF hv => narrow_spec hv hF o⟩
  · rw [f128FromF32_eq]
    apply loadExact_of_fields OperandFormat.binary32 _ rfl
    rw [BitVec.toNat_setWidth]
    exact lt_of_le_of_lt (Nat.mod_le _ _) bits.isLt
  · rw [f128FromF64_eq]
    exact loadExact_of_fields OperandFormat.binary64 bits.isLt rfl

/-- One and half a unit of binary32's last place, a tie. -/
def halfUlpAboveOne : Ext80 := ⟨0x8000008000000000#64, 0x3FFF#16⟩

theorem halfUlpAboveOne_narrows :
    ext80NarrowNearest halfUlpAboveOne 4 (some 0) = (true, some 0x3F800000#64) ∧
      Narrowed binary32 halfUlpAboveOne (some 0) (ext80NarrowNearest halfUlpAboveOne 4 (some 0)) :=
  ⟨by decide, widening_exact_narrowing_inverts.2.2 _ 4 _ 0 OperandFormat.binary32
    (Or.inl ⟨by decide, by decide, by decide⟩)⟩

end X86Port.X87
