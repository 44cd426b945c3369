import X86Port.Lib.SignedDivision
import X86Port.Cpu.AluShift
import X86Port.Cpu.Compare
import Mathlib.Tactic.Positivity

/-!
# Multiplication and division

The two halves of a product, and of a dividend, are one word of twice the width (`pair`).

* `mul_exact`, `imul_exact`: the product and the two flags.
* `div_some_iff`, `idiv_some_iff`: the quotient and the remainder, and when there is none.
* `aluIdivChecked_eq` and its siblings: no 64-bit intermediate overflows.
-/

namespace X86Port.Cpu

open Lib

/-! ## Words of twice the width -/

def pair (w : Width) (hi lo : U32) : BitVec (w.bits + w.bits) := operand w hi ++ operand w lo

theorem getLsbD_operand (w : Width) (v : U32) (i : Nat) :
    (operand w v).getLsbD i = (decide (i < w.bits) && v.getLsbD i) :=
  BitVec.getLsbD_setWidth ..

theorem signed64_eq (v : U32) (w : Width) : signed64 v w = (operand w v).signExtend 64 := by
  have hbits := w.bits_pos
  apply BitVec.eq_of_getLsbD_eq
  intro i hi
  rw [signed64, BitVec.getLsbD_sshiftRight, BitVec.getLsbD_signExtend, BitVec.msb_signExtend]
  simp only [BitVec.getLsbD_signExtend, BitVec.msb_eq_getLsbD_last, BitVec.getLsbD_shiftLeft,
    getLsbD_and_widthMask, getLsbD_operand]
  by_cases hlow : i < w.bits
  · rw [if_pos (by omega), if_pos (by omega)]
    simp [hi, hlow, show 32 - w.bits + i < 32 by omega, show 32 - w.bits + i < 64 by omega]
  · have hsign : 31 - (32 - w.bits) = w.bits - 1 := by omega
    have htop : w.bits - 1 < w.bits := by omega
    by_cases hspare : 32 - w.bits + i < 64 <;>
      simp [hi, hlow, hsign, htop, hspare, show ¬ 32 - w.bits + i < 32 by omega,
        show ¬ 31 < 32 - w.bits by omega, show ¬ 64 ≤ i by omega]

theorem pair_halves (w : Width) (full : U64) :
    pair w ((full >>> w.bits).setWidth 32 &&& widthMask w) (full.setWidth 32 &&& widthMask w) =
      full.setWidth (w.bits + w.bits) := by
  have hbits := w.bits_pos
  apply BitVec.eq_of_getLsbD_eq
  intro i hi
  rw [pair, BitVec.getLsbD_append, operand_and_widthMask, operand_and_widthMask]
  simp only [getLsbD_operand, BitVec.getLsbD_setWidth, BitVec.getLsbD_ushiftRight]
  by_cases hlow : i < w.bits
  · simp [hlow, hi, show i < 32 by omega]
  · simp [hlow, hi, show i - w.bits < w.bits by omega, show i - w.bits < 32 by omega,
      show w.bits + (i - w.bits) = i by omega]

theorem dividend_eq (w : Width) (hi lo : U32) :
    (hi &&& widthMask w).setWidth 64 <<< w.bits ||| (lo &&& widthMask w).setWidth 64 =
      (pair w hi lo).setWidth 64 := by
  have hbits := w.bits_pos
  apply BitVec.eq_of_getLsbD_eq
  intro i hi'
  simp only [BitVec.getLsbD_or, BitVec.getLsbD_shiftLeft, BitVec.getLsbD_setWidth,
    getLsbD_and_widthMask, pair, BitVec.getLsbD_append, getLsbD_operand]
  by_cases hlow : i < w.bits
  · simp [hlow, hi', show i < 32 by omega]
  · simp [hlow, hi', show i - w.bits < 64 by omega, Bool.and_comm]

theorem toInt_signed64 (v : U32) (w : Width) : (signed64 v w).toInt = (operand w v).toInt := by
  have hbits := w.bits_pos
  rw [signed64_eq, BitVec.toInt_signExtend_of_le (by omega)]

/-- A value of the signed width. -/
def SignedFits (w : Width) (n : Int) : Prop :=
  -(2 : Int) ^ (w.bits - 1) ≤ n ∧ n < 2 ^ (w.bits - 1)

instance (w : Width) (n : Int) : Decidable (SignedFits w n) :=
  inferInstanceAs (Decidable (_ ∧ _))

theorem signedFits_operand (w : Width) (v : U32) : SignedFits w (operand w v).toInt :=
  ⟨BitVec.le_toInt _, BitVec.toInt_lt⟩

theorem not_signedFits_iff (w : Width) (q : Int) :
    (q < -(2 ^ (w.bits - 1) : Int) ∨ q > (2 ^ (w.bits - 1) : Int) - 1) ↔ ¬ SignedFits w q := by
  rw [SignedFits]
  omega

theorem toInt_mul_bounds (w : Width) (x y : BitVec w.bits) :
    -((2 : Int) ^ (w.bits - 1) * 2 ^ (w.bits - 1)) ≤ x.toInt * y.toInt ∧
      x.toInt * y.toInt ≤ (2 : Int) ^ (w.bits - 1) * 2 ^ (w.bits - 1) := by
  have hbound : ∀ z : BitVec w.bits, |z.toInt| ≤ 2 ^ (w.bits - 1) := fun z =>
    abs_le.mpr ⟨BitVec.le_toInt z, BitVec.toInt_lt.le⟩
  rw [← abs_le, abs_mul]
  exact mul_le_mul (hbound x) (hbound y) (abs_nonneg _) (by positivity)

theorem signed_product (w : Width) (x y : BitVec w.bits) :
    (x.signExtend 64 * y.signExtend 64).toInt = x.toInt * y.toInt := by
  have hbits := w.bits_pos
  obtain ⟨hlow, hhigh⟩ := toInt_mul_bounds w x y
  have hpow : (2 : Int) ^ (w.bits - 1) * 2 ^ (w.bits - 1) ≤ 2 ^ 31 * 2 ^ 31 :=
    mul_le_mul (pow_le_pow_right₀ (by norm_num) (by omega))
      (pow_le_pow_right₀ (by norm_num) (by omega)) (by positivity) (by positivity)
  rw [BitVec.toInt_mul, BitVec.toInt_signExtend_of_le (by omega),
    BitVec.toInt_signExtend_of_le (by omega)]
  exact Int.bmod_eq_of_le (by omega) (by omega)

/-! ## Multiplication -/

/-- CF and OF both say `p`, and no other flag has changed. -/
structure Overflow (p : Prop) [Decidable p] (e e' : U32) : Prop where
  cf : cfOf e' = decide p
  of : ofOf e' = decide p
  only : OnlyCfOf e e'

theorem setCfOfOnly_overflow (f : Flags) (p : Prop) [Decidable p] :
    Overflow p (eflags f) (eflags (setCfOfOnly f (decide p) (decide p))) :=
  ⟨(setCfOfOnly_spec f _ _).1, setCfOfOnly_of f _ _, (setCfOfOnly_spec f _ _).2⟩

theorem toNat_pair (w : Width) (hi lo : U32) :
    (pair w hi lo).toNat = (operand w hi).toNat * 2 ^ w.bits + (operand w lo).toNat := by
  rw [pair, BitVec.toNat_append, ← Nat.shiftLeft_add_eq_or_of_lt (operand w lo).isLt,
    Nat.shiftLeft_eq]

theorem toNat_product (w : Width) (a b : U32) :
    ((a &&& widthMask w).setWidth 64 * (b &&& widthMask w).setWidth 64 : U64).toNat =
      (operand w a).toNat * (operand w b).toNat := by
  have hbits := w.bits_pos
  have hlt : (operand w a).toNat * (operand w b).toNat < 2 ^ 64 :=
    calc (operand w a).toNat * (operand w b).toNat < 2 ^ w.bits * 2 ^ w.bits :=
          Nat.mul_lt_mul'' (operand w a).isLt (operand w b).isLt
      _ ≤ 2 ^ 64 := by
        rw [← pow_add]
        exact Nat.pow_le_pow_right (by omega) (by omega)
  have hwide : ∀ v : U32, ((v &&& widthMask w).setWidth 64).toNat = (operand w v).toNat := by
    intro v
    rw [toNat_operand]
    exact BitVec.toNat_setWidth_of_le (by omega)
  rw [BitVec.toNat_mul, hwide, hwide, Nat.mod_eq_of_lt hlt]

/-- The high half is there exactly when the pair is wider than an operand. -/
theorem high_ne_zero_iff (w : Width) {hi : U32} (lo : U32) (h : hi.toNat < 2 ^ w.bits) :
    hi ≠ 0 ↔ 2 ^ w.bits ≤ (pair w hi lo).toNat := by
  have hlo := (operand w lo).isLt
  have hval : (operand w hi).toNat = hi.toNat := by
    rw [toNat_operand, and_widthMask_of_lt h]
  rw [toNat_pair, hval]
  constructor
  · intro hne
    have hpos : 0 < hi.toNat := Nat.pos_of_ne_zero fun hzero => hne (BitVec.eq_of_toNat_eq hzero)
    calc 2 ^ w.bits ≤ hi.toNat * 2 ^ w.bits := Nat.le_mul_of_pos_left _ hpos
      _ ≤ _ := Nat.le_add_right _ _
  · rintro hle rfl
    rw [BitVec.ofNat_eq_ofNat, BitVec.toNat_ofNat, Nat.zero_mod, Nat.zero_mul] at hle
    omega

theorem mul_exact (a b : U32) (w : Width) (f : Flags) {lo hi : U32} {g : Flags}
    (h : aluMul a b w f = ((lo, hi), g)) :
    (pair w hi lo).toNat = (operand w a).toNat * (operand w b).toNat ∧
      lo.toNat < 2 ^ w.bits ∧ hi.toNat < 2 ^ w.bits ∧
      Overflow (2 ^ w.bits ≤ (operand w a).toNat * (operand w b).toNat) (eflags f) (eflags g) := by
  simp only [aluMul, Prod.mk.injEq] at h
  obtain ⟨⟨hlo, hhi⟩, rfl⟩ := h
  have hlt : (operand w a).toNat * (operand w b).toNat < 2 ^ (w.bits + w.bits) := by
    rw [pow_add]
    exact Nat.mul_lt_mul'' (operand w a).isLt (operand w b).isLt
  have hpair : (pair w hi lo).toNat = (operand w a).toNat * (operand w b).toNat := by
    rw [← hlo, ← hhi, pair_halves, BitVec.toNat_setWidth, toNat_product, Nat.mod_eq_of_lt hlt]
  have hlow : lo.toNat < 2 ^ w.bits := hlo ▸ toNat_and_widthMask_lt _ _
  have hhigh : hi.toNat < 2 ^ w.bits := hhi ▸ toNat_and_widthMask_lt _ _
  refine ⟨hpair, hlow, hhigh, ?_⟩
  have hiff := high_ne_zero_iff w lo hhigh
  rw [hpair] at hiff
  rw [hhi, decide_eq_decide.mpr hiff]
  exact setCfOfOnly_overflow f _

theorem operand_low (w : Width) (full : U64) :
    operand w (full.setWidth 32 &&& widthMask w) = full.setWidth w.bits := by
  have hbits := w.bits_pos
  rw [operand_and_widthMask, operand, BitVec.setWidth_setWidth_of_le _ (by omega)]

theorem imul_exact (a b : U32) (w : Width) (f : Flags) {lo hi : U32} {g : Flags}
    (h : aluImul a b w f = ((lo, hi), g)) :
    (pair w hi lo).toInt = (operand w a).toInt * (operand w b).toInt ∧
      lo.toNat < 2 ^ w.bits ∧ hi.toNat < 2 ^ w.bits ∧
      Overflow (¬ SignedFits w ((operand w a).toInt * (operand w b).toInt)) (eflags f)
        (eflags g) := by
  have hbits := w.bits_pos
  simp only [aluImul, Prod.mk.injEq] at h
  obtain ⟨⟨hlo, hhi⟩, rfl⟩ := h
  have hproduct : (signed64 a w * signed64 b w).toInt =
      (operand w a).toInt * (operand w b).toInt := by
    rw [signed64_eq, signed64_eq, signed_product]
  obtain ⟨hlower, hupper⟩ := toInt_mul_bounds w (operand w a) (operand w b)
  have hpow : (2 : Int) ^ (w.bits - 1) * 2 ^ (w.bits - 1) < 2 ^ (w.bits + w.bits - 1) := by
    rw [← pow_add]
    exact pow_lt_pow_right₀ (by norm_num) (by omega)
  have hpair : (pair w hi lo).toInt = (operand w a).toInt * (operand w b).toInt := by
    rw [← hlo, ← hhi, pair_halves, ← hproduct]
    exact (toInt_setWidth_iff _ (by omega) (by omega)).mpr (by rw [hproduct]; omega)
  refine ⟨hpair, hlo ▸ toNat_and_widthMask_lt _ _, hhi ▸ toNat_and_widthMask_lt _ _, ?_⟩
  have hiff : signed64 lo w ≠ signed64 a w * signed64 b w ↔
      ¬ SignedFits w ((operand w a).toInt * (operand w b).toInt) := by
    rw [Ne, ← BitVec.toInt_inj, toInt_signed64, ← hlo, operand_low, SignedFits, ← hproduct,
      toInt_setWidth_iff _ (by omega) (by omega)]
  rw [hlo, decide_eq_decide.mpr hiff]
  exact setCfOfOnly_overflow f _

/-! ## Division -/

theorem toNat_dividend (w : Width) (hi lo : U32) :
    ((pair w hi lo).setWidth 64).toNat = (pair w hi lo).toNat := by
  have hbits := w.bits_pos
  exact BitVec.toNat_setWidth_of_le (by omega)

theorem aluDiv_eq (hi lo d : U32) (w : Width) :
    aluDiv hi lo d w =
      if (operand w d).toNat = 0 then none
      else if 2 ^ w.bits ≤ (pair w hi lo).toNat / (operand w d).toNat then none
      else some (BitVec.ofNat 32 ((pair w hi lo).toNat / (operand w d).toNat),
        BitVec.ofNat 32 ((pair w hi lo).toNat % (operand w d).toNat)) := by
  have hbits := w.bits_pos
  have hd : d &&& widthMask w = 0 ↔ (operand w d).toNat = 0 := by
    rw [toNat_operand, ← BitVec.toNat_inj]
    rfl
  have hwide : ((d &&& widthMask w).setWidth 64).toNat = (operand w d).toNat := by
    rw [toNat_operand]
    exact BitVec.toNat_setWidth_of_le (by omega)
  have hq : ((pair w hi lo).setWidth 64 / (d &&& widthMask w).setWidth 64).toNat =
      (pair w hi lo).toNat / (operand w d).toNat := by
    rw [BitVec.toNat_udiv, toNat_dividend, hwide]
  have hr : ((pair w hi lo).setWidth 64 % (d &&& widthMask w).setWidth 64).toNat =
      (pair w hi lo).toNat % (operand w d).toNat := by
    rw [BitVec.toNat_umod, toNat_dividend, hwide]
  have hover : (pair w hi lo).setWidth 64 / (d &&& widthMask w).setWidth 64 >
      (widthMask w).setWidth 64 ↔ 2 ^ w.bits ≤ (pair w hi lo).toNat / (operand w d).toNat := by
    have hpos : 0 < 2 ^ w.bits := Nat.two_pow_pos _
    rw [gt_iff_lt, BitVec.lt_def, hq, BitVec.toNat_setWidth_of_le (by omega), toNat_widthMask]
    omega
  simp only [aluDiv, dividend_eq, hd, hover]
  split_ifs
  · rfl
  · rfl
  · rw [← hq, ← hr, BitVec.ofNat_toNat, BitVec.ofNat_toNat]

theorem div_none_iff (hi lo d : U32) (w : Width) :
    aluDiv hi lo d w = none ↔ (operand w d).toNat = 0 ∨
      2 ^ w.bits ≤ (pair w hi lo).toNat / (operand w d).toNat := by
  rw [aluDiv_eq]
  split_ifs with hzero hover
  · simp [hzero]
  · simp [hover]
  · simp [hzero, hover]

theorem div_some_iff (hi lo d : U32) (w : Width) (q r : U32) :
    aluDiv hi lo d w = some (q, r) ↔ q.toNat < 2 ^ w.bits ∧ r.toNat < 2 ^ w.bits ∧
      Divides (pair w hi lo).toNat (operand w d).toNat q.toNat r.toNat := by
  have hbits := w.bits_pos
  have hd := (operand w d).isLt
  have hword : 2 ^ w.bits ≤ 2 ^ 32 := Nat.pow_le_pow_right (by omega) (by omega)
  rw [aluDiv_eq]
  constructor
  · intro h
    split_ifs at h with hzero hover
    have hpos : 0 < (operand w d).toNat := Nat.pos_of_ne_zero hzero
    have hmod := Nat.mod_lt (pair w hi lo).toNat hpos
    obtain ⟨rfl, rfl⟩ := Prod.mk.inj (Option.some.inj h)
    rw [BitVec.toNat_ofNat, BitVec.toNat_ofNat, Nat.mod_eq_of_lt (by omega),
      Nat.mod_eq_of_lt (by omega)]
    refine ⟨by omega, by omega, (divides_iff (by omega)).mpr ?_⟩
    rw [Int.tdiv_eq_ediv_of_nonneg (by omega), Int.tmod_eq_emod_of_nonneg (by omega)]
    exact ⟨by norm_cast, by norm_cast⟩
  · rintro ⟨hq, hr, hdivides⟩
    have hzero : (operand w d).toNat ≠ 0 := Nat.cast_ne_zero.mp hdivides.ne_zero
    rw [divides_iff (by omega), Int.tdiv_eq_ediv_of_nonneg (by omega),
      Int.tmod_eq_emod_of_nonneg (by omega)] at hdivides
    norm_cast at hdivides
    rw [if_neg hzero, hdivides.1, hdivides.2, if_neg (by omega), BitVec.ofNat_toNat,
      BitVec.ofNat_toNat, BitVec.setWidth_eq, BitVec.setWidth_eq]

/-- A word within the width is its signed reading. -/
theorem eq_of_signed {w : Width} {u v : U32} (hu : u.toNat < 2 ^ w.bits)
    (hv : v.toNat < 2 ^ w.bits) (h : (operand w u).toInt = (operand w v).toInt) : u = v := by
  rw [← and_widthMask_of_lt hu, ← and_widthMask_of_lt hv, and_widthMask_eq, and_widthMask_eq,
    BitVec.toInt_inj.mp h]

theorem toInt_operand_ofInt {w : Width} {n : Int} (h : SignedFits w n) :
    (operand w (BitVec.ofInt 32 n &&& widthMask w)).toInt = n := by
  have hbits := w.bits_pos
  have hpow : (2 : Int) ^ (w.bits - 1) ≤ 2 ^ (32 - 1) :=
    pow_le_pow_right₀ (by norm_num) (by omega)
  obtain ⟨hlower, hupper⟩ := h
  have hval : (BitVec.ofInt 32 n).toInt = n :=
    BitVec.toInt_ofInt_eq_self (by omega) (by omega) (by omega)
  rw [operand_and_widthMask, operand]
  exact ((toInt_setWidth_iff _ (by omega) (by omega)).mpr (by rw [hval]; omega)).trans hval

theorem dividend_signed (hi lo : U32) (w : Width) :
    (((pair w hi lo).setWidth 64).setWidth (w.bits * 2) |>.signExtend 64).toInt =
      (pair w hi lo).toInt := by
  have hbits := w.bits_pos
  rw [BitVec.toInt_signExtend_of_le (by omega), BitVec.toInt_setWidth, toNat_dividend, mul_two,
    BitVec.toInt_eq_toNat_bmod]

theorem aluIdiv_eq (hi lo d : U32) (w : Width) :
    aluIdiv hi lo d w =
      if (operand w d).toInt = 0 then none
      else if SignedFits w ((pair w hi lo).toInt.tdiv (operand w d).toInt) then
        some (BitVec.ofInt 32 ((pair w hi lo).toInt.tdiv (operand w d).toInt) &&& widthMask w,
          BitVec.ofInt 32 ((pair w hi lo).toInt.tmod (operand w d).toInt) &&& widthMask w)
      else none := by
  simp only [aluIdiv, dividend_eq, dividend_signed, toInt_signed64, not_signedFits_iff, ite_not]

theorem idiv_none_iff (hi lo d : U32) (w : Width) :
    aluIdiv hi lo d w = none ↔ (operand w d).toInt = 0 ∨
      ¬ SignedFits w ((pair w hi lo).toInt.tdiv (operand w d).toInt) := by
  rw [aluIdiv_eq]
  split_ifs with hzero hfits
  · simp [hzero]
  · simp [hzero, hfits]
  · simp [hfits]

theorem idiv_some_iff (hi lo d : U32) (w : Width) (q r : U32) :
    aluIdiv hi lo d w = some (q, r) ↔ q.toNat < 2 ^ w.bits ∧ r.toNat < 2 ^ w.bits ∧
      Divides (pair w hi lo).toInt (operand w d).toInt (operand w q).toInt (operand w r).toInt := by
  rw [aluIdiv_eq]
  constructor
  · intro h
    split_ifs at h with hzero hfits
    have hdivides := divides_tdiv hzero (pair w hi lo).toInt
    have hremainder : SignedFits w ((pair w hi lo).toInt.tmod (operand w d).toInt) := by
      obtain ⟨hlower, hupper⟩ := signedFits_operand w d
      obtain ⟨hsmall, hbig⟩ := abs_lt.mp hdivides.small
      rcases abs_cases (operand w d).toInt with ⟨habs, -⟩ | ⟨habs, -⟩ <;>
      · rw [habs] at hsmall hbig
        exact ⟨by omega, by omega⟩
    obtain ⟨rfl, rfl⟩ := Prod.mk.inj (Option.some.inj h)
    rw [toInt_operand_ofInt hfits, toInt_operand_ofInt hremainder]
    exact ⟨toNat_and_widthMask_lt _ _, toNat_and_widthMask_lt _ _, hdivides⟩
  · rintro ⟨hq, hr, hdivides⟩
    have hzero := hdivides.ne_zero
    obtain ⟨hquot, hrem⟩ := (divides_iff hzero).mp hdivides
    rw [if_neg hzero, hquot, hrem, if_pos (signedFits_operand w q)]
    have hword : ∀ v : U32, v.toNat < 2 ^ w.bits →
        BitVec.ofInt 32 (operand w v).toInt &&& widthMask w = v := fun v hv =>
      eq_of_signed (toNat_and_widthMask_lt _ _) hv (toInt_operand_ofInt (signedFits_operand w v))
    rw [hword q hq, hword r hr]

/-! ## The 64-bit intermediates -/

/-- A value of an unsigned 64-bit variable, if it is one. -/
def checkedUint64 (n : Nat) : Option U64 :=
  if n < 2 ^ 64 then some (BitVec.ofNat 64 n) else none

/-- A value of a signed 64-bit variable, if it is one. -/
def checkedInt64 (n : Int) : Option Int :=
  if -(2 : Int) ^ 63 ≤ n ∧ n < 2 ^ 63 then some n else none

def aluMulChecked (a b : U32) (w : Width) (f : Flags) : Option ((U32 × U32) × Flags) := do
  let m := widthMask w
  let full ← checkedUint64 ((a &&& m).toNat * (b &&& m).toNat)
  let lo := full.setWidth 32 &&& m
  let hi := (full >>> w.bits).setWidth 32 &&& m
  pure ((lo, hi), setCfOfOnly f (decide (hi ≠ 0)) (decide (hi ≠ 0)))

def aluImulChecked (a b : U32) (w : Width) (f : Flags) : Option ((U32 × U32) × Flags) := do
  let m := widthMask w
  let full ← checkedInt64 ((signed64 a w).toInt * (signed64 b w).toInt)
  let lo := (BitVec.ofInt 64 full).setWidth 32 &&& m
  let hi := (BitVec.ofInt 64 full >>> w.bits).setWidth 32 &&& m
  let overflow := decide ((signed64 lo w).toInt ≠ full)
  pure ((lo, hi), setCfOfOnly f overflow overflow)

def aluDivChecked (hi lo d : U32) (w : Width) : Option (Option (U32 × U32)) :=
  let m := widthMask w
  let d := d &&& m
  if d = 0 then
    pure none
  else do
    let high ← checkedUint64 ((hi &&& m).toNat * 2 ^ w.bits)
    let num : U64 := high ||| (lo &&& m).setWidth 64
    let q := num / d.setWidth 64
    pure (if q > m.setWidth 64 then none
      else some (q.setWidth 32, (num % d.setWidth 64).setWidth 32))

/-- The dividend, sign-extended by hand where it is narrower than the variable. -/
def idivDividend (hi lo : U32) (w : Width) : Option Int :=
  let m := widthMask w
  let nb := w.bits
  let num : U64 := (hi &&& m).setWidth 64 <<< nb ||| (lo &&& m).setWidth 64
  if nb * 2 < 64 then do
    let signBit ← checkedInt64 (2 ^ (nb * 2 - 1))
    if num &&& BitVec.ofInt 64 signBit ≠ 0 then do
      let modulus ← checkedInt64 (2 ^ (nb * 2))
      checkedInt64 (num.toInt - modulus)
    else
      pure num.toInt
  else
    pure num.toInt

def aluIdivChecked (hi lo d : U32) (w : Width) : Option (Option (U32 × U32)) :=
  let m := widthMask w
  let nb := w.bits
  let sd := (signed64 d w).toInt
  if sd = 0 then
    pure none
  else do
    let num ← idivDividend hi lo w
    if num = -(2 : Int) ^ 63 ∧ sd = -1 then
      pure none
    else do
      let q ← checkedInt64 (num.tdiv sd)
      let r ← checkedInt64 (num.tmod sd)
      let qmin ← checkedInt64 (-(2 : Int) ^ (nb - 1))
      let qmax ← checkedInt64 ((2 : Int) ^ (nb - 1) - 1)
      pure (if q < qmin ∨ q > qmax then none
        else some (BitVec.ofInt 32 q &&& m, BitVec.ofInt 32 r &&& m))

theorem aluMulChecked_eq (a b : U32) (w : Width) (f : Flags) :
    aluMulChecked a b w f = some (aluMul a b w f) := by
  have hproduct := toNat_product w a b
  have hlt := ((a &&& widthMask w).setWidth 64 * (b &&& widthMask w).setWidth 64 : U64).isLt
  rw [hproduct, toNat_operand, toNat_operand] at hlt
  have hfull : checkedUint64 ((a &&& widthMask w).toNat * (b &&& widthMask w).toNat) =
      some ((a &&& widthMask w).setWidth 64 * (b &&& widthMask w).setWidth 64) := by
    rw [checkedUint64, if_pos hlt, ← toNat_operand, ← toNat_operand, ← hproduct,
      BitVec.ofNat_toNat, BitVec.setWidth_eq]
  simp only [aluMulChecked, hfull]
  rfl

theorem checkedInt64_toInt {n : Nat} (x : BitVec n) (hn : n ≤ 64) :
    checkedInt64 x.toInt = some x.toInt := by
  have hpow : (2 : Int) ^ (n - 1) ≤ 2 ^ 63 := pow_le_pow_right₀ (by norm_num) (by omega)
  have hlower := BitVec.le_toInt x
  have hupper : x.toInt < 2 ^ (n - 1) := BitVec.toInt_lt
  exact if_pos ⟨by omega, by omega⟩

theorem aluImulChecked_eq (a b : U32) (w : Width) (f : Flags) :
    aluImulChecked a b w f = some (aluImul a b w f) := by
  have hproduct : (signed64 a w).toInt * (signed64 b w).toInt =
      (signed64 a w * signed64 b w).toInt := by
    rw [toInt_signed64, toInt_signed64, signed64_eq, signed64_eq, signed_product]
  simp only [aluImulChecked, hproduct, checkedInt64_toInt _ (le_refl 64), Option.bind_eq_bind,
    Option.bind_some, BitVec.ofInt_toInt, ne_eq, BitVec.toInt_inj]
  rfl

theorem aluDivChecked_eq (hi lo d : U32) (w : Width) :
    aluDivChecked hi lo d w = some (aluDiv hi lo d w) := by
  have hbits := w.bits_pos
  have hpow : 2 ^ w.bits * 2 ^ w.bits ≤ 2 ^ 64 := by
    rw [← pow_add]
    exact Nat.pow_le_pow_right (by omega) (by omega)
  have hlt : (hi &&& widthMask w).toNat * 2 ^ w.bits < 2 ^ 64 :=
    (Nat.mul_lt_mul_of_pos_right (toNat_and_widthMask_lt hi w) (Nat.two_pow_pos _)).trans_le hpow
  have hhigh : checkedUint64 ((hi &&& widthMask w).toNat * 2 ^ w.bits) =
      some ((hi &&& widthMask w).setWidth 64 <<< w.bits) := by
    rw [checkedUint64, if_pos hlt]
    congr 1
    apply BitVec.eq_of_toNat_eq
    rw [BitVec.toNat_ofNat, BitVec.toNat_shiftLeft, BitVec.toNat_setWidth_of_le (by omega),
      Nat.shiftLeft_eq]
  dsimp only [aluDivChecked, aluDiv]
  split_ifs with hzero
  · rfl
  all_goals
    rw [hhigh]
    simp_all

theorem idivDividend_eq (hi lo : U32) (w : Width) :
    idivDividend hi lo w = some (pair w hi lo).toInt := by
  have hbits := w.bits_pos
  have hchecked : ∀ k, k < 63 → checkedInt64 (2 ^ k) = some (2 ^ k) := by
    intro k hk
    have hpow : (2 : Int) ^ k < 2 ^ 63 := pow_lt_pow_right₀ (by norm_num) hk
    have hpos : (0 : Int) < 2 ^ k := by positivity
    exact if_pos ⟨by omega, hpow⟩
  simp only [idivDividend, dividend_eq, mul_two]
  split_ifs with hnarrow
  · have hextend := toInt_extend_by_hand (pair w hi lo) (by omega) (by omega)
    have hint := checkedInt64_toInt (pair w hi lo) (by omega)
    rw [hchecked _ (by omega), hchecked _ (by omega)]
    simp only [Option.bind_eq_bind, Option.bind_some]
    split_ifs at hextend ⊢ with hsign
    · rw [← hextend, hint]
    · rw [hextend]
      rfl
  · have hwide : w.bits + w.bits = 64 := by omega
    have hmodulus : 2 ^ (w.bits + w.bits) = 2 ^ 64 := congrArg (2 ^ ·) hwide
    rw [BitVec.toInt_setWidth, BitVec.toInt_eq_toNat_bmod (pair w hi lo), hmodulus]
    rfl

theorem checkedInt64_tdiv {n d : Int} (hn : checkedInt64 n = some n) (hd : d ≠ 0)
    (h : ¬ (n = -(2 : Int) ^ 63 ∧ d = -1)) : checkedInt64 (n.tdiv d) = some (n.tdiv d) := by
  have hrange : -(2 : Int) ^ 63 ≤ n ∧ n < 2 ^ 63 := by
    by_contra hout
    rw [checkedInt64, if_neg hout] at hn
    cases hn
  apply if_pos
  by_cases hone : d = 1
  · rw [hone, Int.tdiv_one]
    exact hrange
  · by_cases hminus : d = -1
    · rw [hminus, Int.tdiv_neg, Int.tdiv_one]
      omega
    · have hquot : (n.tdiv d).natAbs ≤ n.natAbs / 2 := by
        rw [Int.natAbs_tdiv]
        exact Nat.div_le_div_left (by omega) (by omega)
      omega

theorem checkedInt64_tmod {n d : Int} (hd : checkedInt64 d = some d) (hzero : d ≠ 0) :
    checkedInt64 (n.tmod d) = some (n.tmod d) := by
  have hrange : -(2 : Int) ^ 63 ≤ d ∧ d < 2 ^ 63 := by
    by_contra hout
    rw [checkedInt64, if_neg hout] at hd
    cases hd
  have hsmall := (divides_tdiv hzero n).small
  rw [Int.abs_eq_natAbs, Int.abs_eq_natAbs] at hsmall
  exact if_pos (by omega)

theorem aluIdivChecked_eq (hi lo d : U32) (w : Width) :
    aluIdivChecked hi lo d w = some (aluIdiv hi lo d w) := by
  have hbits := w.bits_pos
  have hpow : (2 : Int) ^ (w.bits - 1) ≤ 2 ^ 31 := pow_le_pow_right₀ (by norm_num) (by omega)
  have hpos : (0 : Int) < 2 ^ (w.bits - 1) := by positivity
  have hmin : checkedInt64 (-(2 : Int) ^ (w.bits - 1)) = some (-(2 : Int) ^ (w.bits - 1)) :=
    if_pos (by omega)
  have hmax : checkedInt64 ((2 : Int) ^ (w.bits - 1) - 1) = some ((2 : Int) ^ (w.bits - 1) - 1) :=
    if_pos (by omega)
  have hdividend := checkedInt64_toInt (pair w hi lo) (by omega)
  have hdivisor := checkedInt64_toInt (operand w d) (by omega)
  rw [aluIdiv_eq]
  simp only [aluIdivChecked, idivDividend_eq, toInt_signed64, Option.bind_eq_bind, Option.bind_some]
  by_cases hzero : (operand w d).toInt = 0
  · rw [if_pos hzero, if_pos hzero]
    rfl
  · rw [if_neg hzero, if_neg hzero]
    by_cases htrap : (pair w hi lo).toInt = -(2 : Int) ^ 63 ∧ (operand w d).toInt = -1
    · have hnot : ¬ SignedFits w ((pair w hi lo).toInt.tdiv (operand w d).toInt) := by
        rw [htrap.1, htrap.2, Int.tdiv_neg, Int.tdiv_one, SignedFits]
        omega
      rw [if_pos htrap, if_neg hnot]
      rfl
    · rw [if_neg htrap, checkedInt64_tdiv hdividend hzero htrap, checkedInt64_tmod hdivisor hzero,
        hmin, hmax]
      simp only [Option.bind_some]
      simp only [not_signedFits_iff, ite_not]
      rfl

/-! ## Products and their factors -/

theorem div_product (a b : U32) (w : Width) {lo hi : U32}
    (h : (pair w hi lo).toNat = (operand w a).toNat * (operand w b).toNat) :
    aluDiv hi lo b w = if operand w b = 0 then none else some (a &&& widthMask w, 0) := by
  split_ifs with hb
  · rw [div_none_iff, hb]
    exact .inl rfl
  · have hpos : (operand w b).toNat ≠ 0 := fun hzero => hb (BitVec.eq_of_toNat_eq hzero)
    rw [div_some_iff, h, divides_iff (by omega), ← toNat_operand]
    push_cast
    rw [Int.mul_tdiv_cancel _ (by omega), Int.mul_tmod_left]
    exact ⟨(operand w a).isLt, Nat.two_pow_pos _, rfl, rfl⟩

theorem idiv_product (a b : U32) (w : Width) {lo hi : U32}
    (h : (pair w hi lo).toInt = (operand w a).toInt * (operand w b).toInt) :
    aluIdiv hi lo b w = if operand w b = 0 then none else some (a &&& widthMask w, 0) := by
  split_ifs with hb
  · rw [idiv_none_iff, hb]
    exact .inl BitVec.toInt_zero
  · have hzero : (operand w 0).toInt = 0 := by simp [operand]
    have hpos : (operand w b).toInt ≠ 0 := fun heq =>
      hb (BitVec.toInt_inj.mp (heq.trans BitVec.toInt_zero.symm))
    rw [idiv_some_iff, h, divides_iff hpos, operand_and_widthMask, Int.mul_tdiv_cancel _ hpos,
      Int.mul_tmod_left, hzero]
    exact ⟨toNat_and_widthMask_lt _ _, Nat.two_pow_pos _, rfl, rfl⟩

/-- Multiplication and division at a width: the products with their flags and what dividing them
gives back, the two divisions, and the same four computed with checked 64-bit variables. -/
theorem mulDiv_exact (w : Width) :
    (∀ (a b : U32) (f : Flags), ∃ lo hi g, aluMul a b w f = ((lo, hi), g) ∧
      aluMulChecked a b w f = some ((lo, hi), g) ∧
      (pair w hi lo).toNat = (operand w a).toNat * (operand w b).toNat ∧
      lo.toNat < 2 ^ w.bits ∧ hi.toNat < 2 ^ w.bits ∧
      Overflow (2 ^ w.bits ≤ (operand w a).toNat * (operand w b).toNat) (eflags f) (eflags g) ∧
      aluDiv hi lo b w = (if operand w b = 0 then none else some (a &&& widthMask w, 0)) ∧
      aluDiv hi lo a w = if operand w a = 0 then none else some (b &&& widthMask w, 0)) ∧
    (∀ (a b : U32) (f : Flags), ∃ lo hi g, aluImul a b w f = ((lo, hi), g) ∧
      aluImulChecked a b w f = some ((lo, hi), g) ∧
      (pair w hi lo).toInt = (operand w a).toInt * (operand w b).toInt ∧
      lo.toNat < 2 ^ w.bits ∧ hi.toNat < 2 ^ w.bits ∧
      Overflow (¬ SignedFits w ((operand w a).toInt * (operand w b).toInt)) (eflags f)
        (eflags g) ∧
      aluIdiv hi lo b w = (if operand w b = 0 then none else some (a &&& widthMask w, 0)) ∧
      aluIdiv hi lo a w = if operand w a = 0 then none else some (b &&& widthMask w, 0)) ∧
    (∀ hi lo d : U32, aluDivChecked hi lo d w = some (aluDiv hi lo d w) ∧
      (aluDiv hi lo d w = none ↔ (operand w d).toNat = 0 ∨
        2 ^ w.bits ≤ (pair w hi lo).toNat / (operand w d).toNat) ∧
      ∀ q r, aluDiv hi lo d w = some (q, r) ↔ q.toNat < 2 ^ w.bits ∧ r.toNat < 2 ^ w.bits ∧
        Divides (pair w hi lo).toNat (operand w d).toNat q.toNat r.toNat) ∧
    ∀ hi lo d : U32, aluIdivChecked hi lo d w = some (aluIdiv hi lo d w) ∧
      (aluIdiv hi lo d w = none ↔ (operand w d).toInt = 0 ∨
        ¬ SignedFits w ((pair w hi lo).toInt.tdiv (operand w d).toInt)) ∧
      ∀ q r, aluIdiv hi lo d w = some (q, r) ↔ q.toNat < 2 ^ w.bits ∧ r.toNat < 2 ^ w.bits ∧
        Divides (pair w hi lo).toInt (operand w d).toInt (operand w q).toInt
          (operand w r).toInt := by
  refine ⟨fun a b f => ?_, fun a b f => ?_, fun hi lo d => ?_, fun hi lo d => ?_⟩
  · obtain ⟨hproduct, hlo, hhi, hflags⟩ := mul_exact a b w f rfl
    exact ⟨_, _, _, rfl, aluMulChecked_eq a b w f, hproduct, hlo, hhi, hflags,
      div_product a b w hproduct, div_product b a w (hproduct.trans (Nat.mul_comm _ _))⟩
  · obtain ⟨hproduct, hlo, hhi, hflags⟩ := imul_exact a b w f rfl
    exact ⟨_, _, _, rfl, aluImulChecked_eq a b w f, hproduct, hlo, hhi, hflags,
      idiv_product a b w hproduct, idiv_product b a w (hproduct.trans (Int.mul_comm _ _))⟩
  · exact ⟨aluDivChecked_eq hi lo d w, div_none_iff hi lo d w, div_some_iff hi lo d w⟩
  · exact ⟨aluIdivChecked_eq hi lo d w, idiv_none_iff hi lo d w, idiv_some_iff hi lo d w⟩

/-- The host's trap: the least dividend by minus one. -/
example : aluIdiv 0x80000000 0 0xFFFFFFFF .dword = none := by decide

end X86Port.Cpu
