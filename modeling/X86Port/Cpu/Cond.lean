import X86Port.Cpu.AluArch

/-!
# The sixteen conditions

`cond.c`, and what its conditions say about the operands of a recorded tuple.

* `cond_eq`: a condition on a lazy state is the condition on its materialised word.
* `Consistent`: the result of a tuple is what its kind says of the operands.
* `less_sub`, `less_inc`, `less_dec`: SF ≠ OF as a comparison of operands.
-/

namespace X86Port.Cpu

open Lib

/-- `X86pCond`, in the order of its codes. -/
inductive Cond where
  | o
  | no
  | b
  | nb
  | z
  | nz
  | be
  | a
  | s
  | ns
  | p
  | np
  | l
  | ge
  | le
  | g
deriving DecidableEq

/-- The conditions that read OF. -/
def Cond.readsOverflow : Cond → Bool
  | .o | .no | .l | .ge | .le | .g => true
  | _ => false

/-- The condition on the five flags it can read. -/
def condFlags (cc : Cond) (cf pf zf sf of : Bool) : Bool :=
  match cc with
  | .o => of
  | .no => !of
  | .b => cf
  | .nb => !cf
  | .z => zf
  | .nz => !zf
  | .be => zf || cf
  | .a => !zf && !cf
  | .s => sf
  | .ns => !sf
  | .p => pf
  | .np => !pf
  | .l => sf != of
  | .ge => sf == of
  | .le => zf || (sf != of)
  | .g => !zf && (sf == of)

/-- A condition on the flags that a tuple derives. -/
def condOf (cc : Cond) (f : Flags) : Bool :=
  condFlags cc (flagCf f) (flagPf f) (flagZf f) (flagSf f) (flagOf f)

def condEflags (cc : Cond) (eflags : U32) : Bool :=
  condFlags cc (decide (eflags &&& flagCF ≠ 0)) (decide (eflags &&& flagPF ≠ 0))
    (decide (eflags &&& flagZF ≠ 0)) (decide (eflags &&& flagSF ≠ 0))
    (decide (eflags &&& flagOF ≠ 0))

def cond (cc : Cond) (f : Flags) : Bool :=
  match f.kind with
  | .none => condEflags cc eflagsFixed
  | .explicit => condEflags cc f.a
  | _ => condFlags cc (flagCf f) (flagPf f) (flagZf f) (flagSf f) (flagOf f)

theorem condEflags_bits (cc : Cond) (e : U32) :
    condEflags cc e = condFlags cc (e.getLsbD 0) (e.getLsbD 2) (e.getLsbD 6) (e.getLsbD 7)
      (e.getLsbD 11) := by
  unfold condEflags flagCF flagPF flagZF flagSF flagOF
  rw [decide_and_twoPow e (by decide), decide_and_twoPow e (by decide),
    decide_and_twoPow e (by decide), decide_and_twoPow e (by decide),
    decide_and_twoPow e (by decide)]

/-- Every kind answers a condition as its derived flags do. -/
theorem cond_derived (cc : Cond) (f : Flags) :
    cond cc f = condOf cc f := by
  unfold cond condOf
  cases hk : f.kind with
  | none =>
    simp only [flagCf, flagPf, flagZf, flagSf, flagOf, hk]
    cases cc <;> rfl
  | explicit => simp only [flagCf, flagPf, flagZf, flagSf, flagOf, hk, condEflags]
  | _ => rfl

/-- A condition on a lazy state is the condition on its materialised word. -/
theorem cond_eq (cc : Cond) (f : Flags) : cond cc f = condEflags cc (eflags f) := by
  rw [cond_derived, condOf, condEflags_bits, eflags_cf, eflags_pf, eflags_zf, eflags_sf, eflags_of]

/-! ## Flags of the operands -/

/-- The kinds whose conditions translated code answers itself. -/
def FlagKind.isArith : FlagKind → Bool
  | .sub | .logic | .add | .inc | .dec => true
  | _ => false

/-- The result is what the kind says of the operands, at the width that was recorded. -/
def Consistent (f : Flags) : Prop :=
  match f.kind with
  | .add => operand f.w f.r = operand f.w f.a + operand f.w f.b
  | .sub => operand f.w f.r = operand f.w f.a - operand f.w f.b
  | .inc => operand f.w f.r = operand f.w f.a + 1
  | .dec => operand f.w f.r = operand f.w f.a - 1
  | _ => True

theorem msb_operand (v : U32) (w : Width) : msb v w = (operand w v).msb := by
  rw [msb_eq, BitVec.msb_eq_getLsbD_last, operand, BitVec.getLsbD_setWidth]
  have := w.bits_pos
  rw [decide_eq_true (by omega), Bool.true_and]

theorem toNat_operand (v : U32) (w : Width) : (operand w v).toNat = (v &&& widthMask w).toNat := by
  rw [and_widthMask_eq, toNat_setWidth_operand]

theorem and_widthMask_eq_zero_iff (v : U32) (w : Width) : v &&& widthMask w = 0 ↔ operand w v = 0 := by
  rw [and_widthMask_eq, setWidth_operand_eq_zero_iff]

theorem and_widthMask_lt_iff (u v : U32) (w : Width) :
    u &&& widthMask w < v &&& widthMask w ↔ operand w u < operand w v := by
  rw [BitVec.lt_def, BitVec.lt_def, toNat_operand, toNat_operand]

@[simp] theorem and_widthMask_dword (v : U32) : v &&& widthMask .dword = v := by
  rw [show widthMask .dword = BitVec.allOnes 32 from rfl, BitVec.and_allOnes]

section

variable {f : Flags}

theorem flagZf_operand (hk : f.kind.isArith = true) :
    flagZf f = decide (operand f.w f.r = 0) := by
  have hz : (if f.w = .dword then decide (f.r = 0) else decide (f.r &&& widthMask f.w = 0)) =
      decide (operand f.w f.r = 0) := by
    split_ifs with hw
    · exact decide_eq_decide.mpr (by rw [← and_widthMask_eq_zero_iff, hw, and_widthMask_dword])
    · exact decide_eq_decide.mpr (and_widthMask_eq_zero_iff _ _)
  unfold flagZf
  cases hkind : f.kind <;> first | exact hz | (rw [hkind] at hk; cases hk)

theorem flagSf_operand (hk : f.kind.isArith = true) : flagSf f = (operand f.w f.r).msb := by
  unfold flagSf
  cases hkind : f.kind <;> first | exact msb_operand _ _ | (rw [hkind] at hk; cases hk)

theorem flagPf_arith (hk : f.kind.isArith = true) : flagPf f = evenParity f.r := by
  unfold flagPf
  cases hkind : f.kind <;> first | rfl | (rw [hkind] at hk; cases hk)

theorem lt_operand (u v : U32) (w : Width) :
    (if w = .dword then decide (u < v) else decide (u &&& widthMask w < v &&& widthMask w)) =
      decide (operand w u < operand w v) := by
  split_ifs with hw
  · exact decide_eq_decide.mpr (by
      rw [← and_widthMask_lt_iff, hw, and_widthMask_dword, and_widthMask_dword])
  · exact decide_eq_decide.mpr (and_widthMask_lt_iff _ _ _)

theorem and_widthMask_eq_signBit_iff (v : U32) (w : Width) :
    v &&& widthMask w = 1#32 <<< (w.bits - 1) ↔ (operand w v).toNat = 2 ^ (w.bits - 1) := by
  rw [← BitVec.toNat_inj, ← toNat_operand]
  cases w <;> exact Iff.rfl

theorem flagOf_add (hk : f.kind = .add) : flagOf f =
    ((operand f.w f.a).msb == (operand f.w f.b).msb &&
      (operand f.w f.r).msb != (operand f.w f.a).msb) := by
  simp only [flagOf, hk, msb_operand]

theorem flagOf_sub (hk : f.kind = .sub) : flagOf f =
    ((operand f.w f.a).msb != (operand f.w f.b).msb &&
      (operand f.w f.r).msb != (operand f.w f.a).msb) := by
  simp only [flagOf, hk, msb_operand]

theorem flagOf_inc (hk : f.kind = .inc) :
    flagOf f = decide ((operand f.w f.r).toNat = 2 ^ (f.w.bits - 1)) := by
  simp only [flagOf, hk, and_widthMask_eq_signBit_iff]

theorem flagOf_dec (hk : f.kind = .dec) :
    flagOf f = decide ((operand f.w f.a).toNat = 2 ^ (f.w.bits - 1)) := by
  simp only [flagOf, hk, and_widthMask_eq_signBit_iff]

end

/-! ## Signed conditions as comparisons -/

section

variable {w : Width} (x y : BitVec w.bits)

theorem msb_eq_half_le : x.msb = decide (2 ^ (w.bits - 1) ≤ x.toNat) := by
  rw [Bool.eq_iff_iff, msb_iff_half_le, decide_eq_true_iff]

/-- After a subtraction, SF ≠ OF is the signed comparison of the operands. -/
theorem less_sub :
    ((x - y).msb != (x.msb != y.msb && (x - y).msb != x.msb)) = decide (x.toInt < y.toInt) := by
  have hsum := difference_bits x y false
  rw [Bool.toNat_false, BitVec.sub_zero] at hsum
  obtain ⟨hz, hy, -, hx, hv⟩ := hsum
  rw [toInt_eq_signed, toInt_eq_signed, msb_eq_half_le x, msb_eq_half_le y, msb_eq_half_le (x - y)]
  generalize (x - y).toNat = Z at *
  generalize x.toNat = X at *
  generalize y.toNat = Y at *
  generalize 2 ^ (w.bits - 1) = H at *
  unfold signed
  by_cases h1 : H ≤ X <;> by_cases h2 : H ≤ Y <;> by_cases h3 : H ≤ Z <;>
    simp [h1, h2, h3, Nat.not_lt.mpr, Nat.lt_of_not_le] <;> omega

/-- After INC, SF ≠ OF says that the operand is below minus one. -/
theorem less_inc :
    ((x + 1).msb != decide ((x + 1).toNat = 2 ^ (w.bits - 1))) = decide (x.toInt < -1) := by
  have hsum := sum_bits x 1 false
  have hhalf := half_bits w
  rw [Bool.toNat_false, BitVec.add_zero, toNat_one_operand] at hsum
  obtain ⟨hx, -, -, hz, hv⟩ := hsum
  rw [toInt_eq_signed, msb_eq_half_le (x + 1)]
  generalize (x + 1).toNat = Z at *
  generalize x.toNat = X at *
  generalize 2 ^ (w.bits - 1) = H at *
  unfold signed
  by_cases h1 : H ≤ X <;> by_cases h2 : H ≤ Z <;> by_cases h3 : Z = H <;>
    simp [h2, h3] <;> omega

/-- After DEC it says that the operand is not above zero. -/
theorem less_dec :
    ((x - 1).msb != decide (x.toNat = 2 ^ (w.bits - 1))) = decide (x.toInt ≤ 0) := by
  have hsum := difference_bits x 1 false
  have hhalf := half_bits w
  rw [Bool.toNat_false, BitVec.sub_zero, toNat_one_operand] at hsum
  obtain ⟨hz, -, -, hx, hv⟩ := hsum
  rw [toInt_eq_signed, msb_eq_half_le (x - 1)]
  generalize (x - 1).toNat = Z at *
  generalize x.toNat = X at *
  generalize 2 ^ (w.bits - 1) = H at *
  unfold signed
  by_cases h1 : H ≤ Z <;> by_cases h2 : X = H <;> by_cases h3 : X < H <;>
    simp [h1, h2, h3] <;> omega

end

/-! ## What each kind answers -/

theorem toInt_eq_iff {n : Nat} (x y : BitVec n) : x = y ↔ x.toInt = y.toInt :=
  ⟨congrArg BitVec.toInt, BitVec.eq_of_toInt_eq⟩

section

variable {f : Flags}

theorem flags_sub (hk : f.kind = .sub) (hc : Consistent f) :
    flagCf f = decide (operand f.w f.a < operand f.w f.b) ∧
      flagZf f = decide (operand f.w f.a = operand f.w f.b) ∧
      (flagSf f != flagOf f) =
        decide ((operand f.w f.a).toInt < (operand f.w f.b).toInt) := by
  have hisArith : f.kind.isArith = true := by rw [hk]; rfl
  have hr : operand f.w f.r = operand f.w f.a - operand f.w f.b := by
    simpa only [Consistent, hk] using hc
  refine ⟨?_, ?_, ?_⟩
  · simp only [flagCf, hk, lt_operand]
  · rw [flagZf_operand hisArith, hr]
    exact decide_eq_decide.mpr sub_eq_zero
  · rw [flagSf_operand hisArith, flagOf_sub hk, hr]
    exact less_sub _ _

/-- The unsigned conditions after a subtraction. -/
theorem unsigned_sub (hk : f.kind = .sub) (hc : Consistent f) :
    condOf .b f = decide (operand f.w f.a < operand f.w f.b) ∧
      condOf .nb f = decide (operand f.w f.b ≤ operand f.w f.a) ∧
      condOf .be f = decide (operand f.w f.a ≤ operand f.w f.b) ∧
      condOf .a f = decide (operand f.w f.b < operand f.w f.a) := by
  obtain ⟨hcf, hzf, -⟩ := flags_sub hk hc
  refine ⟨hcf, ?_, ?_, ?_⟩
  · rw [condOf, condFlags, hcf, ← decide_not]
    exact decide_eq_decide.mpr BitVec.not_lt
  · rw [condOf, condFlags, hcf, hzf, ← Bool.decide_or]
    refine decide_eq_decide.mpr ?_
    rw [BitVec.lt_def, BitVec.le_def, ← BitVec.toNat_inj]
    omega
  · rw [condOf, condFlags, hcf, hzf, ← decide_not, ← decide_not, ← Bool.decide_and]
    refine decide_eq_decide.mpr ?_
    rw [BitVec.lt_def, BitVec.lt_def, ← BitVec.toNat_inj]
    omega

/-- The signed ones. -/
theorem signed_sub (hk : f.kind = .sub) (hc : Consistent f) :
    condOf .l f = decide ((operand f.w f.a).toInt < (operand f.w f.b).toInt) ∧
      condOf .ge f = decide ((operand f.w f.b).toInt ≤ (operand f.w f.a).toInt) ∧
      condOf .le f = decide ((operand f.w f.a).toInt ≤ (operand f.w f.b).toInt) ∧
      condOf .g f = decide ((operand f.w f.b).toInt < (operand f.w f.a).toInt) := by
  obtain ⟨-, hzf, hless⟩ := flags_sub hk hc
  have hge : (flagSf f == flagOf f) = !(flagSf f != flagOf f) := (Bool.not_not _).symm
  refine ⟨hless, ?_, ?_, ?_⟩
  · rw [condOf, condFlags, hge, hless, ← decide_not]
    exact decide_eq_decide.mpr not_lt
  · rw [condOf, condFlags, hless, hzf, ← Bool.decide_or]
    refine decide_eq_decide.mpr ?_
    rw [toInt_eq_iff]
    omega
  · rw [condOf, condFlags, hge, hless, hzf, ← decide_not, ← decide_not, ← Bool.decide_and]
    refine decide_eq_decide.mpr ?_
    rw [toInt_eq_iff]
    omega

theorem flags_logic (hk : f.kind = .logic) : flagCf f = false ∧ flagOf f = false := by
  simp only [flagCf, flagOf, hk, and_self]

theorem flagCf_add (hk : f.kind = .add) :
    flagCf f = decide (operand f.w f.r < operand f.w f.a) := by
  simp only [flagCf, hk, lt_operand]

/-- INC and DEC keep the carry that was recorded with them. -/
theorem flagCf_incdec (hk : f.kind = .inc ∨ f.kind = .dec) :
    flagCf f = decide (f.carryIn ≠ 0) := by
  obtain hk | hk := hk <;> simp only [flagCf, hk]

theorem less_of_inc (hk : f.kind = .inc) (hc : Consistent f) :
    (flagSf f != flagOf f) = decide ((operand f.w f.a).toInt < -1) := by
  have hisArith : f.kind.isArith = true := by rw [hk]; rfl
  have hr : operand f.w f.r = operand f.w f.a + 1 := by
    simpa only [Consistent, hk] using hc
  rw [flagSf_operand hisArith, flagOf_inc hk, hr]
  exact less_inc _

theorem less_of_dec (hk : f.kind = .dec) (hc : Consistent f) :
    (flagSf f != flagOf f) = decide ((operand f.w f.a).toInt ≤ 0) := by
  have hisArith : f.kind.isArith = true := by rw [hk]; rfl
  have hr : operand f.w f.r = operand f.w f.a - 1 := by
    simpa only [Consistent, hk] using hc
  rw [flagSf_operand hisArith, flagOf_dec hk, hr]
  exact less_dec _

theorem toInt_one_operand (w : Width) : (1 : BitVec w.bits).toInt = 1 := by
  cases w <;> rfl

theorem toInt_neg_one_operand (w : Width) : (-1 : BitVec w.bits).toInt = -1 := by
  cases w <;> rfl

/-- The zero of INC is an operand of minus one. -/
theorem flagZf_inc (hk : f.kind = .inc) (hc : Consistent f) :
    flagZf f = decide ((operand f.w f.a).toInt = -1) := by
  have hisArith : f.kind.isArith = true := by rw [hk]; rfl
  have hr : operand f.w f.r = operand f.w f.a + 1 := by
    simpa only [Consistent, hk] using hc
  rw [flagZf_operand hisArith, hr]
  refine decide_eq_decide.mpr ?_
  rw [add_eq_zero_iff_eq_neg, toInt_eq_iff, toInt_neg_one_operand]

/-- The zero of DEC is an operand of one. -/
theorem flagZf_dec (hk : f.kind = .dec) (hc : Consistent f) :
    flagZf f = decide ((operand f.w f.a).toInt = 1) := by
  have hisArith : f.kind.isArith = true := by rw [hk]; rfl
  have hr : operand f.w f.r = operand f.w f.a - 1 := by
    simpa only [Consistent, hk] using hc
  rw [flagZf_operand hisArith, hr]
  refine decide_eq_decide.mpr ?_
  rw [sub_eq_zero, toInt_eq_iff, toInt_one_operand]

end

end X86Port.Cpu
