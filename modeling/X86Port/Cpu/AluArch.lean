import X86Port.Cpu.Alu
import X86Port.Cpu.FlagBits
import X86Port.Lib.TwosComplement

/-!
# The ALU against the architecture

The architectural meaning of an operation is stated on operands of the operation's own
width, read as bit vectors, as naturals or as integers, and on EFLAGS words before and
after (`AluSpec`, `AluUnSpec`). The lazily recorded state never appears in it.

* `flagsSet_sum`, `flagsSet_difference`: the flags a recorded addition or subtraction
  derives later.
* `alu_architectural`: both ALU entry points, from every prior flag state, and the carry
  through any chain of INC and DEC.
-/

namespace X86Port.Cpu

open Lib

/-! ## Architectural meaning -/

def cfOf (e : U32) : Bool := e.getLsbD 0
def pfOf (e : U32) : Bool := e.getLsbD 2
def afOf (e : U32) : Bool := e.getLsbD 4
def zfOf (e : U32) : Bool := e.getLsbD 6
def sfOf (e : U32) : Bool := e.getLsbD 7
def ofOf (e : U32) : Bool := e.getLsbD 11

/-- The operand of width `w` in the low bits of a word. -/
def operand (w : Width) (v : U32) : BitVec w.bits := v.setWidth w.bits

/-- ZF, SF and PF say what the result is. -/
structure ResultFlags {n : Nat} (r : BitVec n) (e : U32) : Prop where
  zf : zfOf e = decide (r = 0)
  sf : sfOf e = r.msb
  pf : pfOf e = decide (lowByteOnes r.toNat % 2 = 0)

/-- `r` is `x + y + c`, with OF and AF the signed overflow and the carry out of bit 3. -/
structure IsSum {n : Nat} (x y : BitVec n) (c : Bool) (r : BitVec n) (e : U32) : Prop
    extends ResultFlags r e where
  result : r = x + y + BitVec.ofNat n c.toNat
  of : ofOf e = decide (¬ Fits (2 ^ (n - 1)) (x.toInt + y.toInt + c.toNat))
  af : afOf e = decide (16 ≤ x.toNat % 16 + y.toNat % 16 + c.toNat)

/-- `r` is `x - y - c`, with OF and AF the signed overflow and the borrow into bit 3. -/
structure IsDifference {n : Nat} (x y : BitVec n) (c : Bool) (r : BitVec n) (e : U32) : Prop
    extends ResultFlags r e where
  result : r = x - y - BitVec.ofNat n c.toNat
  of : ofOf e = decide (¬ Fits (2 ^ (n - 1)) (x.toInt - y.toInt - c.toNat))
  af : afOf e = decide (x.toNat % 16 < y.toNat % 16 + c.toNat)

structure IsLogic {n : Nat} (r : BitVec n) (e : U32) : Prop extends ResultFlags r e where
  cf : cfOf e = false
  of : ofOf e = false

/-- Only CF and OF may differ. -/
def OnlyCfOf (e e' : U32) : Prop := ∀ i, i ≠ 0 → i ≠ 11 → e'.getLsbD i = e.getLsbD i

/-- What an operation on operands `x` and `y` from the flags `e` leaves: the result `r` and
the flags `e'`. A shift or rotate by `count` shifts out last what a shift by one fewer
leaves at the end of the operand. -/
def AluSpec (op : AluOp) {n : Nat} (x y : BitVec n) (e : U32) (r : BitVec n) (e' : U32) : Prop :=
  let count := y.toNat % 32
  match op with
  | .add => cfOf e' = decide (2 ^ n ≤ x.toNat + y.toNat) ∧ IsSum x y false r e'
  | .adc =>
    cfOf e' = decide (2 ^ n ≤ x.toNat + y.toNat + (cfOf e).toNat) ∧ IsSum x y (cfOf e) r e'
  | .sub | .cmp => cfOf e' = decide (x.toNat < y.toNat) ∧ IsDifference x y false r e'
  | .sbb =>
    cfOf e' = decide (x.toNat < y.toNat + (cfOf e).toNat) ∧ IsDifference x y (cfOf e) r e'
  | .and | .test => r = x &&& y ∧ IsLogic r e'
  | .or => r = x ||| y ∧ IsLogic r e'
  | .xor => r = x ^^^ y ∧ IsLogic r e'
  | .shl =>
    if count = 0 then r = x ∧ e' = e
    else r = x <<< count ∧ cfOf e' = (x <<< (count - 1)).msb ∧ ResultFlags r e'
  | .shr =>
    if count = 0 then r = x ∧ e' = e
    else r = x >>> count ∧ cfOf e' = (x >>> (count - 1)).getLsbD 0 ∧ ResultFlags r e'
  | .sar =>
    if count = 0 then r = x ∧ e' = e
    else
      r = x.sshiftRight count ∧ cfOf e' = (x.sshiftRight (count - 1)).getLsbD 0 ∧
        ResultFlags r e'
  | .rol =>
    if count = 0 then r = x ∧ e' = e
    else r = x.rotateLeft count ∧ cfOf e' = r.getLsbD 0 ∧ OnlyCfOf e e'
  | .ror =>
    if count = 0 then r = x ∧ e' = e
    else r = x.rotateRight count ∧ cfOf e' = r.msb ∧ OnlyCfOf e e'
  | .rcl =>
    if count = 0 then r = x ∧ e' = e
    else BitVec.cons (cfOf e') r = (BitVec.cons (cfOf e) x).rotateLeft count ∧ OnlyCfOf e e'
  | .rcr =>
    if count = 0 then r = x ∧ e' = e
    else BitVec.cons (cfOf e') r = (BitVec.cons (cfOf e) x).rotateRight count ∧ OnlyCfOf e e'

def AluUnSpec (op : AluUnOp) {n : Nat} (x : BitVec n) (e : U32) (r : BitVec n) (e' : U32) :
    Prop :=
  match op with
  | .not => r = ~~~x ∧ e' = e
  | .neg => cfOf e' = decide (0 < x.toNat) ∧ IsDifference 0 x false r e'
  | .inc => cfOf e' = cfOf e ∧ IsSum x 1 false r e'
  | .dec => cfOf e' = cfOf e ∧ IsDifference x 1 false r e'

/-! ## Operands of a width -/

theorem and_widthMask_eq (v : U32) (w : Width) :
    v &&& widthMask w = (operand w v).setWidth 32 := by
  apply BitVec.eq_of_getLsbD_eq
  intro i hi
  rw [getLsbD_and_widthMask, operand, BitVec.getLsbD_setWidth, BitVec.getLsbD_setWidth]
  simp [hi, Bool.and_comm]

@[simp] theorem operand_setWidth (w : Width) (x : BitVec w.bits) :
    operand w (x.setWidth 32) = x := by
  have := w.bits_pos
  apply BitVec.eq_of_getLsbD_eq
  intro i hi
  rw [operand, BitVec.getLsbD_setWidth, BitVec.getLsbD_setWidth]
  simp [hi, show i < 32 by omega]

theorem toNat_setWidth_operand {w : Width} (x : BitVec w.bits) :
    (x.setWidth 32).toNat = x.toNat := by
  have hle : 2 ^ w.bits ≤ 2 ^ 32 := Nat.pow_le_pow_right (by decide) w.bits_pos.2
  have := x.isLt
  rw [BitVec.toNat_setWidth, Nat.mod_eq_of_lt (by omega)]

theorem getLsbD_setWidth_operand {w : Width} (x : BitVec w.bits) (i : Nat) :
    (x.setWidth 32).getLsbD i = x.getLsbD i := by
  have := w.bits_pos
  rw [BitVec.getLsbD_setWidth]
  by_cases h : i < 32
  · simp [h]
  · simp [BitVec.getLsbD_of_ge x i (by omega), h]

theorem operand_add (w : Width) (u v : U32) : operand w (u + v) = operand w u + operand w v :=
  BitVec.setWidth_add u v w.bits_pos.2

theorem operand_sub (w : Width) (u v : U32) : operand w (u - v) = operand w u - operand w v := by
  have h := operand_add w (u - v) v
  rw [BitVec.sub_add_cancel] at h
  rw [h, BitVec.add_sub_cancel]

/-- Half the range of a width. -/
theorem two_pow_bits (w : Width) : 2 ^ w.bits = 2 * 2 ^ (w.bits - 1) := by
  cases w <;> rfl

theorem toInt_eq_signed {w : Width} (x : BitVec w.bits) :
    x.toInt = signed (2 ^ (w.bits - 1)) x.toNat := by
  rw [BitVec.toInt_eq_toNat_cond, signed]
  have := two_pow_bits w
  split_ifs <;> omega

theorem half_bits (w : Width) : 16 ∣ 2 ^ (w.bits - 1) := by
  cases w <;> decide

theorem sum_bits {w : Width} (x y : BitVec w.bits) (c : Bool) :
    Sum (2 ^ (w.bits - 1)) x.toNat y.toNat c.toNat
      (x + y + BitVec.ofNat w.bits c.toNat).toNat := by
  have hc : c.toNat ≤ 1 := c.toNat_le
  have hpow := two_pow_bits w
  have hx := x.isLt
  have hy := y.isLt
  have h := @Sum.of_mod (2 ^ (w.bits - 1)) x.toNat y.toNat c.toNat (by omega) (by omega) hc
  rw [BitVec.toNat_add, BitVec.toNat_add, BitVec.toNat_ofNat, Nat.add_mod_mod, Nat.mod_add_mod,
    hpow]
  exact h

theorem difference_bits {w : Width} (x y : BitVec w.bits) (c : Bool) :
    Sum (2 ^ (w.bits - 1)) (x - y - BitVec.ofNat w.bits c.toNat).toNat y.toNat c.toNat
      x.toNat := by
  have h := sum_bits (x - y - BitVec.ofNat w.bits c.toNat) y c
  have hx : x - y - BitVec.ofNat w.bits c.toNat + y + BitVec.ofNat w.bits c.toNat = x := by
    rw [BitVec.add_assoc, BitVec.add_comm y, ← BitVec.add_assoc, BitVec.sub_add_cancel,
      BitVec.sub_add_cancel]
  rw [hx] at h
  exact h

/-! ## What a recorded operation derives -/

theorem msb_setWidth_operand {w : Width} (x : BitVec w.bits) : msb (x.setWidth 32) w = x.msb := by
  rw [msb_eq, getLsbD_setWidth_operand, BitVec.msb_eq_getLsbD_last]

theorem msb_iff_half_le {w : Width} (x : BitVec w.bits) :
    x.msb = true ↔ 2 ^ (w.bits - 1) ≤ x.toNat := by
  rw [BitVec.msb_eq_decide, decide_eq_true_iff]

/-- The fourth bits of operands and result, folded together. -/
theorem bit_xor_eq {w : Width} (x y r : BitVec w.bits) :
    bit (x.setWidth 32 ^^^ y.setWidth 32 ^^^ r.setWidth 32) 4 =
      decide ((x.toNat / 16 + y.toNat / 16 + r.toNat / 16) % 2 = 1) := by
  rw [bit_eq_getLsbD, BitVec.getLsbD_xor, BitVec.getLsbD_xor, getLsbD_setWidth_operand,
    getLsbD_setWidth_operand, getLsbD_setWidth_operand, ← BitVec.testBit_toNat,
    ← BitVec.testBit_toNat, ← BitVec.testBit_toNat]
  simp only [Nat.testBit_eq_decide_div_mod_eq, Nat.reducePow]
  rcases Nat.mod_two_eq_zero_or_one (x.toNat / 16) with hx | hx <;>
    rcases Nat.mod_two_eq_zero_or_one (y.toNat / 16) with hy | hy <;>
      rcases Nat.mod_two_eq_zero_or_one (r.toNat / 16) with hr | hr <;>
        simp [hx, hy, hr, Nat.add_mod]

theorem lowByteOnes_setWidth {w : Width} (r : BitVec w.bits) :
    evenParity (r.setWidth 32) = decide (lowByteOnes r.toNat % 2 = 0) := by
  rw [evenParity_eq, toNat_setWidth_operand]

theorem setWidth_operand_eq_zero_iff {w : Width} (r : BitVec w.bits) :
    r.setWidth 32 = 0 ↔ r = 0 := by
  rw [← BitVec.toNat_inj, ← BitVec.toNat_inj, toNat_setWidth_operand]
  simp

theorem recorded_resultFlags {w : Width} {kind : FlagKind} (hn : kind ≠ .none)
    (he : kind ≠ .explicit) (a b : U32) (r : BitVec w.bits) (c : U8) :
    ResultFlags r (eflags ⟨a, b, r.setWidth 32, kind, w, c⟩) where
  zf := by
    have hmask : r.setWidth 32 &&& widthMask w = r.setWidth 32 := by
      rw [and_widthMask_eq, operand_setWidth]
    rw [zfOf, eflags_zf]
    unfold flagZf
    cases kind <;> simp only [hmask, ite_self, setWidth_operand_eq_zero_iff] <;> contradiction
  sf := by
    rw [sfOf, eflags_sf]
    unfold flagSf
    cases kind <;> first | contradiction | exact msb_setWidth_operand r
  pf := by
    rw [pfOf, eflags_pf]
    unfold flagPf
    cases kind <;> first | contradiction | exact lowByteOnes_setWidth r

/-- AF of the four kinds that add or subtract. -/
theorem recorded_af {w : Width} {kind : FlagKind} (hk : kind ∈ [FlagKind.add, .sub, .inc, .dec])
    (x y r : BitVec w.bits) (c : U8) :
    afOf (eflags ⟨x.setWidth 32, y.setWidth 32, r.setWidth 32, kind, w, c⟩) =
      decide ((x.toNat / 16 + y.toNat / 16 + r.toNat / 16) % 2 = 1) := by
  rw [afOf, eflags_af]
  unfold flagAf
  cases kind <;> first | exact bit_xor_eq x y r | simp at hk

theorem recorded_add_of {w : Width} (x y : BitVec w.bits) (cin : Bool) (c : U8) :
    ofOf (eflags ⟨x.setWidth 32, y.setWidth 32,
        (x + y + BitVec.ofNat w.bits cin.toNat).setWidth 32, .add, w, c⟩) =
      decide (¬ Fits (2 ^ (w.bits - 1)) (x.toInt + y.toInt + cin.toNat)) := by
  have h := (sum_bits x y cin).overflow_iff
  rw [toInt_eq_signed, toInt_eq_signed, ofOf, eflags_of, Bool.eq_iff_iff, decide_eq_true_iff, ← h]
  unfold flagOf
  simp only [msb_setWidth_operand, ← msb_iff_half_le]
  cases x.msb <;> cases y.msb <;>
    cases (x + y + BitVec.ofNat w.bits cin.toNat).msb <;> decide

theorem recorded_sub_of {w : Width} (x y : BitVec w.bits) (cin : Bool) (c : U8) :
    ofOf (eflags ⟨x.setWidth 32, y.setWidth 32,
        (x - y - BitVec.ofNat w.bits cin.toNat).setWidth 32, .sub, w, c⟩) =
      decide (¬ Fits (2 ^ (w.bits - 1)) (x.toInt - y.toInt - cin.toNat)) := by
  have h := (difference_bits x y cin).underflow_iff
  rw [toInt_eq_signed, toInt_eq_signed, ofOf, eflags_of, Bool.eq_iff_iff, decide_eq_true_iff, ← h]
  unfold flagOf
  simp only [msb_setWidth_operand, ← msb_iff_half_le]
  cases x.msb <;> cases y.msb <;>
    cases (x - y - BitVec.ofNat w.bits cin.toNat).msb <;> decide

/-- The most negative value of a width, as INC and DEC test for it. -/
theorem and_mask_eq_signBit_iff {w : Width} (x : BitVec w.bits) :
    x.setWidth 32 &&& widthMask w = 1#32 <<< (w.bits - 1) ↔ x.toNat = 2 ^ (w.bits - 1) := by
  rw [and_widthMask_eq, operand_setWidth, ← BitVec.toNat_inj, toNat_setWidth_operand]
  cases w <;> exact Iff.rfl

theorem toNat_one_operand (w : Width) : (1 : BitVec w.bits).toNat = 1 := by
  cases w <;> rfl

theorem recorded_inc_of {w : Width} (x : BitVec w.bits) (b : U32) (c : U8) :
    ofOf (eflags ⟨x.setWidth 32, b, (x + 1 + BitVec.ofNat w.bits false.toNat).setWidth 32,
        .inc, w, c⟩) =
      decide (¬ Fits (2 ^ (w.bits - 1)) (x.toInt + (1 : BitVec w.bits).toInt + false.toNat)) := by
  have hsum := sum_bits x 1 false
  have h := hsum.overflow_iff
  have hhalf := half_bits w
  obtain ⟨hx, -, -, hr, hv⟩ := hsum
  rw [toNat_one_operand] at h hv
  rw [toInt_eq_signed, toInt_eq_signed, toNat_one_operand, ofOf, eflags_of, Bool.eq_iff_iff,
    decide_eq_true_iff, ← h]
  unfold flagOf
  simp only [and_mask_eq_signBit_iff, decide_eq_true_iff]
  generalize (x + 1 + BitVec.ofNat w.bits false.toNat).toNat = r at *
  generalize 2 ^ (w.bits - 1) = half at *
  simp only [Bool.toNat_false] at hv
  omega

theorem recorded_dec_of {w : Width} (x : BitVec w.bits) (b : U32) (c : U8) :
    ofOf (eflags ⟨x.setWidth 32, b, (x - 1 - BitVec.ofNat w.bits false.toNat).setWidth 32,
        .dec, w, c⟩) =
      decide (¬ Fits (2 ^ (w.bits - 1)) (x.toInt - (1 : BitVec w.bits).toInt - false.toNat)) := by
  have hdiff := difference_bits x 1 false
  have h := hdiff.underflow_iff
  have hhalf := half_bits w
  obtain ⟨hr, -, -, hx, hv⟩ := hdiff
  rw [toNat_one_operand] at h hv
  rw [toInt_eq_signed, toInt_eq_signed, toNat_one_operand, ofOf, eflags_of, Bool.eq_iff_iff,
    decide_eq_true_iff, ← h]
  unfold flagOf
  simp only [and_mask_eq_signBit_iff, decide_eq_true_iff]
  generalize (x - 1 - BitVec.ofNat w.bits false.toNat).toNat = r at *
  generalize 2 ^ (w.bits - 1) = half at *
  simp only [Bool.toNat_false] at hv
  omega

theorem recorded_add_cf {w : Width} (x y : BitVec w.bits) (c : U8) :
    cfOf (eflags ⟨x.setWidth 32, y.setWidth 32,
        (x + y + BitVec.ofNat w.bits false.toNat).setWidth 32, .add, w, c⟩) =
      decide (2 ^ w.bits ≤ x.toNat + y.toNat) := by
  have h := (sum_bits x y false).carry_iff
  rw [cfOf, eflags_cf, two_pow_bits, Bool.eq_iff_iff, decide_eq_true_iff, ← h]
  unfold flagCf
  simp only [and_widthMask_eq, operand_setWidth, ite_self, decide_eq_true_iff, BitVec.lt_def,
    toNat_setWidth_operand]

theorem recorded_sub_cf {w : Width} (x y : BitVec w.bits) (r : U32) (c : U8) :
    cfOf (eflags ⟨x.setWidth 32, y.setWidth 32, r, .sub, w, c⟩) =
      decide (x.toNat < y.toNat) := by
  rw [cfOf, eflags_cf]
  unfold flagCf
  simp only [and_widthMask_eq, operand_setWidth, ite_self, BitVec.lt_def, toNat_setWidth_operand]

/-- INC and DEC keep the carry the recording read before. -/
theorem recorded_inc_cf {kind : FlagKind} (hk : kind = .inc ∨ kind = .dec) (f : Flags)
    (a b r : U32) (w : Width) :
    cfOf (eflags ⟨a, b, r, kind, w, if flagCf f then 1 else 0⟩) = cfOf (eflags f) := by
  rw [cfOf, cfOf, eflags_cf, eflags_cf]
  unfold flagCf
  rcases hk with rfl | rfl <;> dsimp only <;> split_ifs <;> simp_all

/-! ## ADC and SBB -/

theorem getLsbD_eagerWord (a b r : U32) (w : Width) (cf of : Bool) (i : Nat) :
    (eagerWord a b r w cf of).getLsbD i =
      (flagBits cf (evenParity r) (bit (a ^^^ b ^^^ r) 4) (decide (r = 0)) (msb r w) of i ||
        eflagsFixed.getLsbD i) := by
  unfold eagerWord flagBits
  simp only [BitVec.getLsbD_or, getLsbD_flagIf_flags]
  generalize (cf && decide (i = 0)) = b0
  generalize (evenParity r && decide (i = 2)) = b1
  generalize (bit (a ^^^ b ^^^ r) 4 && decide (i = 4)) = b2
  generalize (decide (r = 0) && decide (i = 6)) = b3
  generalize (msb r w && decide (i = 7)) = b4
  cases b0 <;> cases b1 <;> cases b2 <;> cases b3 <;> cases b4 <;>
    simp only [Bool.or_true, Bool.true_or, Bool.or_false, Bool.false_or]

/-- The flags of an eagerly computed word, read back. -/
theorem eager_flags (a b r : U32) (w : Width) (cf of : Bool) :
    let e := eflags (flagsSetExplicit (eagerWord a b r w cf of))
    cfOf e = cf ∧ ofOf e = of ∧ afOf e = bit (a ^^^ b ^^^ r) 4 ∧ zfOf e = decide (r = 0) ∧
      sfOf e = msb r w ∧ pfOf e = evenParity r := by
  dsimp only
  unfold cfOf ofOf afOf zfOf sfOf pfOf
  refine ⟨?_, ?_, ?_, ?_, ?_, ?_⟩ <;>
    rw [eflags_explicit] <;> simp only [getLsbD_eagerWord] <;> simp [flagBits, eflagsFixed]

theorem eager_resultFlags {w : Width} (a b : U32) (r : BitVec w.bits) (cf of : Bool) :
    ResultFlags r (eflags (flagsSetExplicit (eagerWord a b (r.setWidth 32) w cf of))) := by
  obtain ⟨-, -, -, hzf, hsf, hpf⟩ := eager_flags a b (r.setWidth 32) w cf of
  refine ⟨?_, ?_, ?_⟩
  · rw [hzf, decide_eq_decide.mpr (setWidth_operand_eq_zero_iff r)]
  · rw [hsf, msb_setWidth_operand]
  · rw [hpf, lowByteOnes_setWidth]

theorem bit_add_overflow {w : Width} (x y r : BitVec w.bits) :
    bit (~~~(x.setWidth 32 ^^^ y.setWidth 32) &&& (x.setWidth 32 ^^^ r.setWidth 32))
      (w.bits - 1) = (!(x.msb ^^ y.msb) && (x.msb ^^ r.msb)) := by
  have hw := w.bits_pos
  rw [bit_eq_getLsbD, BitVec.getLsbD_and, BitVec.getLsbD_not, BitVec.getLsbD_xor,
    BitVec.getLsbD_xor, ← msb_eq, ← msb_eq, ← msb_eq, msb_setWidth_operand, msb_setWidth_operand,
    msb_setWidth_operand]
  simp [show w.bits - 1 < 32 by omega]

theorem bit_sub_overflow {w : Width} (x y r : BitVec w.bits) :
    bit ((x.setWidth 32 ^^^ y.setWidth 32) &&& (x.setWidth 32 ^^^ r.setWidth 32))
      (w.bits - 1) = ((x.msb ^^ y.msb) && (x.msb ^^ r.msb)) := by
  rw [bit_eq_getLsbD, BitVec.getLsbD_and, BitVec.getLsbD_xor, BitVec.getLsbD_xor, ← msb_eq,
    ← msb_eq, ← msb_eq, msb_setWidth_operand, msb_setWidth_operand, msb_setWidth_operand]

theorem carryOut_eq (full : U64) (w : Width) :
    carryOut full w = decide (full.toNat / 2 ^ w.bits % 2 = 1) := by
  have hand : (full >>> w.bits &&& 1#64).toNat = full.toNat / 2 ^ w.bits % 2 := by
    rw [BitVec.toNat_and, BitVec.toNat_ushiftRight, Nat.shiftRight_eq_div_pow,
      show (1#64).toNat = 1 from rfl, Nat.and_one_is_mod]
  unfold carryOut
  rw [decide_eq_decide, Ne, ← BitVec.toNat_inj, hand]
  change ¬ full.toNat / 2 ^ w.bits % 2 = 0 ↔ _
  omega

theorem toNat_setWidth_64 {w : Width} (x : BitVec w.bits) :
    ((x.setWidth 32).setWidth 64).toNat = x.toNat := by
  rw [BitVec.toNat_setWidth, toNat_setWidth_operand]
  have := (x.setWidth 32).isLt
  rw [toNat_setWidth_operand] at this
  exact Nat.mod_eq_of_lt (by omega)

theorem carryWord_eq (f : Flags) : carryWord f = BitVec.ofNat 32 (flagCf f).toNat := by
  unfold carryWord
  cases flagCf f <;> rfl

/-- The carry word normalised again is the carry word. -/
theorem carryWord_norm (cin : Bool) :
    (if BitVec.ofNat 32 cin.toNat ≠ 0 then 1 else 0 : U32) = BitVec.ofNat 32 cin.toNat := by
  cases cin <;> rfl

theorem toNat_carry_64 (cin : Bool) :
    ((BitVec.ofNat 32 cin.toNat).setWidth 64).toNat = cin.toNat := by
  cases cin <;> rfl

/-- The carry out of the widened sum. -/
theorem carryOut_add {w : Width} (x y : BitVec w.bits) (cin : Bool) :
    carryOut ((x.setWidth 32).setWidth 64 + (y.setWidth 32).setWidth 64 +
      (BitVec.ofNat 32 cin.toNat).setWidth 64) w =
        decide (2 ^ w.bits ≤ x.toNat + y.toNat + cin.toNat) := by
  have hx := x.isLt
  have hy := y.isLt
  have hc : cin.toNat ≤ 1 := cin.toNat_le
  rw [carryOut_eq, BitVec.toNat_add, BitVec.toNat_add, toNat_setWidth_64, toNat_setWidth_64,
    toNat_carry_64, decide_eq_decide]
  generalize x.toNat = X at *
  generalize y.toNat = Y at *
  cases w <;> simp only [Width.bits, Width.bytes] at * <;> omega

/-- The borrow out of the widened difference. -/
theorem carryOut_sub {w : Width} (x y : BitVec w.bits) (cin : Bool) :
    carryOut ((x.setWidth 32).setWidth 64 - (y.setWidth 32).setWidth 64 -
      (BitVec.ofNat 32 cin.toNat).setWidth 64) w =
        decide (x.toNat < y.toNat + cin.toNat) := by
  have hx := x.isLt
  have hy := y.isLt
  have hc : cin.toNat ≤ 1 := cin.toNat_le
  rw [carryOut_eq, BitVec.toNat_sub, BitVec.toNat_sub, toNat_setWidth_64, toNat_setWidth_64,
    toNat_carry_64, decide_eq_decide]
  generalize x.toNat = X at *
  generalize y.toNat = Y at *
  cases w <;> simp only [Width.bits, Width.bytes] at * <;> omega

theorem flagsAdc_spec {w : Width} (x y : BitVec w.bits) (cin : Bool) :
    let r := x + y + BitVec.ofNat w.bits cin.toNat
    let e := eflags (flagsSetExplicit (flagsAdc (x.setWidth 32) (y.setWidth 32)
      (BitVec.ofNat 32 cin.toNat) (r.setWidth 32) w))
    cfOf e = decide (2 ^ w.bits ≤ x.toNat + y.toNat + cin.toNat) ∧ IsSum x y cin r e := by
  intro r e
  have hsum := sum_bits x y cin
  obtain ⟨hcf, hof, haf, -, -, -⟩ := eager_flags (x.setWidth 32) (y.setWidth 32) (r.setWidth 32) w
    (decide (2 ^ w.bits ≤ x.toNat + y.toNat + cin.toNat)) (!(x.msb ^^ y.msb) && (x.msb ^^ r.msb))
  have he : e = eflags (flagsSetExplicit (eagerWord (x.setWidth 32) (y.setWidth 32)
      (r.setWidth 32) w (decide (2 ^ w.bits ≤ x.toNat + y.toNat + cin.toNat))
      (!(x.msb ^^ y.msb) && (x.msb ^^ r.msb)))) := by
    simp only [e, flagsAdc, and_widthMask_eq, operand_setWidth, carryWord_norm, carryOut_add,
      bit_add_overflow]
  rw [← he] at hcf hof haf
  refine ⟨hcf, ?_, rfl, ?_, ?_⟩
  · rw [he]
    exact eager_resultFlags _ _ _ _ _
  · have h := hsum.overflow_iff
    rw [hof, toInt_eq_signed, toInt_eq_signed, Bool.eq_iff_iff, decide_eq_true_iff, ← h,
      ← msb_iff_half_le, ← msb_iff_half_le, ← msb_iff_half_le]
    cases x.msb <;> cases y.msb <;> cases r.msb <;> simp
  · rw [haf, bit_xor_eq, decide_eq_decide]
    exact hsum.carry_bit (half_bits w)

theorem flagsSbb_spec {w : Width} (x y : BitVec w.bits) (cin : Bool) :
    let r := x - y - BitVec.ofNat w.bits cin.toNat
    let e := eflags (flagsSetExplicit (flagsSbb (x.setWidth 32) (y.setWidth 32)
      (BitVec.ofNat 32 cin.toNat) (r.setWidth 32) w))
    cfOf e = decide (x.toNat < y.toNat + cin.toNat) ∧ IsDifference x y cin r e := by
  intro r e
  have hdiff := difference_bits x y cin
  obtain ⟨hcf, hof, haf, -, -, -⟩ := eager_flags (x.setWidth 32) (y.setWidth 32) (r.setWidth 32) w
    (decide (x.toNat < y.toNat + cin.toNat)) ((x.msb ^^ y.msb) && (x.msb ^^ r.msb))
  have he : e = eflags (flagsSetExplicit (eagerWord (x.setWidth 32) (y.setWidth 32)
      (r.setWidth 32) w (decide (x.toNat < y.toNat + cin.toNat))
      ((x.msb ^^ y.msb) && (x.msb ^^ r.msb)))) := by
    simp only [e, flagsSbb, and_widthMask_eq, operand_setWidth, carryWord_norm, carryOut_sub,
      bit_sub_overflow]
  rw [← he] at hcf hof haf
  refine ⟨hcf, ?_, rfl, ?_, ?_⟩
  · rw [he]
    exact eager_resultFlags _ _ _ _ _
  · have h := hdiff.underflow_iff
    rw [hof, toInt_eq_signed, toInt_eq_signed, Bool.eq_iff_iff, decide_eq_true_iff, ← h,
      ← msb_iff_half_le, ← msb_iff_half_le, ← msb_iff_half_le]
    cases x.msb <;> cases y.msb <;> cases r.msb <;> simp
  · rw [haf, bit_xor_eq, decide_eq_decide]
    exact hdiff.borrow_bit (half_bits w)

end X86Port.Cpu
