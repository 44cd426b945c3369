import X86Port.Cpu.AluArch
import X86Port.Lib.Rotate

/-!
# Shifts and rotates

The results and the carries of the shift and rotate operations at the operand's own width.
Counts past the width are where the directions differ: SHL and SHR run out of operand bits,
SAR keeps feeding in the sign, ROL and ROR turn modulo the width, RCL and RCR modulo the
width and one.

* `rclLoop_eq`, `rcrLoop_eq`: the loop of single steps is one rotation of the operand with
  the carry on top.
-/

namespace X86Port.Cpu

open Lib

variable {w : Width}

/-! ## Shifts -/

theorem shl_result (x : BitVec w.bits) (k : Nat) :
    (if k ≥ w.bits then 0 else (x.setWidth 32 <<< k) &&& widthMask w) =
      (x <<< k).setWidth 32 := by
  have hw := w.bits_pos
  apply BitVec.eq_of_getLsbD_eq
  intro i hi
  rw [getLsbD_setWidth_operand, BitVec.getLsbD_shiftLeft]
  split_ifs with h
  · by_cases hik : i < k
    · simp [hik]
    · simp [show ¬ i < w.bits by omega]
  · rw [getLsbD_and_widthMask, BitVec.getLsbD_shiftLeft, getLsbD_setWidth_operand]
    simp only [hi, decide_true, Bool.true_and]
    rw [Bool.and_comm, Bool.and_assoc]

theorem shr_result (x : BitVec w.bits) (k : Nat) :
    (if k ≥ w.bits then 0 else (x.setWidth 32 >>> k) &&& widthMask w) =
      (x >>> k).setWidth 32 := by
  apply BitVec.eq_of_getLsbD_eq
  intro i hi
  rw [getLsbD_setWidth_operand, BitVec.getLsbD_ushiftRight]
  split_ifs with h
  · simp [BitVec.getLsbD_of_ge x (k + i) (by omega)]
  · rw [getLsbD_and_widthMask, BitVec.getLsbD_ushiftRight, getLsbD_setWidth_operand]
    by_cases hiw : i < w.bits
    · simp [hiw]
    · simp [hiw, BitVec.getLsbD_of_ge x (k + i) (by omega)]

theorem sar_result (x : BitVec w.bits) (k : Nat) :
    (if k ≥ w.bits then (if bit (x.setWidth 32) (w.bits - 1) then widthMask w else 0)
      else (x.setWidth 32 >>> k) &&& widthMask w |||
        (if bit (x.setWidth 32) (w.bits - 1) then
          (widthMask w <<< (w.bits - k)) &&& widthMask w else 0)) =
      (x.sshiftRight k).setWidth 32 := by
  have hw := w.bits_pos
  have hsign : bit (x.setWidth 32) (w.bits - 1) = x.msb := msb_setWidth_operand x
  apply BitVec.eq_of_getLsbD_eq
  intro i hi
  rw [getLsbD_setWidth_operand, BitVec.getLsbD_sshiftRight, hsign]
  by_cases hiw : i < w.bits
  · by_cases hk : k ≥ w.bits
    · rw [if_pos hk, if_neg (show ¬ k + i < w.bits by omega)]
      cases x.msb <;> simp [getLsbD_widthMask, hiw]
    · rw [if_neg hk, BitVec.getLsbD_or, getLsbD_and_widthMask, BitVec.getLsbD_ushiftRight,
        getLsbD_setWidth_operand]
      by_cases hki : k + i < w.bits
      · have hlow : i < w.bits - k := by omega
        rw [if_pos hki]
        cases x.msb <;> simp [hiw, hlow]
      · have hhigh : ¬ i < w.bits - k := by omega
        rw [if_neg hki, BitVec.getLsbD_of_ge x (k + i) (by omega)]
        cases x.msb with
        | false => simp
        | true =>
          rw [if_pos rfl, getLsbD_and_widthMask, BitVec.getLsbD_shiftLeft, getLsbD_widthMask]
          simp [hi, hiw, hhigh, show i - (w.bits - k) < w.bits by omega]
  · have hge : w.bits ≤ i := by omega
    split_ifs <;> simp [getLsbD_widthMask, hge, hiw]

/-- The carry a recorded left shift derives is the top bit of the operand shifted one
place fewer. -/
theorem recorded_shl_cf (x : BitVec w.bits) (count r : U32) (c : U8) (hc : count ≠ 0) :
    cfOf (eflags ⟨x.setWidth 32, count, r, .shl, w, c⟩) =
      (x <<< (count.toNat - 1)).msb := by
  have hw := w.bits_pos
  have hpos : 0 < count.toNat := by bv_omega
  rw [cfOf, eflags_cf, BitVec.msb_eq_getLsbD_last, BitVec.getLsbD_shiftLeft]
  unfold flagCf
  dsimp only
  split_ifs with h
  · simp [show w.bits - 1 < count.toNat - 1 by omega]
  · rw [bit_eq_getLsbD, getLsbD_setWidth_operand,
      show w.bits - 1 - (count.toNat - 1) = w.bits - count.toNat by omega]
    simp [show w.bits - 1 < w.bits by omega, show ¬ w.bits - 1 < count.toNat - 1 by omega]

theorem recorded_shr_cf (x : BitVec w.bits) (count r : U32) (c : U8) :
    cfOf (eflags ⟨x.setWidth 32, count, r, .shr, w, c⟩) =
      (x >>> (count.toNat - 1)).getLsbD 0 := by
  rw [cfOf, eflags_cf, BitVec.getLsbD_ushiftRight, Nat.add_zero]
  unfold flagCf
  dsimp only
  split_ifs with h
  · rw [BitVec.getLsbD_of_ge x _ (by omega)]
  · rw [bit_eq_getLsbD, getLsbD_setWidth_operand]

theorem recorded_sar_cf (x : BitVec w.bits) (count r : U32) (c : U8) (hc : count ≠ 0) :
    cfOf (eflags ⟨x.setWidth 32, count, r, .sar, w, c⟩) =
      (x.sshiftRight (count.toNat - 1)).getLsbD 0 := by
  have hw := w.bits_pos
  have hpos : 0 < count.toNat := by bv_omega
  rw [cfOf, eflags_cf, BitVec.getLsbD_sshiftRight, Nat.add_zero]
  unfold flagCf
  dsimp only
  split_ifs with h h' h'
  · omega
  · simp [msb_setWidth_operand, show ¬ w.bits ≤ 0 by omega]
  · rw [bit_eq_getLsbD, getLsbD_setWidth_operand]
    simp [show ¬ w.bits ≤ 0 by omega]
  · omega

/-! ## Rotates -/

theorem rol_result (x : BitVec w.bits) (k : Nat) :
    (if k % w.bits = 0 then x.setWidth 32
      else (x.setWidth 32 <<< (k % w.bits) ||| x.setWidth 32 >>> (w.bits - k % w.bits)) &&&
        widthMask w) = (x.rotateLeft k).setWidth 32 := by
  have hw := w.bits_pos
  have hk := Nat.mod_lt k (show 0 < w.bits by omega)
  apply BitVec.eq_of_getLsbD_eq
  intro i hi
  rw [getLsbD_setWidth_operand]
  by_cases hiw : i < w.bits
  · rw [getLsbD_rotateLeft_eq _ _ hiw]
    unfold rotatedFrom
    by_cases hz : k % w.bits = 0
    · rw [if_pos hz, getLsbD_setWidth_operand, hz, if_neg (by omega), Nat.sub_zero]
    · rw [if_neg hz, getLsbD_and_widthMask, BitVec.getLsbD_or, BitVec.getLsbD_shiftLeft,
        BitVec.getLsbD_ushiftRight, getLsbD_setWidth_operand, getLsbD_setWidth_operand]
      by_cases hlt : i < k % w.bits
      · rw [if_pos hlt, show w.bits - k % w.bits + i = i + w.bits - k % w.bits by omega]
        simp [hlt, hiw]
      · rw [if_neg hlt, BitVec.getLsbD_of_ge x (w.bits - k % w.bits + i) (by omega)]
        simp [hlt, hi, hiw]
  · rw [BitVec.getLsbD_of_ge (x.rotateLeft k) i (by omega)]
    split_ifs
    · rw [getLsbD_setWidth_operand, BitVec.getLsbD_of_ge _ i (by omega)]
    · rw [getLsbD_and_widthMask, decide_eq_false hiw, Bool.and_false]

theorem ror_result (x : BitVec w.bits) (k : Nat) :
    (if k % w.bits = 0 then x.setWidth 32
      else (x.setWidth 32 >>> (k % w.bits) ||| x.setWidth 32 <<< (w.bits - k % w.bits)) &&&
        widthMask w) = (x.rotateRight k).setWidth 32 := by
  have hw := w.bits_pos
  have hk := Nat.mod_lt k (show 0 < w.bits by omega)
  have hrol := rol_result x (w.bits - k % w.bits)
  rw [rotateRight_eq_rotateLeft, ← hrol]
  by_cases hz : k % w.bits = 0
  · rw [if_pos hz, hz, Nat.sub_zero, Nat.mod_self, if_pos rfl]
  · have hlt : (w.bits - k % w.bits) % w.bits = w.bits - k % w.bits := Nat.mod_eq_of_lt (by omega)
    rw [if_neg hz, hlt, if_neg (by omega), show w.bits - (w.bits - k % w.bits) = k % w.bits by omega,
      BitVec.or_comm]

/-! ## Rotates through the carry -/

theorem and_one_eq (v : U32) : v &&& 1#32 = BitVec.ofNat 32 (v.getLsbD 0).toNat := by
  rw [BitVec.and_one_eq_setWidth_ofBool_getLsbD]
  cases v.getLsbD 0 <;> rfl

theorem getLsbD_carry (c : Bool) (i : Nat) :
    (BitVec.ofNat 32 c.toNat).getLsbD i = (c && decide (i = 0)) := by
  cases c with
  | false => simp
  | true =>
    rw [show BitVec.ofNat 32 true.toNat = 1#32 <<< 0 from rfl, getLsbD_flag (by decide),
      Bool.true_and]

/-- The operand after one round of RCL. -/
def rclNext (x : BitVec w.bits) (c : Bool) : BitVec w.bits :=
  operand w (x.setWidth 32 <<< 1 ||| BitVec.ofNat 32 c.toNat)

def rcrNext (x : BitVec w.bits) (c : Bool) : BitVec w.bits :=
  operand w (x.setWidth 32 >>> 1 ||| BitVec.ofNat 32 c.toNat <<< (w.bits - 1))

theorem rclStep_eq (x : BitVec w.bits) (c : Bool) :
    rclStep w (x.setWidth 32, BitVec.ofNat 32 c.toNat) =
      ((rclNext x c).setWidth 32, BitVec.ofNat 32 x.msb.toNat) := by
  unfold rclStep rclNext
  rw [and_widthMask_eq, and_one_eq, BitVec.getLsbD_ushiftRight, Nat.add_zero,
    getLsbD_setWidth_operand, BitVec.msb_eq_getLsbD_last]

theorem rcrStep_eq (x : BitVec w.bits) (c : Bool) :
    rcrStep w (x.setWidth 32, BitVec.ofNat 32 c.toNat) =
      ((rcrNext x c).setWidth 32, BitVec.ofNat 32 (x.getLsbD 0).toNat) := by
  unfold rcrStep rcrNext
  rw [and_widthMask_eq, and_one_eq, getLsbD_setWidth_operand]

theorem rclNext_eq (x : BitVec w.bits) (c : Bool) :
    BitVec.cons x.msb (rclNext x c) = (BitVec.cons c x).rotateLeft 1 := by
  have hw := w.bits_pos
  apply BitVec.eq_of_getLsbD_eq
  intro i hi
  rw [getLsbD_rotateLeft_eq _ _ hi, BitVec.getLsbD_cons, BitVec.getLsbD_cons]
  unfold rotatedFrom
  rw [Nat.mod_eq_of_lt (show 1 < w.bits + 1 by omega)]
  by_cases hz : i = 0
  · subst hz
    rw [if_neg (show ¬ 0 = w.bits by omega), if_pos Nat.one_pos,
      if_pos (show 0 + (w.bits + 1) - 1 = w.bits by omega), rclNext, operand,
      BitVec.getLsbD_setWidth, BitVec.getLsbD_or, BitVec.getLsbD_shiftLeft, getLsbD_carry]
    simp [show 0 < w.bits by omega]
  · rw [if_neg (show ¬ i < 1 by omega), if_neg (show ¬ i - 1 = w.bits by omega)]
    by_cases hn : i = w.bits
    · rw [if_pos hn, BitVec.msb_eq_getLsbD_last, hn]
    · rw [if_neg hn, rclNext, operand, BitVec.getLsbD_setWidth, BitVec.getLsbD_or,
        BitVec.getLsbD_shiftLeft, getLsbD_carry, getLsbD_setWidth_operand]
      simp [show i < w.bits by omega, show i < 32 by omega, hz]

theorem rcrNext_eq (x : BitVec w.bits) (c : Bool) :
    BitVec.cons (x.getLsbD 0) (rcrNext x c) = (BitVec.cons c x).rotateRight 1 := by
  have hw := w.bits_pos
  apply BitVec.eq_of_getLsbD_eq
  intro i hi
  rw [rotateRight_eq_rotateLeft, getLsbD_rotateLeft_eq _ _ hi, BitVec.getLsbD_cons,
    BitVec.getLsbD_cons]
  unfold rotatedFrom
  rw [Nat.mod_eq_of_lt (show 1 < w.bits + 1 by omega), Nat.add_sub_cancel,
    Nat.mod_eq_of_lt (show w.bits < w.bits + 1 by omega)]
  by_cases hn : i = w.bits
  · rw [if_pos hn, hn, if_neg (Nat.lt_irrefl _), Nat.sub_self,
      if_neg (show ¬ 0 = w.bits by omega)]
  · rw [if_neg hn, if_pos (show i < w.bits by omega),
      show i + (w.bits + 1) - w.bits = i + 1 by omega, rcrNext, operand, BitVec.getLsbD_setWidth,
      BitVec.getLsbD_or, BitVec.getLsbD_ushiftRight, getLsbD_setWidth_operand,
      BitVec.getLsbD_shiftLeft, getLsbD_carry, Nat.add_comm 1 i]
    by_cases hl : i + 1 = w.bits
    · rw [if_pos hl, BitVec.getLsbD_of_ge x (i + 1) (by omega)]
      simp [show i < w.bits by omega, show i < 32 by omega, show ¬ i < w.bits - 1 by omega,
        show i - (w.bits - 1) = 0 by omega]
    · rw [if_neg hl]
      simp [show i < w.bits by omega, show i < w.bits - 1 by omega]

/-- The loop of RCL is one rotation of the operand with the carry on top. -/
theorem rclLoop_eq (x : BitVec w.bits) (c : Bool) (k : Nat) :
    ∃ (r : BitVec w.bits) (c' : Bool),
      (rclStep w)^[k] (x.setWidth 32, BitVec.ofNat 32 c.toNat) =
        (r.setWidth 32, BitVec.ofNat 32 c'.toNat) ∧
      BitVec.cons c' r = (BitVec.cons c x).rotateLeft k := by
  induction k with
  | zero =>
    refine ⟨x, c, rfl, ?_⟩
    apply BitVec.eq_of_getLsbD_eq
    intro i hi
    rw [getLsbD_rotateLeft_eq _ _ hi, rotatedFrom, Nat.zero_mod, if_neg (by omega), Nat.sub_zero]
  | succ k ih =>
    obtain ⟨r, c', hloop, hrot⟩ := ih
    refine ⟨rclNext r c', r.msb, ?_, ?_⟩
    · rw [Function.iterate_succ_apply', hloop, rclStep_eq]
    · rw [rclNext_eq, hrot, rotateLeft_rotateLeft]

theorem rcrLoop_eq (x : BitVec w.bits) (c : Bool) (k : Nat) :
    ∃ (r : BitVec w.bits) (c' : Bool),
      (rcrStep w)^[k] (x.setWidth 32, BitVec.ofNat 32 c.toNat) =
        (r.setWidth 32, BitVec.ofNat 32 c'.toNat) ∧
      BitVec.cons c' r = (BitVec.cons c x).rotateRight k := by
  induction k with
  | zero =>
    refine ⟨x, c, rfl, ?_⟩
    apply BitVec.eq_of_getLsbD_eq
    intro i hi
    rw [rotateRight_eq_rotateLeft, getLsbD_rotateLeft_eq _ _ hi, rotatedFrom, Nat.zero_mod,
      Nat.sub_zero, Nat.mod_self, if_neg (by omega), Nat.sub_zero]
  | succ k ih =>
    obtain ⟨r, c', hloop, hrot⟩ := ih
    refine ⟨rcrNext r c', r.getLsbD 0, ?_, ?_⟩
    · rw [Function.iterate_succ_apply', hloop, rcrStep_eq]
    · rw [rcrNext_eq, hrot, rotateRight_rotateRight]

/-! ## The two flags of a rotate -/

/-- The word that is stored, before the fixed bits are added. -/
theorem getLsbD_cfOfWord (f : Flags) (cf of : Bool) (i : Nat) :
    (eflags f &&& ~~~(flagCF ||| flagOF) ||| flagIf cf flagCF ||| flagIf of flagOF).getLsbD i =
      ((eflags f).getLsbD i && decide (i < 32) && !(decide (i = 0) || decide (i = 11)) ||
        cf && decide (i = 0) || of && decide (i = 11)) := by
  have hcf : flagCF.getLsbD i = decide (i = 0) := getLsbD_flag (by decide) i
  have hof : flagOF.getLsbD i = decide (i = 11) := getLsbD_flag (by decide) i
  simp only [BitVec.getLsbD_or, BitVec.getLsbD_and, BitVec.getLsbD_not, hcf, hof,
    getLsbD_flagIf_flags, Bool.and_assoc]

theorem setCfOfOnly_spec (f : Flags) (cf of : Bool) :
    cfOf (eflags (setCfOfOnly f cf of)) = cf ∧
      OnlyCfOf (eflags f) (eflags (setCfOfOnly f cf of)) := by
  unfold setCfOfOnly
  constructor
  · rw [cfOf, eflags_explicit]
    simp only [getLsbD_cfOfWord]
    simp [flagBits, eflagsFixed]
  · intro i h0 h11
    rw [eflags_explicit]
    simp only [getLsbD_cfOfWord]
    rw [getLsbD_eflags f i, eflags_pf, eflags_af, eflags_zf, eflags_sf]
    simp [flagBits, h0, h11]

theorem setCfOfOnly_of (f : Flags) (cf of : Bool) :
    ofOf (eflags (setCfOfOnly f cf of)) = of := by
  unfold setCfOfOnly
  rw [ofOf, eflags_explicit]
  simp only [getLsbD_cfOfWord]
  simp [flagBits, eflagsFixed]

end X86Port.Cpu
