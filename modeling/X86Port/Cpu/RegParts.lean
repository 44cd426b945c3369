import X86Port.Cpu.FlagBits
import X86Port.Cpu.Registers

/-!
# Registers as parts

A register number at a width names bits of one register. What a write of those bits leaves in
every part of the file.

* `regRead_regWrite`, `regRead_regWrite_ne`: what is read back, and what is not touched.
* `regWrite_comm`: writes of different parts commute.
-/

namespace X86Port.Cpu

/-- The register a number names at a width, and how far up its bits sit. -/
def regPart (r : Reg) : Width → Reg × Nat
  | .byte => byteReg r
  | _ => (r, 0)

theorem regPart_fits (r : Reg) (w : Width) : (regPart r w).2 + w.bits ≤ 32 := by
  cases w with
  | byte =>
    revert r
    decide
  | word | dword => exact Nat.le_of_ble_eq_true rfl

theorem getLsbD_regRead (c : CpuState) (r : Reg) (w : Width) (i : Nat) :
    (regRead c r w).getLsbD i =
      (decide (i < w.bits) && (c.reg (regPart r w).1).getLsbD ((regPart r w).2 + i)) := by
  have hmask : ∀ (v : U32) (w : Width), (v &&& widthMask w).getLsbD i =
      (decide (i < w.bits) && v.getLsbD i) := fun v w => by
    rw [getLsbD_and_widthMask, Bool.and_comm]
  cases w with
  | byte =>
    refine (hmask _ .byte).trans ?_
    rw [BitVec.getLsbD_ushiftRight]
    rfl
  | word =>
    refine (hmask _ .word).trans ?_
    rw [show (regPart r .word).2 = 0 from rfl, Nat.zero_add]
    rfl
  | dword =>
    rw [show (regPart r .dword).2 = 0 from rfl, Nat.zero_add]
    by_cases hi : i < 32
    · rw [decide_eq_true (show i < Width.dword.bits from hi), Bool.true_and]
      rfl
    · rw [BitVec.getLsbD_of_ge _ _ (by omega), BitVec.getLsbD_of_ge _ _ (by omega), Bool.and_false]

theorem regWrite_other (c : CpuState) {r q : Reg} {w : Width} (v : U32) (h : q ≠ (regPart r w).1) :
    (regWrite c r w v).reg q = c.reg q := by
  cases w <;> exact Function.update_of_ne h _ _

theorem getLsbD_regWrite (c : CpuState) (r : Reg) (w : Width) (v : U32) {j : Nat} (hj : j < 32) :
    ((regWrite c r w v).reg (regPart r w).1).getLsbD j =
      if (regPart r w).2 ≤ j ∧ j < (regPart r w).2 + w.bits then v.getLsbD (j - (regPart r w).2)
      else (c.reg (regPart r w).1).getLsbD j := by
  have hmask := getLsbD_widthMask .byte
  have hinsert : ∀ (old : U32) (k : Nat), ((old &&& ~~~(0xFF#32 <<< k)) |||
      ((v &&& 0xFF#32) <<< k)).getLsbD j =
        if k ≤ j ∧ j < k + 8 then v.getLsbD (j - k) else old.getLsbD j := by
    intro old k
    have hbyte : (0xFF#32).getLsbD (j - k) = decide (j - k < 8) := hmask (j - k)
    rw [BitVec.getLsbD_or, BitVec.getLsbD_and, BitVec.getLsbD_not, BitVec.getLsbD_shiftLeft,
      BitVec.getLsbD_shiftLeft, BitVec.getLsbD_and, hbyte]
    by_cases hlow : k ≤ j
    · by_cases hhigh : j < k + 8
      · simp [hj, hlow, hhigh, show j - k < 8 by omega, show ¬ j < k by omega]
      · simp [hj, hlow, hhigh, show ¬ j - k < 8 by omega]
    · simp [hj, hlow, show j < k by omega]
  cases w with
  | byte =>
    have hreg : (regWrite c r .byte v).reg (byteReg r).1 = _ := Function.update_self _ _ _
    change ((regWrite c r .byte v).reg (byteReg r).1).getLsbD j = _
    rw [hreg]
    exact hinsert _ _
  | word =>
    have hreg : (regWrite c r .word v).reg r = _ := Function.update_self _ _ _
    have hlow : (0xFFFF#32).getLsbD j = decide (j < 16) := getLsbD_widthMask .word j
    have hhigh : (0xFFFF0000#32).getLsbD j = decide (16 ≤ j) := by
      have hnot : (0xFFFF0000#32) = ~~~0xFFFF#32 := rfl
      rw [hnot, BitVec.getLsbD_not, hlow]
      by_cases h : j < 16
      · simp [h, show ¬ 16 ≤ j by omega]
      · simp [h, hj, show 16 ≤ j by omega]
    change ((regWrite c r .word v).reg r).getLsbD j = if 0 ≤ j ∧ j < 0 + 16 then _ else _
    rw [hreg, BitVec.getLsbD_or, BitVec.getLsbD_and, BitVec.getLsbD_and, hlow, hhigh]
    by_cases h : j < 16
    · simp [regPart, h, show ¬ 16 ≤ j by omega]
    · simp [regPart, h, show 16 ≤ j by omega]
  | dword =>
    have hreg : (regWrite c r .dword v).reg r = _ := Function.update_self _ _ _
    change ((regWrite c r .dword v).reg r).getLsbD j = if 0 ≤ j ∧ j < 0 + 32 then _ else _
    rw [hreg, if_pos ⟨Nat.zero_le j, by omega⟩]
    rfl

theorem regRead_regWrite (c : CpuState) (r : Reg) (w : Width) (v : U32) :
    regRead (regWrite c r w v) r w = v &&& widthMask w := by
  have hfits := regPart_fits r w
  refine BitVec.eq_of_getLsbD_eq fun i _ => ?_
  rw [getLsbD_regRead, getLsbD_and_widthMask]
  by_cases hi : i < w.bits
  · rw [getLsbD_regWrite _ _ _ _ (by omega), if_pos ⟨by omega, by omega⟩, Nat.add_sub_cancel_left,
      Bool.and_comm]
  · rw [decide_eq_false hi, Bool.false_and, Bool.and_false]

/-- Two numbers of one width share no bits. -/
theorem regPart_apart {r r' : Reg} (h : r ≠ r') (w : Width) :
    (regPart r w).1 ≠ (regPart r' w).1 ∨ (regPart r w).2 + w.bits ≤ (regPart r' w).2 ∨
      (regPart r' w).2 + w.bits ≤ (regPart r w).2 := by
  cases w with
  | byte =>
    revert r r'
    decide
  | word => exact .inl h
  | dword => exact .inl h

theorem regRead_regWrite_ne (c : CpuState) {r r' : Reg} (h : r ≠ r') (w : Width) (v : U32) :
    regRead (regWrite c r' w v) r w = regRead c r w := by
  have hfits := regPart_fits r w
  refine BitVec.eq_of_getLsbD_eq fun i _ => ?_
  rw [getLsbD_regRead, getLsbD_regRead]
  by_cases hi : i < w.bits
  · congr 1
    by_cases hq : (regPart r w).1 = (regPart r' w).1
    · have hapart := (regPart_apart h w).resolve_left (not_not.mpr hq)
      rw [hq, getLsbD_regWrite _ _ _ _ (by omega), if_neg]
      rintro ⟨hlow, hhigh⟩
      omega
    · rw [regWrite_other _ _ hq]
  · rw [decide_eq_false hi, Bool.false_and, Bool.false_and]

theorem regWrite_df (c : CpuState) (r : Reg) (w : Width) (v : U32) :
    (regWrite c r w v).df = c.df := by
  cases w <;> rfl

theorem regWrite_keeps_flags (c : CpuState) (r : Reg) (w : Width) (v : U32) :
    (regWrite c r w v).flags = c.flags := by
  cases w <;> rfl

/-- A register that is given its own value. -/
theorem regWrite_regRead (c : CpuState) (r : Reg) (w : Width) :
    regWrite c r w (regRead c r w) = c := by
  have hfits := regPart_fits r w
  have hreg : (regWrite c r w (regRead c r w)).reg = c.reg := by
    funext q
    by_cases hq : q = (regPart r w).1
    · subst hq
      refine BitVec.eq_of_getLsbD_eq fun j hj => ?_
      rw [getLsbD_regWrite _ _ _ _ hj]
      split_ifs with hin
      · rw [getLsbD_regRead, decide_eq_true (by omega), Bool.true_and, Nat.add_sub_of_le hin.1]
      · rfl
    · exact regWrite_other _ _ hq
  exact CpuState.ext hreg (regWrite_df _ _ _ _) (regWrite_keeps_flags _ _ _ _)

theorem regRead_and_widthMask (c : CpuState) (r : Reg) (w : Width) :
    regRead c r w &&& widthMask w = regRead c r w := by
  refine BitVec.eq_of_getLsbD_eq fun i _ => ?_
  rw [getLsbD_and_widthMask, getLsbD_regRead, Bool.and_right_comm, Bool.and_self]

/-- Only the part of a value that fits is written. -/
theorem regWrite_and_widthMask (c : CpuState) (r : Reg) (w : Width) (v : U32) :
    regWrite c r w (v &&& widthMask w) = regWrite c r w v := by
  have hmask : ∀ m : U32, v &&& m &&& m = v &&& m := fun m => by
    rw [BitVec.and_assoc, BitVec.and_self]
  cases w with
  | byte =>
    have hbyte : v &&& widthMask .byte &&& 0xFF#32 = v &&& 0xFF#32 := hmask _
    unfold regWrite
    dsimp only
    rw [hbyte]
  | word =>
    have hword : v &&& widthMask .word &&& 0xFFFF#32 = v &&& 0xFFFF#32 := hmask _
    unfold regWrite
    dsimp only
    rw [hword]
  | dword => exact congrArg (c.setReg r) BitVec.and_allOnes

theorem regWrite_comm (c : CpuState) {r r' : Reg} (h : r ≠ r') (w : Width) (v v' : U32) :
    regWrite (regWrite c r w v) r' w v' = regWrite (regWrite c r' w v') r w v := by
  have hreg : (regWrite (regWrite c r w v) r' w v').reg =
      (regWrite (regWrite c r' w v') r w v).reg := by
    funext q
    refine BitVec.eq_of_getLsbD_eq fun j hj => ?_
    have hapart := regPart_apart h w
    by_cases hq : q = (regPart r w).1
    · subst hq
      rw [getLsbD_regWrite _ r _ _ hj]
      by_cases hq' : (regPart r w).1 = (regPart r' w).1
      · have hshift := hapart.resolve_left (not_not.mpr hq')
        have hwrite := getLsbD_regWrite (regWrite c r w v) r' w v' hj
        have hwrite' := getLsbD_regWrite c r' w v' hj
        have hwritten := getLsbD_regWrite c r w v hj
        rw [← hq'] at hwrite hwrite'
        rw [hwrite, hwrite', hwritten]
        split_ifs <;> first | rfl | omega
      · rw [regWrite_other _ _ hq', regWrite_other _ _ hq', getLsbD_regWrite _ r _ _ hj]
    · rw [regWrite_other (regWrite c r' w v') v hq]
      by_cases hq' : q = (regPart r' w).1
      · subst hq'
        rw [getLsbD_regWrite _ r' _ _ hj, getLsbD_regWrite _ r' _ _ hj, regWrite_other _ _ hq]
      · rw [regWrite_other _ _ hq', regWrite_other _ _ hq', regWrite_other _ _ hq]
  refine CpuState.ext hreg ?_ ?_
  · simp only [regWrite_df]
  · simp only [regWrite_keeps_flags]

end X86Port.Cpu
