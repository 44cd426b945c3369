import X86Port.Arm64.FieldEffects

/-!
# What comparisons, selections and shifted operands of the encoder do

* `emits_compareReg`, `emits_cmpWImm`, `emits_subsXImm`, `emits_tstWW`: flags.
* `emits_cselW`, `emits_csetW`: what is selected by them.
* `emits_shiftWW` to `emits_orrXBit`: operands that are shifted.
-/

namespace X86Port.Arm64

/-! ## Flags -/

section

variable (e : A64Emit) (a b dst : RegNo)

theorem A64State.write_zero (s : A64State) {k : Nat} (v : BitVec k) : s.write 31 v = s :=
  s.setX_zero _

/-- The flags of a comparison: of a difference, or of a sum for CMN. -/
def A64State.compared (s : A64State) {k : Nat} (isSub : Bool) (p q : BitVec k) : A64State :=
  if isSub then s.sumFlags p (~~~q) true else s.sumFlags p q false

theorem addSub_compared (s : A64State) {k : Nat} (op : Bool) (p q : BitVec k)
    (put : A64State → BitVec k → A64State) :
    s.addSub op true p q put = put (s.compared op p q) (if op then p - q else p + q) := by
  cases op with
  | false => exact s.addSub_adds _ _ _
  | true => exact s.addSub_subs _ _ _

theorem emits_compareReg (sf op : Bool) :
    Emits e (e.compareReg sf op a b) fun s => s.compared op (s.read sf a) (s.read sf b) :=
  Emits.word (decode_compareReg sf a b op) fun s => by
    have hlegal : ¬ ((0 : BitVec 2) = 3 ∨ sizeOf sf ≤ (0 : BitVec 6).toNat) :=
      not_or.mpr ⟨by decide, not_sizeOf_le⟩
    refine (if_neg hlegal).trans (congrArg some ?_)
    rw [shiftBy_none, addSub_compared]
    exact A64State.write_zero _ _

theorem emits_cmpXX : Emits e (e.cmpXX a b) fun s => s.compared true (s.x a) (s.x b) :=
  (emits_compareReg e a b true true).congr fun s => by
    rw [s.read_x, s.read_x]
    rfl

variable {imm : U32}

/-- The twelve bits of an immediate that is no larger, in a register of either size. -/
theorem imm12_wide (h : imm ≤ 0xFFF) :
    (imm.setWidth 12 : BitVec 12).setWidth 32 = imm :=
  inWord_setWidth (show imm.toNat < 2 ^ 12 from Nat.lt_succ_of_le h)

theorem emits_cmpWImm_small (h : imm ≤ 0xFFF) (ha : a ≠ 31) :
    Emits e (e.cmpWImm a imm) fun s => s.compared true (s.w a) imm := by
  unfold A64Emit.cmpWImm
  rw [if_pos h, imm12_inWord]
  refine Emits.word (decode_cmpWImm a _) fun s => congrArg some ?_
  rw [addSub_compared, if_pos rfl, s.readSp_of_ne ha]
  refine (A64State.write_zero _ _).trans (congrArg (s.compared true (s.w a)) ?_)
  exact (BitVec.shiftLeft_zero _).trans (imm12_wide h)

theorem emits_cmpWImm_large (h : ¬ imm ≤ 0xFFF) (ha : a ≠ 9) :
    Emits e (e.cmpWImm a imm) fun s =>
      (s.setX 9 (imm.setWidth 64)).compared true (s.w a) imm := by
  unfold A64Emit.cmpWImm
  rw [if_neg h]
  refine ((emits_movWImm32 e 9 imm).trans (emits_compareReg _ a 9 false true)).congr fun s => ?_
  have ha' : (s.setX 9 (imm.setWidth 64)).w a = s.w a :=
    congrArg (BitVec.setWidth 32) (s.setX_x_of_ne ha)
  have h9 : (s.setX 9 (imm.setWidth 64)).w 9 = imm := by
    unfold A64State.w
    rw [s.setX_x_self (by decide), BitVec.setWidth_setWidth_of_le _ (by decide), BitVec.setWidth_eq]
  change (s.setX 9 (imm.setWidth 64)).compared true ((s.setX 9 (imm.setWidth 64)).w a)
    ((s.setX 9 (imm.setWidth 64)).w 9) = _
  rw [ha', h9]

theorem emits_subsXImm (h : imm ≤ 0xFFF) (hdst : dst ≠ 31) :
    Emits e (e.subsXImm dst imm) fun s =>
      (s.compared true (s.x dst) (imm.setWidth 64)).write dst (s.x dst - imm.setWidth 64) := by
  have hle : ¬ 0xFFF < imm := BitVec.not_lt.mpr h
  have himm : imm = inWord (imm.setWidth 12 : BitVec 12) := (imm12_wide h).symm
  unfold A64Emit.subsXImm
  rw [if_neg hle]
  have hword := decode_subsXImm dst dst (imm.setWidth 12)
  rw [← himm] at hword
  refine Emits.word hword fun s => congrArg some ?_
  rw [addSub_compared, if_pos rfl, s.readSp_of_ne hdst, s.read_x]
  have hwide : ((imm.setWidth 12 : BitVec 12).setWidth 64 <<< 0 : U64) = imm.setWidth 64 :=
    (BitVec.shiftLeft_zero _).trans (widened h)
  exact congrArg (fun q : U64 => (s.compared true (s.x dst) q).write dst (s.x dst - q)) hwide

theorem exec_ands (sf : Bool) (rm rn rd : RegNo) (s : A64State) :
    (A64Instr.logicalReg sf 3 0 false rm 0 rn rd).exec s =
      let r := s.read sf rn &&& s.read sf rm
      some ((s.logicFlags r).write rd r) := by
  refine (if_neg not_sizeOf_le).trans (congrArg some ?_)
  rw [shiftBy_none, if_pos rfl]
  rfl

theorem emits_tstWW : Emits e (e.tstWW a b) fun s => s.logicFlags (s.w a &&& s.w b) :=
  Emits.word (decode_tstWW a b) fun s => by
    rw [exec_ands]
    exact congrArg some (A64State.write_zero _ _)

theorem emits_tstWBit0 : Emits e (e.tstWBit0 a) fun s => s.logicFlags (s.w a &&& 1) :=
  Emits.word (decode_tstWBit0 a) fun s => by
    have hmask : bitMask false 0 0 = some 0x0000000100000001 := by decide
    rw [exec_logicalImm (by decide) hmask]
    exact congrArg some (A64State.write_zero _ _)

/-! ### Selections -/

theorem emits_cselW (cc : BitVec 4) :
    Emits e (e.cselW cc dst a b) fun s => s.write dst (if s.holds cc then s.w a else s.w b) :=
  Emits.word (decode_cselW dst a b cc) fun _ => rfl

/-- The lowest bit of a condition turns it over, except in the two that always hold. -/
theorem holds_not (s : A64State) (cc : BitVec 4) (hcc : cc.toNat < 14) :
    s.holds (cc ^^^ 1) = !s.holds cc := by
  have hbit : (cc ^^^ 1).getLsbD 0 = !cc.getLsbD 0 := by
    rw [BitVec.getLsbD_xor]
    exact Bool.xor_true _
  have hrest : (cc ^^^ 1).extractLsb' 1 3 = cc.extractLsb' 1 3 := by
    rw [BitVec.extractLsb'_xor]
    exact BitVec.xor_zero
  have hlast : cc ≠ 15 ∧ cc ^^^ 1 ≠ 15 := by
    revert cc
    decide
  unfold A64State.holds
  rw [hbit, hrest]
  cases cc.getLsbD 0 with
  | false => rw [if_pos ⟨rfl, hlast.2⟩, if_neg fun h => Bool.noConfusion h.1]
  | true => rw [if_neg fun h => Bool.noConfusion h.1, if_pos ⟨rfl, hlast.1⟩, Bool.not_not]

theorem emits_csetW {cc : BitVec 4} (hcc : cc.toNat < 14) :
    Emits e (e.csetW cc dst) fun s => s.write dst (if s.holds cc then 1#32 else 0#32) :=
  Emits.word (decode_csetW dst (cc ^^^ 1)) fun s => by
    have hzero : s.read false 31 = 0 := by
      unfold A64State.read
      rw [A64State.x_zero]
      exact BitVec.setWidth_zero ..
    simp only [A64Instr.exec, hzero, holds_not s cc hcc]
    cases s.holds cc <;> rfl

end

/-! ## Shifted operands -/

section

variable (e : A64Emit) (dst a b : RegNo)

/-- `X86pA64Shift` as operations. -/
def A64Shift.eval (op : A64Shift) (v : U32) (n : Nat) : U32 :=
  match op with
  | .lsl => v <<< n
  | .lsr => v >>> n
  | .asr => v.sshiftRight n

theorem emits_shiftWW (op : A64Shift) :
    Emits e (e.shiftWW op dst a b) fun s =>
      s.write dst (op.eval (s.w a) ((s.w b).toNat % 32)) := by
  cases op with
  | lsl => exact Emits.word (decode_shiftVar dst a b 0) fun _ => rfl
  | lsr => exact Emits.word (decode_shiftVar dst a b 1) fun _ => rfl
  | asr => exact Emits.word (decode_shiftVar dst a b 2) fun _ => rfl

theorem emits_addXWUxtw (base offset : RegNo) :
    Emits e (e.addXWUxtw dst base offset) fun s =>
      s.setSp dst (s.gpr base + (s.w offset).setWidth 64) :=
  Emits.word (decode_addUxtw dst base offset) fun s => by
    have hlegal : ¬ 4 < (0 : BitVec 3).toNat := by decide
    have hext : extendBy 2 (s.x offset) (0 : BitVec 3).toNat = (s.w offset).setWidth 64 :=
      BitVec.shiftLeft_zero _
    simp only [A64Instr.exec, if_neg hlegal, s.addSub_add, s.read_x]
    have hbase : s.readSp true base = s.gpr base := BitVec.setWidth_eq _
    change some (s.setSp dst ((@HAdd.hAdd U64 U64 U64 _ (s.readSp true base)
      (extendBy 2 (s.x offset) (0 : BitVec 3).toNat)).setWidth 64)) = _
    rw [hext, hbase, BitVec.setWidth_eq]

variable {shift : U32}

theorem shift6_inWord (h : shift.toNat < 64) : inWord (shift.setWidth 6 : BitVec 6) = shift :=
  inWord_setWidth h

theorem emits_aluLsl {sf : Bool} {op : A64Alu} (hop : op = .add ∨ op = .orr)
    (h : shift.toNat < sizeOf sf) :
    Emits e (e.aluLsl sf op dst a b shift) fun s =>
      s.write dst (op.eval (s.read sf a) (s.read sf b <<< shift.toNat)) := by
  have hsize : sizeOf sf ≤ 64 := by cases sf <;> decide
  have h6 : inWord (shift.setWidth 6 : BitVec 6) = shift := shift6_inWord (by omega)
  have hn : (shift.setWidth 6 : BitVec 6).toNat = shift.toNat := toNat_place6 rfl (by omega)
  have hfits : ¬ (if sf then 63 else 31) < shift := by
    cases sf with
    | false => exact BitVec.not_lt.mpr (show shift.toNat ≤ 31 from Nat.le_of_lt_succ h)
    | true => exact BitVec.not_lt.mpr (show shift.toNat ≤ 63 from Nat.le_of_lt_succ h)
  have hrefuse : ¬ ((op ≠ .add ∧ op ≠ .orr) ∨ (if sf then 63 else 31) < shift) := by
    rintro (hne | hlt)
    · exact hop.elim hne.1 hne.2
    · exact hfits hlt
  have hlegal : ¬ sizeOf sf ≤ (shift.setWidth 6 : BitVec 6).toNat := by
    rw [hn]
    omega
  unfold A64Emit.aluLsl
  rw [if_neg hrefuse]
  rcases hop with rfl | rfl
  · have hword := decode_addLsl sf dst a b (shift.setWidth 6)
    rw [h6] at hword
    refine Emits.word hword fun s => ?_
    have hlegal' : ¬ ((0 : BitVec 2) = 3 ∨ sizeOf sf ≤ (shift.setWidth 6 : BitVec 6).toNat) :=
      not_or.mpr ⟨by decide, hlegal⟩
    refine (if_neg hlegal').trans (congrArg some ?_)
    rw [s.addSub_add, hn]
    rfl
  · have hword := decode_orrLsl sf dst a b (shift.setWidth 6)
    rw [h6] at hword
    refine Emits.word hword fun s => (if_neg hlegal).trans (congrArg some ?_)
    rw [hn]
    rfl

theorem emits_eorWWLsr (h : shift ≤ 31) :
    Emits e (e.eorWWLsr dst a b shift) fun s =>
      s.write dst (s.w a ^^^ s.w b >>> shift.toNat) := by
  have hle : shift.toNat ≤ 31 := h
  have hn : (shift.setWidth 6 : BitVec 6).toNat = shift.toNat := toNat_place6 rfl (by omega)
  have hlegal : ¬ sizeOf false ≤ (shift.setWidth 6 : BitVec 6).toNat := by
    rw [hn]
    exact Nat.not_le.mpr (Nat.lt_succ_of_le hle)
  have hword := decode_eorLsr dst a b (shift.setWidth 6)
  rw [shift6_inWord (by omega)] at hword
  unfold A64Emit.eorWWLsr
  rw [if_neg (BitVec.not_lt.mpr h)]
  refine Emits.word hword fun s => (if_neg hlegal).trans (congrArg some ?_)
  rw [hn]
  rfl

theorem bitMask_bit : ∀ immr : BitVec 6,
    bitMask true immr 0 = some (1#64 <<< ((64 - immr.toNat) % 64)) := by
  decide

theorem emits_orrXBit {bit : U32} (h : bit ≤ 63) (hdst : dst ≠ 31) :
    Emits e (e.orrXBit dst bit) fun s => s.write dst (s.x dst ||| 1#64 <<< bit.toNat) := by
  have hle : bit.toNat ≤ 63 := h
  have hr : ((64 - bit) &&& 63).toNat = (64 - bit.toNat) % 64 := by
    rw [BitVec.toNat_and]
    change (64 - bit).toNat &&& (2 ^ 6 - 1) = _
    rw [Nat.and_two_pow_sub_one_eq_mod]
    bv_omega
  have hr6 : (((64 - bit) &&& 63).setWidth 6 : BitVec 6).toNat = (64 - bit.toNat) % 64 :=
    toNat_place6 hr (Nat.mod_lt _ (by decide))
  have hword := decode_orrXBit dst dst (((64 - bit) &&& 63).setWidth 6)
  rw [shift6_inWord (by omega)] at hword
  have hmask := bitMask_bit (((64 - bit) &&& 63).setWidth 6)
  rw [hr6, show (64 - (64 - bit.toNat) % 64) % 64 = bit.toNat by omega] at hmask
  unfold A64Emit.orrXBit
  rw [if_neg (BitVec.not_lt.mpr h)]
  refine Emits.word hword fun s => ?_
  rw [exec_logicalImm (by decide) hmask]
  change some (s.writeSp dst (@HOr.hOr U64 U64 U64 _ (s.read true dst)
    ((1#64 <<< bit.toNat).setWidth 64))) = _
  rw [s.writeSp_of_ne hdst, s.read_x, BitVec.setWidth_eq]

end

end X86Port.Arm64
