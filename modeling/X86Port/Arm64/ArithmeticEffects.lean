import X86Port.Arm64.MemoryEffects

/-!
# What the arithmetic of the encoder does

* `emits_alu`, `emits_mulW`, `emits_revW`: operations on registers.
* `emits_logicalImm`, `emits_addSubWImm`: immediates that fit.
* `emits_aluWConst`: immediates that do not.
-/

namespace X86Port.Arm64

open Lib (CodeBuffer)

/-- `X86pA64Alu` as operations. -/
def A64Alu.eval {k : Nat} (op : A64Alu) (p q : BitVec k) : BitVec k :=
  match op with
  | .add => p + q
  | .sub => p - q
  | .and => p &&& q
  | .orr => p ||| q
  | .eor => p ^^^ q

theorem A64State.write_x (s : A64State) (r : RegNo) (v : U64) : s.write r v = s.setX r v :=
  congrArg (s.setX r) (BitVec.setWidth_eq v)

theorem A64State.read_x (s : A64State) (r : RegNo) : s.read true r = s.x r := BitVec.setWidth_eq _

theorem shiftBy_none {k : Nat} (v : BitVec k) : shiftBy 0 v (0 : BitVec 6).toNat = v :=
  BitVec.shiftLeft_zero v

theorem not_sizeOf_le {sf : Bool} : ¬ sizeOf sf ≤ (0 : BitVec 6).toNat := by
  cases sf <;> decide

section

variable (e : A64Emit) (sf : Bool) (dst a b : RegNo)

theorem exec_addSubReg (op : Bool) (rm rn rd : RegNo) (s : A64State) :
    (A64Instr.addSubReg sf op false 0 rm 0 rn rd).exec s =
      some (s.write rd
        (if op then s.read sf rn - s.read sf rm else s.read sf rn + s.read sf rm)) := by
  have hlegal : ¬ ((0 : BitVec 2) = 3 ∨ sizeOf sf ≤ (0 : BitVec 6).toNat) :=
    not_or.mpr ⟨by decide, not_sizeOf_le⟩
  refine (if_neg hlegal).trans (congrArg some ?_)
  rw [shiftBy_none]
  cases op with
  | false => exact s.addSub_add _ _ _
  | true => exact s.addSub_sub _ _ _

theorem exec_logicalReg {opc : BitVec 2} (h : opc ≠ 3) (n : Bool) (rm rn rd : RegNo)
    (s : A64State) :
    (A64Instr.logicalReg sf opc 0 n rm 0 rn rd).exec s =
      some (s.write rd (logicBy opc (s.read sf rn)
        (if n then ~~~(s.read sf rm) else s.read sf rm))) := by
  refine (if_neg not_sizeOf_le).trans (congrArg some ?_)
  rw [shiftBy_none, if_neg h]

theorem emits_alu (op : A64Alu) :
    Emits e (e.aluShiftedReg sf op dst a b) fun s =>
      s.write dst (op.eval (s.read sf a) (s.read sf b)) :=
  Emits.word (decode_alu sf dst a b op) fun s => by
    cases op with
    | add => exact exec_addSubReg sf false b a dst s
    | sub => exact exec_addSubReg sf true b a dst s
    | and => exact exec_logicalReg sf (by decide) false b a dst s
    | orr => exact exec_logicalReg sf (by decide) false b a dst s
    | eor => exact exec_logicalReg sf (by decide) false b a dst s

theorem emits_mov (src : RegNo) :
    Emits e (e.orrShiftedReg sf 1 dst 31 src) fun s => s.write dst (s.read sf src) :=
  Emits.word (decode_orrShiftedReg sf dst 31 src 1) fun s => by
    refine (exec_logicalReg sf (by decide) false src 31 dst s).trans ?_
    have hzero : s.read sf 31 = 0 := by
      unfold A64State.read
      rw [A64State.x_zero]
      exact BitVec.setWidth_zero ..
    rw [hzero]
    exact congrArg (fun v => some (s.write dst v)) (BitVec.zero_or)

theorem emits_movXX (src : RegNo) : Emits e (e.movXX dst src) fun s => s.write dst (s.x src) :=
  (emits_mov e true dst src).congr fun s => congrArg (s.write dst) (s.read_x src)

theorem emits_movWW (src : RegNo) : Emits e (e.movWW dst src) fun s => s.write dst (s.w src) :=
  emits_mov e false dst src

theorem emits_mulW : Emits e (e.mulW dst a b) fun s => s.write dst (s.w a * s.w b) :=
  (Emits.word (decode_mulW dst a b) fun _ => rfl).congr fun s => by
    have hzero : s.read false 31 = 0 := by
      unfold A64State.read
      rw [A64State.x_zero]
      exact BitVec.setWidth_zero ..
    rw [hzero]
    exact congrArg (s.write dst) (BitVec.zero_add _)

theorem emits_revW : Emits e (e.revW dst) fun s => s.write dst (swapBytes (s.w dst)) :=
  Emits.word (decode_revW dst dst) fun _ => rfl

end

/-! ## Immediates -/

namespace A64State

variable (s : A64State) {r : RegNo} {sf : Bool}

theorem readSp_of_ne (h : r ≠ 31) : s.readSp sf r = s.read sf r := by
  unfold readSp read
  rw [s.x_of_ne h]

theorem writeSp_of_ne {k : Nat} (h : r ≠ 31) (v : BitVec k) : s.writeSp r v = s.write r v := by
  unfold writeSp write
  rw [s.setX_of_ne h]

end A64State

theorem lsbOnesFrom_spec (v : U32) (fuel n : Nat) :
    n ≤ lsbOnesFrom v fuel n ∧ ∀ i, n ≤ i → i < lsbOnesFrom v fuel n → v.getLsbD i = true := by
  induction fuel generalizing n with
  | zero => exact ⟨le_rfl, fun i hi hi' => absurd hi' (by rw [lsbOnesFrom]; omega)⟩
  | succ fuel ih =>
    rw [lsbOnesFrom]
    split_ifs with h
    · obtain ⟨hle, hones⟩ := ih (n + 1)
      refine ⟨by omega, fun i hi hi' => ?_⟩
      rcases Nat.eq_or_lt_of_le hi with rfl | hlt
      · by_contra hbit
        refine h.2 ?_
        rw [← BitVec.twoPow_eq, BitVec.and_twoPow, if_neg hbit]
        rfl
      · exact hones i hlt hi'
    · exact ⟨le_rfl, fun i hi hi' => by omega⟩

theorem contiguousLsbOnes_eq {v : U32} {n : Nat} (h : contiguousLsbOnes v = some n) :
    1 ≤ n ∧ n ≤ 31 ∧ v = BitVec.ofNat 32 (2 ^ n - 1) := by
  unfold contiguousLsbOnes at h
  dsimp only at h
  split_ifs at h with hends hrest
  obtain rfl := Option.some.inj h
  obtain ⟨-, hones⟩ := lsbOnesFrom_spec v 32 0
  generalize lsbOnesFrom v 32 0 = n at hrest hones ⊢
  obtain ⟨hlt, hshift⟩ := not_or.mp hrest
  have hzero : v >>> n = 0 := not_not.mp hshift
  refine ⟨?_, by omega, ?_⟩
  · rcases Nat.eq_zero_or_pos n with rfl | hpos
    · exact absurd (.inl (by rwa [BitVec.ushiftRight_zero] at hzero)) hends
    · exact hpos
  · apply BitVec.eq_of_getLsbD_eq
    intro i hi
    rw [BitVec.getLsbD_ofNat, Nat.testBit_two_pow_sub_one]
    by_cases hin : i < n
    · simp [hones i (Nat.zero_le i) hin, hin, hi]
    · have hbit := congrArg (BitVec.getLsbD · (i - n)) hzero
      simp only [BitVec.getLsbD_ushiftRight, show n + (i - n) = i by omega] at hbit
      simp [hbit, hin]

theorem bitMask_ones : ∀ m : BitVec 6, m.toNat ≤ 30 →
    (bitMask false 0 m).map (·.setWidth 32) = some (BitVec.ofNat 32 (2 ^ (m.toNat + 1) - 1)) := by
  decide

section

variable (e : A64Emit) {dst src : RegNo}

theorem exec_logicalImm {sf n : Bool} {opc : BitVec 2} {immr imms : BitVec 6} {rn rd : RegNo}
    {mask : U64} (hlegal : ¬ (n = true ∧ sf = false)) (hmask : bitMask n immr imms = some mask)
    (s : A64State) :
    (A64Instr.logicalImm sf opc n immr imms rn rd).exec s =
      let r := logicBy opc (s.read sf rn) (mask.setWidth (sizeOf sf))
      some (if opc = 3 then (s.logicFlags r).write rd r else s.writeSp rd r) := by
  simp only [A64Instr.exec, if_neg hlegal, hmask, Option.map_some]

theorem emits_logicalImm {n : Nat} (hpos : 1 ≤ n) (hle : n ≤ 31) (hdst : dst ≠ 31) :
    Emits e (e.logicalImm false 0 dst n) fun s =>
      s.write dst (s.w dst &&& BitVec.ofNat 32 (2 ^ n - 1)) := by
  have hfield : (BitVec.ofNat 6 (n - 1)).toNat = n - 1 := by
    rw [BitVec.toNat_ofNat]
    omega
  have himms : BitVec.ofNat 32 n - 1 = inWord (BitVec.ofNat 6 (n - 1)) := by
    apply BitVec.eq_of_toNat_eq
    rw [inWord, BitVec.toNat_setWidth, hfield, BitVec.toNat_sub, BitVec.toNat_ofNat]
    change (2 ^ 32 - 1 + n % 2 ^ 32) % 2 ^ 32 = _
    omega
  have hmask := bitMask_ones (BitVec.ofNat 6 (n - 1)) (by omega)
  rw [hfield, Nat.sub_add_cancel hpos] at hmask
  obtain ⟨mask, hmask, hlow⟩ := Option.map_eq_some_iff.mp hmask
  unfold A64Emit.logicalImm
  rw [himms]
  refine Emits.word (decode_logicalImm false dst dst 0 _) fun s => ?_
  rw [exec_logicalImm (by decide) hmask]
  change some (s.writeSp dst (s.w dst &&& mask.setWidth 32)) = _
  rw [hlow, s.writeSp_of_ne hdst]

theorem emits_mvn :
    Emits e (e.put32 (0#32 <<< 31 ||| 1#32 <<< 29 ||| 0x0A#32 <<< 24 ||| 1#32 <<< 21 |||
      inWord dst <<< 16 ||| 31#32 <<< 5 ||| inWord dst)) fun s =>
        s.write dst (s.w dst ^^^ 0xFFFFFFFF) :=
  Emits.word (decode_mvn dst dst) fun s => by
    refine (exec_logicalReg false (by decide) true dst 31 dst s).trans ?_
    have hzero : s.read false 31 = 0 := by
      unfold A64State.read
      rw [A64State.x_zero]
      exact BitVec.setWidth_zero ..
    have hnot : ~~~(s.w dst) = s.w dst ^^^ 0xFFFFFFFF := by
      rw [show (0xFFFFFFFF : U32) = BitVec.allOnes 32 from rfl, BitVec.xor_allOnes]
    rw [hzero]
    exact congrArg (fun v => some (s.write dst v)) (BitVec.zero_or.trans hnot)

/-- The immediates of an addition or subtraction, shifted or not. -/
theorem emits_addSubImm_w (isSub : Bool) (dst src : RegNo) {imm : U32}
    (h : imm ≤ 0xFFF ∨ imm &&& 0xFFF = 0 ∧ imm >>> 12 ≤ 0xFFF) :
    Emits e (if imm ≤ 0xFFF then e.addSubImm false isSub dst src imm false
      else e.addSubImm false isSub dst src (imm >>> 12) true) fun s =>
        s.writeSp dst (if isSub then (s.gpr src).setWidth 32 - imm
          else (s.gpr src).setWidth 32 + imm) := by
  have hstep : ∀ (s : A64State) (q : U32), q = imm →
      s.addSub isSub false (s.readSp false src) q (fun t r => t.writeSp dst r) =
        s.writeSp dst (if isSub then (s.gpr src).setWidth 32 - imm
          else (s.gpr src).setWidth 32 + imm) := by
    rintro s q rfl
    cases isSub with
    | false => exact s.addSub_add _ _ _
    | true => exact s.addSub_sub _ _ _
  -- what was widened to 64 bits, cut to 32
  have hcut : ∀ v : U64, v = imm.setWidth 64 → v.setWidth 32 = imm := by
    rintro v rfl
    rw [BitVec.setWidth_setWidth_of_le _ (by decide), BitVec.setWidth_eq]
  by_cases hsmall : imm ≤ 0xFFF
  · rw [if_pos hsmall]
    refine (emits_addSubImm e false isSub dst src imm false).congr fun s => hstep s _ ?_
    have := hcut _ (widened hsmall)
    rw [BitVec.setWidth_setWidth_of_le _ (by decide)] at this
    exact (BitVec.shiftLeft_zero _).trans this
  · have hround := h.resolve_left hsmall
    rw [if_neg hsmall]
    refine (emits_addSubImm e false isSub dst src (imm >>> 12) true).congr fun s => hstep s _ ?_
    have := hcut _ (widened_shifted hround.1 hround.2)
    rw [BitVec.setWidth_shiftLeft_of_le (by decide),
      BitVec.setWidth_setWidth_of_le _ (by decide)] at this
    exact this

theorem emits_addSubWImm {isSub : Bool} {imm : U32} {e' : A64Emit}
    (h : e.addSubWImm isSub dst src imm = some e') :
    Emits e e' fun s =>
      s.writeSp dst (if isSub then (s.gpr src).setWidth 32 - imm
        else (s.gpr src).setWidth 32 + imm) := by
  have heach : ∀ (isSub : Bool) (imm : U32),
      (if imm ≤ 0xFFF then some (e.addSubImm false isSub dst src imm false)
        else if imm &&& 0xFFF = 0 ∧ imm >>> 12 ≤ 0xFFF then
          some (e.addSubImm false isSub dst src (imm >>> 12) true) else none) = some e' →
      Emits e e' fun s =>
        s.writeSp dst (if isSub then (s.gpr src).setWidth 32 - imm
          else (s.gpr src).setWidth 32 + imm) := by
    intro isSub imm h
    split_ifs at h with hsmall hround
    · have := emits_addSubImm_w e isSub dst src (.inl hsmall)
      rw [if_pos hsmall, Option.some.inj h] at this
      exact this
    · have := emits_addSubImm_w e isSub dst src (.inr hround)
      rw [if_neg hsmall, Option.some.inj h] at this
      exact this
  unfold A64Emit.addSubWImm at h
  dsimp only at h
  by_cases hswap : 0xFFF < imm ∧ 0 - imm ≤ 0xFFF
  · rw [if_pos hswap, if_pos hswap] at h
    refine (heach _ _ h).congr fun s => congrArg (s.writeSp dst) ?_
    have hneg : ∀ v : U32, v - (0 - imm) = v + imm ∧ v + (0 - imm) = v - imm := fun v => by
      constructor <;> bv_omega
    cases isSub with
    | false => exact (hneg _).1
    | true => exact (hneg _).2
  · rw [if_neg hswap, if_neg hswap] at h
    exact heach _ _ h

theorem emits_aluWConst (op : A64Alu) (imm : U32) (hdst : dst ≠ 9) :
    Emits e (e.aluWConst op dst imm) fun s =>
      (s.setX 9 (imm.setWidth 64)).write dst (op.eval (s.w dst) imm) := by
  refine ((emits_movWImm32 e 9 imm).trans (emits_alu _ false dst dst 9 op)).congr fun s => ?_
  have hdst' : (s.setX 9 (imm.setWidth 64)).w dst = s.w dst :=
    congrArg (BitVec.setWidth 32) (s.setX_x_of_ne hdst)
  have h9 : (s.setX 9 (imm.setWidth 64)).w 9 = imm := by
    unfold A64State.w
    rw [s.setX_x_self (by decide), BitVec.setWidth_setWidth_of_le _ (by decide), BitVec.setWidth_eq]
  change (s.setX 9 (imm.setWidth 64)).write dst (op.eval ((s.setX 9 (imm.setWidth 64)).w dst)
    ((s.setX 9 (imm.setWidth 64)).w 9)) = _
  rw [hdst', h9]

end

end X86Port.Arm64
