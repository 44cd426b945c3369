import X86Port.Arm64.Emit
import X86Port.Lib.Placed

/-!
# The words of the AArch64 encoder

Each word of `emit_arm64.c` is the instruction it is asked for.
-/

namespace X86Port.Arm64

open Lib

theorem and_ones_eq {k : Nat} (v : U32) (hk : k ≤ 32) :
    v &&& BitVec.ofNat 32 (2 ^ k - 1) = inWord (v.setWidth k : BitVec k) := by
  have hpow : 2 ^ k ≤ 2 ^ 32 := Nat.pow_le_pow_right (by decide) hk
  have hpos := Nat.two_pow_pos k
  have hlt : v.toNat % 2 ^ k < 2 ^ k := Nat.mod_lt _ hpos
  apply BitVec.eq_of_toNat_eq
  rw [inWord, BitVec.toNat_and, BitVec.toNat_ofNat, Nat.mod_eq_of_lt (by omega),
    Nat.and_two_pow_sub_one_eq_mod, BitVec.toNat_setWidth, BitVec.toNat_setWidth,
    Nat.mod_eq_of_lt (by omega : v.toNat % 2 ^ k < 2 ^ 32)]

theorem inWord_setWidth {k : Nat} {v : U32} (h : v.toNat < 2 ^ k) :
    inWord (v.setWidth k : BitVec k) = v := by
  apply BitVec.eq_of_toNat_eq
  rw [inWord, BitVec.toNat_setWidth, BitVec.toNat_setWidth, Nat.mod_eq_of_lt h,
    Nat.mod_eq_of_lt v.isLt]

section

variable (sf : Bool) (rd rn rm : RegNo)

/-- The instruction of `alu_shifted_reg`. -/
def A64Alu.instr (op : A64Alu) (sf : Bool) (rm rn rd : RegNo) : A64Instr :=
  match op with
  | .add => .addSubReg sf false false 0 rm 0 rn rd
  | .sub => .addSubReg sf true false 0 rm 0 rn rd
  | .and => .logicalReg sf 0 0 false rm 0 rn rd
  | .orr => .logicalReg sf 1 0 false rm 0 rn rd
  | .eor => .logicalReg sf 2 0 false rm 0 rn rd

/-- The fixed bits of a load or store with an unsigned immediate. -/
def loadStoreBase (size : BitVec 2) (simd : Bool) (opc : BitVec 2) : U32 :=
  inWord size <<< 30 ||| 7#32 <<< 27 ||| flagWord simd <<< 26 ||| 1#32 <<< 24 ||| inWord opc <<< 22

/-- The fixed bits of a load or store of a pair. -/
def pairBase (opc mode : BitVec 2) (l : Bool) : U32 :=
  inWord opc <<< 30 ||| 5#32 <<< 27 ||| inWord mode <<< 23 ||| flagWord l <<< 22

theorem decode_moveWide (opc hw : BitVec 2) (imm16 : U16) :
    decode (flagWord sf <<< 31 ||| inWord opc <<< 29 ||| 0x25#32 <<< 23 ||| inWord hw <<< 21 |||
      inWord imm16 <<< 5 ||| inWord rd) =
      some (.moveWide sf opc hw imm16 rd) := by
  simp (disch := omega) [decode, decodeImmediate, inWord, flagWord, BitVec.extractLsb'_or]

theorem decode_orrShiftedReg (opc : BitVec 2) :
    decode (flagWord sf <<< 31 ||| inWord opc <<< 29 ||| 0x0A#32 <<< 24 ||| inWord rm <<< 16 |||
      inWord rn <<< 5 ||| inWord rd) =
      some (.logicalReg sf opc 0 false rm 0 rn rd) := by
  simp (disch := omega) [decode, decodeRegister, inWord, flagWord, BitVec.extractLsb'_or]

theorem decode_addSubImm (isSub shift12 : Bool) (imm12 : BitVec 12) :
    decode (flagWord sf <<< 31 ||| flagWord isSub <<< 30 ||| 0x22#32 <<< 23 ||| flagWord shift12
      <<< 22 ||| inWord imm12 <<< 10 ||| inWord rn <<< 5 ||| inWord rd) =
      some (.addSubImm sf isSub false shift12 imm12 rn rd) := by
  simp (disch := omega) [decode, decodeImmediate, inWord, flagWord, BitVec.extractLsb'_or]

theorem decode_addReg :
    decode (1#32 <<< 31 ||| 0x0B#32 <<< 24 ||| inWord rm <<< 16 ||| inWord rn <<< 5 ||| inWord
      rd) =
      some (.addSubReg true false false 0 rm 0 rn rd) := by
  simp (disch := omega) [decode, decodeRegister, inWord, BitVec.extractLsb'_or]

theorem decode_loadStore (size opc : BitVec 2) (simd : Bool) (imm12 : BitVec 12) :
    decode (loadStoreBase size simd opc ||| inWord imm12 <<< 10 ||| inWord rn <<< 5 ||| inWord
      rd) =
      some (.loadStore size simd opc imm12 rn rd) := by
  simp (disch := omega) [decode, decodeMemory, loadStoreBase, inWord, flagWord,
    BitVec.extractLsb'_or]

theorem decode_pair (opc mode : BitVec 2) (l : Bool) (imm7 : BitVec 7) :
    decode (pairBase opc mode l ||| inWord imm7 <<< 15 ||| inWord rm <<< 10 ||| inWord rn <<< 5
      ||| inWord rd) =
      some (.pair opc mode l imm7 rm rn rd) := by
  simp (disch := omega) [decode, decodeMemory, pairBase, inWord, flagWord, BitVec.extractLsb'_or]

theorem decode_mulW :
    decode (0x1B000000#32 ||| inWord rm <<< 16 ||| 31#32 <<< 10 ||| inWord rn <<< 5 ||| inWord
      rd) =
      some (.mulAdd false rm 31 rn rd) := by
  simp (disch := omega) [decode, decodeRegister, inWord, BitVec.extractLsb'_or]

theorem decode_logicalImm (opc : BitVec 2) (imms : BitVec 6) :
    decode (flagWord sf <<< 31 ||| inWord opc <<< 29 ||| 0x24#32 <<< 23 ||| 0#32 <<< 22 ||| 0#32
      <<< 16 ||| inWord imms <<< 10 ||| inWord rn <<< 5 ||| inWord rd) =
      some (.logicalImm sf opc false 0 imms rn rd) := by
  simp (disch := omega) [decode, decodeImmediate, inWord, flagWord, BitVec.extractLsb'_or]

theorem decode_mvn :
    decode (0#32 <<< 31 ||| 1#32 <<< 29 ||| 0x0A#32 <<< 24 ||| 1#32 <<< 21 ||| inWord rm <<< 16
      ||| 31#32 <<< 5 ||| inWord rd) =
      some (.logicalReg false 1 0 true rm 0 31 rd) := by
  simp (disch := omega) [decode, decodeRegister, inWord, BitVec.extractLsb'_or]

theorem decode_bitfield (opc : BitVec 2) (immr imms : BitVec 6) :
    decode (0#32 <<< 31 ||| inWord opc <<< 29 ||| 0x26#32 <<< 23 ||| 0#32 <<< 22 ||| inWord immr
      <<< 16 ||| inWord imms <<< 10 ||| inWord rn <<< 5 ||| inWord rd) =
      some (.bitfield false opc false immr imms rn rd) := by
  simp (disch := omega) [decode, decodeImmediate, inWord, BitVec.extractLsb'_or]

theorem decode_revW :
    decode (0x5AC00800#32 ||| inWord rn <<< 5 ||| inWord rd) =
      some (.rev32 rn rd) := by
  simp (disch := omega) [decode, decodeRegister, inWord, BitVec.extractLsb'_or]

theorem decode_addUxtw :
    decode (0x8B204000#32 ||| inWord rm <<< 16 ||| inWord rn <<< 5 ||| inWord rd) =
      some (.addSubExt true false false rm 2 0 rn rd) := by
  simp (disch := omega) [decode, decodeRegister, inWord, BitVec.extractLsb'_or]

theorem decode_shiftVar (op2 : BitVec 2) :
    decode (0x1AC02000#32 ||| inWord rm <<< 16 ||| inWord op2 <<< 10 ||| inWord rn <<< 5 |||
      inWord rd) =
      some (.shiftVar false rm op2 rn rd) := by
  simp (disch := omega) [decode, decodeRegister, inWord, BitVec.extractLsb'_or]

theorem decode_lsrXImm (immr : BitVec 6) :
    decode (1#32 <<< 31 ||| 2#32 <<< 29 ||| 0x26#32 <<< 23 ||| 1#32 <<< 22 ||| inWord immr <<< 16
      ||| 0x3F#32 <<< 10 ||| inWord rn <<< 5 ||| inWord rd) =
      some (.bitfield true 2 true immr 63 rn rd) := by
  simp (disch := omega) [decode, decodeImmediate, inWord, BitVec.extractLsb'_or]

theorem decode_compareReg (op : Bool) :
    decode (flagWord sf <<< 31 ||| flagWord op <<< 30 ||| 1#32 <<< 29 ||| 0x0B#32 <<< 24 |||
      inWord rm <<< 16 ||| inWord rn <<< 5 ||| 31) =
      some (.addSubReg sf op true 0 rm 0 rn 31) := by
  simp (disch := omega) [decode, decodeRegister, inWord, flagWord, BitVec.extractLsb'_or]

theorem decode_cmpWImm (imm12 : BitVec 12) :
    decode (0#32 <<< 31 ||| 1#32 <<< 30 ||| 1#32 <<< 29 ||| 0x22#32 <<< 23 ||| 0#32 <<< 22 |||
      inWord imm12 <<< 10 ||| inWord rn <<< 5 ||| 31) =
      some (.addSubImm false true true false imm12 rn 31) := by
  simp (disch := omega) [decode, decodeImmediate, inWord, BitVec.extractLsb'_or]

theorem decode_subsXImm (imm12 : BitVec 12) :
    decode (1#32 <<< 31 ||| 1#32 <<< 30 ||| 1#32 <<< 29 ||| 0x22#32 <<< 23 ||| inWord imm12 <<< 10
      ||| inWord rn <<< 5 ||| inWord rd) =
      some (.addSubImm true true true false imm12 rn rd) := by
  simp (disch := omega) [decode, decodeImmediate, inWord, BitVec.extractLsb'_or]

theorem decode_tstWW :
    decode (0#32 <<< 31 ||| 3#32 <<< 29 ||| 0x0A#32 <<< 24 ||| inWord rm <<< 16 ||| inWord rn <<<
      5 ||| 31) =
      some (.logicalReg false 3 0 false rm 0 rn 31) := by
  simp (disch := omega) [decode, decodeRegister, inWord, BitVec.extractLsb'_or]

theorem decode_cselW (cc : BitVec 4) :
    decode (0x1A800000#32 ||| inWord rm <<< 16 ||| inWord cc <<< 12 ||| 0#32 <<< 10 ||| inWord rn
      <<< 5 ||| inWord rd) =
      some (.condSelect false false rm cc false rn rd) := by
  simp (disch := omega) [decode, decodeRegister, inWord, BitVec.extractLsb'_or]

theorem decode_csetW (cc : BitVec 4) :
    decode (0x1A800000#32 ||| 31#32 <<< 16 ||| inWord cc <<< 12 ||| 1#32 <<< 10 ||| 31#32 <<< 5
      ||| inWord rd) =
      some (.condSelect false false 31 cc true 31 rd) := by
  simp (disch := omega) [decode, decodeRegister, inWord, BitVec.extractLsb'_or]

theorem decode_orrVec :
    decode (0x4EA01C00#32 ||| inWord rm <<< 16 ||| inWord rn <<< 5 ||| inWord rd) =
      some (.orrVec rm rn rd) := by
  simp (disch := omega) [decode, inWord, BitVec.extractLsb'_or]

theorem decode_ubfmW (immr imms : BitVec 6) :
    decode (0x53000000#32 ||| inWord immr <<< 16 ||| inWord imms <<< 10 ||| inWord rn <<< 5 |||
      inWord rd) =
      some (.bitfield false 2 false immr imms rn rd) := by
  simp (disch := omega) [decode, decodeImmediate, inWord, BitVec.extractLsb'_or]

theorem decode_ubfmX (immr imms : BitVec 6) :
    decode (0xD3400000#32 ||| inWord immr <<< 16 ||| inWord imms <<< 10 ||| inWord rn <<< 5 |||
      inWord rd) =
      some (.bitfield true 2 true immr imms rn rd) := by
  simp (disch := omega) [decode, decodeImmediate, inWord, BitVec.extractLsb'_or]

theorem decode_addLsl (imm6 : BitVec 6) :
    decode (flagWord sf <<< 31 ||| 0x0B000000#32 ||| inWord rm <<< 16 ||| inWord imm6 <<< 10 |||
      inWord rn <<< 5 ||| inWord rd) =
      some (.addSubReg sf false false 0 rm imm6 rn rd) := by
  simp (disch := omega) [decode, decodeRegister, inWord, flagWord, BitVec.extractLsb'_or]

theorem decode_orrLsl (imm6 : BitVec 6) :
    decode (flagWord sf <<< 31 ||| 0x2A000000#32 ||| inWord rm <<< 16 ||| inWord imm6 <<< 10 |||
      inWord rn <<< 5 ||| inWord rd) =
      some (.logicalReg sf 1 0 false rm imm6 rn rd) := by
  simp (disch := omega) [decode, decodeRegister, inWord, flagWord, BitVec.extractLsb'_or]

theorem decode_eorLsr (imm6 : BitVec 6) :
    decode (0x4A400000#32 ||| inWord rm <<< 16 ||| inWord imm6 <<< 10 ||| inWord rn <<< 5 |||
      inWord rd) =
      some (.logicalReg false 2 1 false rm imm6 rn rd) := by
  simp (disch := omega) [decode, decodeRegister, inWord, BitVec.extractLsb'_or]

theorem decode_tstWBit0 :
    decode (0x7200001F#32 ||| inWord rn <<< 5) =
      some (.logicalImm false 3 false 0 0 rn 31) := by
  simp (disch := omega) [decode, decodeImmediate, inWord, BitVec.extractLsb'_or]

theorem decode_orrXBit (immr : BitVec 6) :
    decode (0xB2400000#32 ||| inWord immr <<< 16 ||| inWord rn <<< 5 ||| inWord rd) =
      some (.logicalImm true 1 true immr 0 rn rd) := by
  simp (disch := omega) [decode, decodeImmediate, inWord, BitVec.extractLsb'_or]

theorem decode_branch (link : Bool) (imm26 : BitVec 26) :
    decode (flagWord link <<< 31 ||| 0x14000000#32 ||| inWord imm26) =
      some (.branch link imm26) := by
  simp (disch := omega) [decode, decodeBranch, inWord, flagWord, BitVec.extractLsb'_or]

theorem decode_branchCond (imm19 : BitVec 19) (cc : BitVec 4) :
    decode (0x54000000#32 ||| inWord imm19 <<< 5 ||| inWord cc) =
      some (.branchCond imm19 cc) := by
  simp (disch := omega) [decode, decodeBranch, inWord, BitVec.extractLsb'_or]

theorem decode_compareBranch (nonzero : Bool) (imm19 : BitVec 19) :
    decode (flagWord sf <<< 31 ||| 0x34000000#32 ||| flagWord nonzero <<< 24 ||| inWord imm19 <<<
      5 ||| inWord rd) =
      some (.compareBranch sf nonzero imm19 rd) := by
  simp (disch := omega) [decode, decodeBranch, inWord, flagWord, BitVec.extractLsb'_or]

theorem decode_testBranch (high : BitVec 1) (low : BitVec 5) (nonzero : Bool) (imm14 : BitVec 14) :
    decode (0x36000000#32 ||| flagWord nonzero <<< 24 ||| inWord high <<< 31 ||| inWord low <<< 19
      ||| inWord imm14 <<< 5 ||| inWord rd) =
      some (.testBranch (high ++ low) nonzero imm14 rd) := by
  simp (disch := omega) [decode, decodeBranch, inWord, flagWord, BitVec.extractLsb'_or]

theorem decode_alu (op : A64Alu) :
    decode (flagWord sf <<< 31 ||| op.head ||| inWord rm <<< 16 ||| inWord rn <<< 5 ||| inWord
      rd) =
      some (op.instr sf rm rn rd) := by
  cases op <;>
    simp (disch := omega) [decode, decodeRegister, A64Alu.head, A64Alu.instr, inWord, flagWord,
      BitVec.extractLsb'_or]

theorem decode_branchReg (opc : BitVec 2) :
    decode (0xD61F0000#32 ||| inWord opc <<< 21 ||| inWord rn <<< 5) =
      some (.branchReg opc rn) := by
  simp (disch := omega) [decode, decodeBranch, inWord, BitVec.extractLsb'_or]

end

end X86Port.Arm64
