import X86Port.Simd.Execute
import X86Port.Wasm.Operands
import X86Port.X64.Address

/-!
# One effective address

The address of a memory operand as the interpreter, the SIMD unit and the code of both backends
form it, beside the number it should be.

* `linearAddress`: that number.
* `effectiveAddress_toNat`, `simdAddress_iff`: the interpreter, and the SIMD unit.
* `oneAddress_iff`: where all of them agree.
-/

namespace X86Port.Jit

open Cpu (Reg Width Operand X86Cpu Ctx GuestMem effectiveAddress regWrite Exec)
open Lib.StackCode (run_localSet)
open Wasm (Addressed WasmState WasmLocal Code wasmEnv)

/-! ## The number -/

/-- `base + index * scale + disp`, each part optional. -/
def displaced (c : X86Cpu) (o : Operand) : Nat :=
  (match o.base with
    | some base => (c.reg base).toNat
    | none => 0) +
  (match o.index with
    | some index =>
      (if o.indexLowByte then (c.reg index).toNat % 2 ^ 8 else (c.reg index).toNat) * o.scale
    | none => 0) + o.disp.toNat

/-- The offset, of the size of the address. -/
def offsetOf (c : X86Cpu) (o : Operand) : Nat :=
  displaced c o % (if o.addr16 then 2 ^ 16 else 2 ^ 32)

def segmentBase (c : X86Cpu) (o : Operand) : Nat :=
  match o.seg with
  | .fs => c.fsBase.toNat
  | .gs => c.gsBase.toNat
  | _ => 0

def linearAddress (c : X86Cpu) (o : Operand) : Nat := (offsetOf c o + segmentBase c o) % 2 ^ 32

/-! ## The interpreter and the SIMD unit -/

section

variable {c : X86Cpu} {o : Operand}

/-- The parts as one word. -/
def wordSum (c : X86Cpu) (o : Operand) : U32 :=
  o.disp +
    (match o.base with
      | some base => c.reg base
      | none => 0) +
    (match o.index with
      | some index =>
        Cpu.regRead c.toCpuState index (if o.indexLowByte then .byte else .dword) *
          BitVec.ofNat 32 o.scale
      | none => 0)

theorem scaledIndex_toNat (h : Addressed o) {index : Reg} (hindex : o.index = some index) :
    (Cpu.regRead c.toCpuState index (if o.indexLowByte then .byte else .dword)).toNat =
      if o.indexLowByte then (c.reg index).toNat % 2 ^ 8 else (c.reg index).toNat := by
  cases hlow : o.indexLowByte with
  | false => rfl
  | true =>
    obtain rfl : index = Cpu.eax := Option.some_inj.mp (hindex.symm.trans (h.lowByte hlow))
    have hbyte : Cpu.regRead c.toCpuState Cpu.eax .byte = c.reg Cpu.eax &&& Cpu.widthMask .byte := rfl
    exact (congrArg BitVec.toNat hbyte).trans (Cpu.toNat_and_widthMask _ .byte)

theorem toNat_wordSum (h : Addressed o) : (wordSum c o).toNat = displaced c o % 2 ^ 32 := by
  have hbase : (match o.base with | some base => c.reg base | none => 0).toNat =
      match o.base with | some base => (c.reg base).toNat | none => 0 := by
    cases o.base <;> rfl
  unfold wordSum displaced
  rw [BitVec.toNat_add, BitVec.toNat_add, hbase]
  cases hindex : o.index with
  | none =>
    have hzero : (0 : U32).toNat = 0 := rfl
    dsimp only
    omega
  | some index =>
    dsimp only
    rw [BitVec.toNat_mul, scaledIndex_toNat h hindex, BitVec.toNat_ofNat, Nat.mul_mod_mod]
    omega

theorem segmentBase_lt (c : X86Cpu) (o : Operand) : segmentBase c o < 2 ^ 32 := by
  unfold segmentBase
  cases o.seg
  case fs => exact c.fsBase.isLt
  case gs => exact c.gsBase.isLt
  all_goals exact Nat.two_pow_pos 32

/-- An offset with the base of its segment. -/
def withBase (c : X86Cpu) (o : Operand) (addr : U32) : U32 :=
  match o.seg with
  | .fs => addr + c.fsBase
  | .gs => addr + c.gsBase
  | _ => addr

theorem toNat_withBase (addr : U32) :
    (withBase c o addr).toNat = (addr.toNat + segmentBase c o) % 2 ^ 32 := by
  unfold withBase segmentBase
  cases o.seg
  case fs => exact BitVec.toNat_add _ _
  case gs => exact BitVec.toNat_add _ _
  all_goals exact (Nat.mod_eq_of_lt addr.isLt).symm

theorem effectiveAddress_withBase (c : X86Cpu) (o : Operand) :
    effectiveAddress c o =
      withBase c o (if o.addr16 then wordSum c o &&& 0xFFFF else wordSum c o) := rfl

/-- The interpreter, for integer and x87 operands. -/
theorem effectiveAddress_toNat (c : X86Cpu) (h : Addressed o) :
    (effectiveAddress c o).toNat = linearAddress c o := by
  have hoffset : (if o.addr16 then wordSum c o &&& 0xFFFF else wordSum c o).toNat =
      offsetOf c o := by
    unfold offsetOf
    split_ifs
    · refine (Cpu.toNat_and_widthMask _ .word).trans ?_
      rw [toNat_wordSum h, show Width.word.bits = 16 from rfl]
      omega
    · exact toNat_wordSum h
  rw [effectiveAddress_withBase, toNat_withBase, hoffset, linearAddress]

theorem simdAddress_withBase (hlow : o.indexLowByte = false) :
    Simd.addressOf c o = withBase c o (wordSum c o) := by
  unfold Simd.addressOf withBase wordSum
  rw [hlow]
  cases o.base <;> cases o.index <;> cases o.seg <;> simp [Cpu.regRead]

/-- The SIMD unit sums at 32 bits whatever the size of the address. -/
theorem simdAddress_iff (h : Addressed o) (hlow : o.indexLowByte = false) :
    (Simd.addressOf c o).toNat = linearAddress c o ↔
      (o.addr16 = true → displaced c o % 2 ^ 32 < 2 ^ 16) := by
  have hbase := segmentBase_lt c o
  rw [simdAddress_withBase hlow, toNat_withBase, toNat_wordSum h, linearAddress, offsetOf]
  cases o.addr16 with
  | false => simp
  | true =>
    simp only [if_true, forall_const]
    omega

/-! ## Emitted code -/

theorem offsetOf_wide (h16 : o.addr16 = false) : offsetOf c o = displaced c o % 2 ^ 32 := by
  rw [offsetOf, h16]
  rfl

theorem wasmParts_eq (h : Addressed o) : Wasm.partsOf c o = wordSum c o := Wasm.partsOf_eq h

theorem scaleShift_eq (scale : Nat) : X64.scaleShift scale = (WasmState.indexShift scale).toNat := by
  unfold X64.scaleShift WasmState.indexShift
  split
  · rfl
  · rfl
  · rfl
  · rename_i h2 h4 h8
    rw [if_neg h8, if_neg h4, if_neg h2]
    rfl

theorem x64Parts_eq (h : Addressed o) : X64.partsOf c o = wordSum c o := by
  rw [← wasmParts_eq h]
  unfold X64.partsOf Wasm.partsOf X64.indexOf Wasm.indexOf
  rewrite [scaleShift_eq]
  cases o.base <;> cases o.index <;> rfl

theorem wordSum_eq_ofNat (h : Addressed o) (h16 : o.addr16 = false) :
    wordSum c o = BitVec.ofNat 32 (offsetOf c o) := by
  refine BitVec.eq_of_toNat_eq ?_
  rw [BitVec.toNat_ofNat, offsetOf_wide h16, toNat_wordSum h, Nat.mod_mod]

theorem withBase_eq_ofNat (h : Addressed o) (h16 : o.addr16 = false) :
    withBase c o (wordSum c o) = BitVec.ofNat 32 (linearAddress c o) := by
  refine BitVec.eq_of_toNat_eq ?_
  rw [toNat_withBase, wordSum_eq_ofNat h h16, BitVec.toNat_ofNat, BitVec.toNat_ofNat, linearAddress]
  omega

theorem wasmAddress_eq (h : Addressed o) : Wasm.addressOf c o = withBase c o (wordSum c o) := by
  unfold Wasm.addressOf withBase
  rewrite [wasmParts_eq h]
  cases o.seg <;> rfl

theorem x64Address_eq (h : Addressed o) :
    X64.partsOf c o + X64.segBase c o = withBase c o (wordSum c o) := by
  unfold X64.segBase withBase
  rw [x64Parts_eq h]
  cases o.seg
  case fs => rfl
  case gs => rfl
  all_goals exact add_zero (wordSum c o)

end

/-! ## LEA -/

/-- What both backends admit as an LEA. -/
def leaAccepts (i : Cpu.Insn) : Prop :=
  i.operands = 2 ∧ i.operand0.kind = .reg ∧ i.operand0.size = 4 ∧ i.operand1.kind = .mem ∧
    i.operand1.addr16 = false

/-- `x86p_wasm_lea_lower`: the parts, with no segment base and no bounds check. -/
def leaLower (i : Cpu.Insn) : Code :=
  WasmState.addressParts i.operand1 ++ [.localSet .r] ++
    WasmState.storeReg i.operand0.reg .dword .r

/-- The guest CPU with an offset in the destination of an LEA. -/
def leaWritten (c : X86Cpu) (i : Cpu.Insn) (v : U32) : X86Cpu :=
  { c with toCpuState := regWrite c.toCpuState i.operand0.reg (Wasm.widthOf i.operand0) v }

section

variable {c : X86Cpu} {i : Cpu.Insn}

theorem execute_lea {μ : Type} (g : GuestMem μ) (other : Cpu.OtherOp → Cpu.Insn → Exec μ Unit)
    {s : Ctx μ} (hs : s.cpu = c) (hop : i.op = .lea) (hmem : i.operand1.kind = .mem)
    (hreg : i.operand0.kind = .reg) {w : Width} (hw : Width.ofBytes i.operand0.size = some w) :
    Exec.execute g other i s =
      .ok () (s.withRegs (leaWritten c i (effectiveAddress c i.operand1)).toCpuState) := by
  have hwidth : Wasm.widthOf i.operand0 = w := by
    rw [Wasm.widthOf, hw]
    rfl
  unfold Exec.execute
  rw [hop]
  dsimp only
  rw [if_pos hmem, Exec.ask_bind, Exec.writeOperand_reg g hreg hw, hs, leaWritten, hwidth]

/-- A register write at a width sees the value at that width. -/
theorem regWrite_eq_iff (c : Cpu.CpuState) (r : Reg) (w : Width) (v v' : U32) :
    regWrite c r w v = regWrite c r w v' ↔ v.toNat % 2 ^ w.bits = v'.toNat % 2 ^ w.bits := by
  rw [← Cpu.toNat_and_widthMask, ← Cpu.toNat_and_widthMask, BitVec.toNat_inj]
  constructor
  · intro h
    rw [← Cpu.regRead_regWrite c r w v, h, Cpu.regRead_regWrite]
  · intro h
    rw [← Cpu.regWrite_and_widthMask, h, Cpu.regWrite_and_widthMask]

theorem run_leaLower {s : WasmState} (W : Wasm.World s) (imports : Wasm.Imports) (h : Addressed i.operand1)
    (haccepts : leaAccepts i) (bytes : Nat → U8) {l : WasmLocal → U32} (hl : l .cpu = W.home.addr)
    (st : List U32) (rest : Code) :
    Lib.StackCode.run (wasmEnv imports) (leaLower i ++ rest) ⟨W.mem c bytes, l, st⟩ =
      Lib.StackCode.run (wasmEnv imports) rest
        ⟨W.mem (leaWritten c i (BitVec.ofNat 32 (offsetOf c i.operand1))) bytes,
          Function.update l .r (BitVec.ofNat 32 (offsetOf c i.operand1)), st⟩ := by
  obtain ⟨-, -, hsize, -, h16⟩ := haccepts
  have hwidth : Wasm.widthOf i.operand0 = .dword := by
    rw [Wasm.widthOf, hsize]
    rfl
  have hparts : Wasm.partsOf c i.operand1 = BitVec.ofNat 32 (offsetOf c i.operand1) :=
    (wasmParts_eq h).trans (wordSum_eq_ofNat h h16)
  unfold leaLower
  rw [List.append_assoc, List.append_assoc, List.singleton_append]
  refine (Wasm.run_addressParts hl i.operand1).trans ?_
  rw [run_localSet, hparts]
  refine (W.run_storeReg (Function.update_of_ne (by decide) _ _ |>.trans hl) _ _ _).trans ?_
  rw [Function.update_self, leaWritten, hwidth]

end

/-! ## Agreement -/

/-- Every part of the engine forms one address for an operand of an instruction. -/
structure OneAddress (c : X86Cpu) (i : Cpu.Insn) (o : Operand) : Prop where
  exec : (effectiveAddress c o).toNat = linearAddress c o
  simd : i.op = .other .simd → (Simd.addressOf c o).toNat = linearAddress c o
  wasm : o.addr16 = false → ∀ (s : WasmState) (W : Wasm.World s) (imports : Wasm.Imports)
    (bytes : Nat → U8) (l : WasmLocal → U32) (st : List U32) (rest : Code),
    l .cpu = W.home.addr →
      Lib.StackCode.run (wasmEnv imports) (s.address o ++ rest) ⟨W.mem c bytes, l, st⟩ =
        Lib.StackCode.run (wasmEnv imports) rest
          ⟨W.mem c bytes, l, BitVec.ofNat 32 (linearAddress c o) :: st⟩
  x64 : o.addr16 = false → ∀ (H : X64.CpuHome) (rest : Wasm.LinearMem) (k : X64.BlockCtx)
    (s : X64.HostState), X64.Coherent H c rest k s →
      ∃ s', X64.run (X64.emitEffectiveAddress H.lay k o).2 s = some s' ∧
        s'.low X64.eaReg = BitVec.ofNat 32 (linearAddress c o)
  leaExec : i.op = .lea → ∀ (μ : Type) (g : GuestMem μ)
    (other : Cpu.OtherOp → Cpu.Insn → Exec μ Unit) (s : Ctx μ), s.cpu = c →
      Exec.execute g other i s =
        .ok () (s.withRegs (leaWritten c i (BitVec.ofNat 32 (offsetOf c o))).toCpuState)
  leaWasm : i.op = .lea → leaAccepts i → ∀ (s : WasmState) (W : Wasm.World s) (imports : Wasm.Imports)
    (bytes : Nat → U8) (l : WasmLocal → U32) (st : List U32) (rest : Code),
    l .cpu = W.home.addr →
      Lib.StackCode.run (wasmEnv imports) (leaLower i ++ rest) ⟨W.mem c bytes, l, st⟩ =
        Lib.StackCode.run (wasmEnv imports) rest
          ⟨W.mem (leaWritten c i (BitVec.ofNat 32 (offsetOf c o))) bytes,
            Function.update l .r (BitVec.ofNat 32 (offsetOf c o)), st⟩
  leaX64 : i.op = .lea → leaAccepts i → ∀ (H : X64.CpuHome) (rest : Wasm.LinearMem)
    (k : X64.BlockCtx) (s : X64.HostState), X64.Coherent H c rest k s →
      ∃ s', X64.run (X64.emitLea k i.operand0.reg o).2 s = some s' ∧
        X64.HoldsCpu H (leaWritten c i (BitVec.ofNat 32 (offsetOf c o))) rest s'

/-- What the decoder gives: only XLAT has a byte index, and an LEA has a register and an
address. -/
structure DecodedOperand (i : Cpu.Insn) (o : Operand) : Prop where
  addressed : Addressed o
  byteIndex : i.op = .other .simd → o.indexLowByte = false
  lea : i.op = .lea → o = i.operand1 ∧ o.kind = .mem ∧ i.operand0.kind = .reg ∧
    ∃ w, Width.ofBytes i.operand0.size = some w

section

variable {c : X86Cpu} {i : Cpu.Insn} {o : Operand}

/-- The interpreter's LEA adds the base of the segment. -/
theorem leaExec_iff (h : DecodedOperand i o) (hop : i.op = .lea) :
    (∀ (μ : Type) (g : GuestMem μ) (other : Cpu.OtherOp → Cpu.Insn → Exec μ Unit) (s : Ctx μ),
      s.cpu = c → Exec.execute g other i s =
        .ok () (s.withRegs (leaWritten c i (BitVec.ofNat 32 (offsetOf c o))).toCpuState)) ↔
      segmentBase c o % 2 ^ (Wasm.widthOf i.operand0).bits = 0 := by
  obtain ⟨rfl, hmem, hreg, w, hw⟩ := h.lea hop
  have hoffset : offsetOf c i.operand1 < 2 ^ 32 := by
    refine (Nat.mod_lt _ (by split_ifs <;> decide)).trans_le ?_
    split_ifs <;> decide
  have hbits : (Wasm.widthOf i.operand0).bits = 8 ∨ (Wasm.widthOf i.operand0).bits = 16 ∨
      (Wasm.widthOf i.operand0).bits = 32 := by
    cases Wasm.widthOf i.operand0
    · exact .inl rfl
    · exact .inr (.inl rfl)
    · exact .inr (.inr rfl)
  have hsame : regWrite c.toCpuState i.operand0.reg (Wasm.widthOf i.operand0)
      (effectiveAddress c i.operand1) =
        regWrite c.toCpuState i.operand0.reg (Wasm.widthOf i.operand0)
          (BitVec.ofNat 32 (offsetOf c i.operand1)) ↔
      segmentBase c i.operand1 % 2 ^ (Wasm.widthOf i.operand0).bits = 0 := by
    rw [regWrite_eq_iff, effectiveAddress_toNat c h.addressed, linearAddress, BitVec.toNat_ofNat,
      Nat.mod_eq_of_lt hoffset]
    rcases hbits with hb | hb | hb <;> rw [hb] <;> omega
  rw [← hsame]
  constructor
  · intro hall
    have hrun := hall Unit ⟨fun _ _ _ => none, fun _ _ _ _ => none⟩ (fun _ _ => pure ())
      ⟨c, fun _ => 0, (), 0⟩ rfl
    rw [execute_lea _ _ rfl hop hmem hreg hw] at hrun
    injection hrun with _ hstate
    exact congrArg (fun s : Ctx Unit => s.cpu.toCpuState) hstate
  · intro heq μ g other s hs
    rw [execute_lea g other hs hop hmem hreg hw]
    simp only [leaWritten, heq]

/-- **One address everywhere**: but for SIMD operands of 16-bit address size whose parts exceed
16 bits, and for the interpreter's LEA with a segment base. -/
theorem oneAddress_iff (h : DecodedOperand i o) :
    OneAddress c i o ↔
      (i.op = .other .simd → o.addr16 = true → displaced c o % 2 ^ 32 < 2 ^ 16) ∧
      (i.op = .lea → segmentBase c o % 2 ^ (Wasm.widthOf i.operand0).bits = 0) := by
  constructor
  · intro hone
    exact ⟨fun hop => (simdAddress_iff h.addressed (h.byteIndex hop)).mp (hone.simd hop),
      fun hop => (leaExec_iff h hop).mp (hone.leaExec hop)⟩
  · rintro ⟨hsimd, hlea⟩
    refine ⟨effectiveAddress_toNat c h.addressed, fun hop => ?_, fun h16 s W imports bytes l st
      rest hl => ?_, fun h16 H rest k s hs => ?_, fun hop => (leaExec_iff h hop).mpr (hlea hop),
      fun hop haccepts s W imports bytes l st rest hl => ?_, fun hop haccepts H rest k s hs => ?_⟩
    · exact (simdAddress_iff h.addressed (h.byteIndex hop)).mpr (hsimd hop)
    · rw [← withBase_eq_ofNat h.addressed h16, ← wasmAddress_eq h.addressed]
      exact Wasm.run_address hl o
    · obtain ⟨s', hrun, -, hlow⟩ := X64.run_effectiveAddress hs o
      rw [← withBase_eq_ofNat h.addressed h16, ← x64Address_eq h.addressed]
      exact ⟨s', hrun, hlow⟩
    · obtain ⟨rfl, -⟩ := h.lea hop
      exact run_leaLower W imports h.addressed haccepts bytes hl st rest
    · obtain ⟨rfl, -⟩ := h.lea hop
      obtain ⟨-, -, hsize, -, h16⟩ := haccepts
      obtain ⟨s', hrun, hs'⟩ := X64.run_lea hs i.operand0.reg i.operand1
      have hwidth : Wasm.widthOf i.operand0 = .dword := by
        rw [Wasm.widthOf, hsize]
        rfl
      rw [x64Parts_eq h.addressed, wordSum_eq_ofNat h.addressed h16] at hs'
      rw [leaWritten, hwidth]
      exact ⟨s', hrun, hs'.holds⟩

end

/-! ### Operands of MOVAPS -/

/-- `[BX+SI]`. -/
def baseIndexOperand : Operand :=
  ⟨.ds, .mem, 16, 0, some Cpu.ebx, some Cpu.esi, 1, 0, 0, true, false, false⟩

/-- `FS:[EBX+ESI*4+8]`. -/
def segmentOperand : Operand :=
  ⟨.fs, .mem, 16, 0, some Cpu.ebx, some Cpu.esi, 4, 8, 0, false, false, false⟩

/-- MOVAPS XMM0, from memory. -/
def movapsInsn (o : Operand) (addressWidth : Nat) : Cpu.Insn :=
  { length := 4, op := .other .simd, operands := 2,
    operand0 := ⟨.ds, .xmm, 16, 0, none, none, 1, 0, 0, false, false, false⟩,
    operand1 := o, operand2 := o, addressWidth := addressWidth }

/-- BX and SI hold one value. -/
def cpuWith (v : U32) : X86Cpu := ⟨⟨fun _ => v, false, ⟨0, 0, 0, .none, .dword, 0⟩⟩, 0, 0, 0⟩

/-- A segment whose base carries the sum past `2 ^ 32`. -/
def cpuInSegment : X86Cpu := { cpuWith 0x1000 with fsBase := 0xFFFFF000 }

/-- In 16 bits, and in 32 bits behind a segment. -/
theorem oneAddress_movaps :
    OneAddress (cpuWith 0x1000) (movapsInsn baseIndexOperand 16) baseIndexOperand ∧
      OneAddress cpuInSegment (movapsInsn segmentOperand 32) segmentOperand := by
  have hword : DecodedOperand (movapsInsn baseIndexOperand 16) baseIndexOperand :=
    ⟨⟨by decide, fun h => Bool.noConfusion h⟩, fun _ => rfl, fun h => by cases h⟩
  have hwide : DecodedOperand (movapsInsn segmentOperand 32) segmentOperand :=
    ⟨⟨by decide, fun h => Bool.noConfusion h⟩, fun _ => rfl, fun h => by cases h⟩
  exact ⟨(oneAddress_iff hword).mpr ⟨fun _ _ => by decide, fun h => by cases h⟩,
    (oneAddress_iff hwide).mpr ⟨fun _ h => Bool.noConfusion h, fun h => by cases h⟩⟩

/-- The sum 0x10000 is 0 in 16 bits, and the SIMD unit reads at 0x10000. -/
theorem movaps_elsewhere :
    ¬ OneAddress (cpuWith 0x8000) (movapsInsn baseIndexOperand 16) baseIndexOperand := by
  intro h
  have := h.simd rfl
  revert this
  decide

end X86Port.Jit
