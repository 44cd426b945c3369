import X86Port.Cpu.Insn
import X86Port.X64.GprCache

/-!
# Addresses in x86-64 code

`emit_address_parts`, `emit_effective_address` of `jit_x64_mem.c` and LEA.

* `run_addressParts`: the offset, without the segment base.
* `run_effectiveAddress`: the linear address an access uses.
* `run_lea`: the offset in the destination register.
-/

namespace X86Port.X64

open Cpu (Reg Operand X86Cpu)
open Wasm (LinearMem CpuLayout load_field)

/-! ## The emitted code -/

abbrev eaReg : HostReg := .rax
abbrev addrTmp : HostReg := .rdi

def scaleShift : Nat → Nat
  | 2 => 1
  | 4 => 2
  | 8 => 3
  | _ => 0

/-- The base, or a zero in its place. -/
def emitBase (c : BlockCtx) (o : Operand) : BlockCtx × HostCode :=
  match o.base with
  | some base => gprLoad c eaReg base .dword
  | none => (c, [.movImm32 eaReg 0])

def emitIndex (c : BlockCtx) (o : Operand) : BlockCtx × HostCode :=
  match o.index with
  | some index =>
    let (c, load) := gprLoad c addrTmp index .dword
    (c, load ++ (if o.indexLowByte then ([.aluImm32 .and addrTmp 0xFF] : HostCode) else []) ++
      (if scaleShift o.scale ≠ 0 then ([.shiftImm .shl addrTmp (scaleShift o.scale)] : HostCode)
        else []) ++
      ([.alu32 .add eaReg addrTmp] : HostCode))
  | none => (c, [])

/-- Without the segment base. -/
def emitAddressParts (c : BlockCtx) (o : Operand) : BlockCtx × HostCode :=
  let (c, base) := emitBase c o
  let (c, index) := emitIndex c o
  (c, base ++ index ++
    (if o.disp ≠ 0 then ([.aluImm32 .add eaReg o.disp] : HostCode) else []))

/-- The linear address an access uses. -/
def emitEffectiveAddress (lay : CpuLayout) (c : BlockCtx) (o : Operand) : BlockCtx × HostCode :=
  let (c, parts) := emitAddressParts c o
  (c, parts ++
    match o.seg with
    | .fs => [.aluMem32 .add eaReg .rbx (fieldDisp lay.fsBase)]
    | .gs => [.aluMem32 .add eaReg .rbx (fieldDisp lay.gsBase)]
    | _ => [])

def emitLea (c : BlockCtx) (dst : Reg) (o : Operand) : BlockCtx × HostCode :=
  let (c, parts) := emitAddressParts c o
  let (c, store) := gprStore c dst eaReg .dword
  (c, parts ++ store)

/-! ## What it computes -/

/-- The index, cut to its low byte where the operand says so, and scaled. -/
def indexOf (cpu : X86Cpu) (o : Operand) (index : Reg) : U32 :=
  (if o.indexLowByte then cpu.reg index &&& 0xFF else cpu.reg index) <<< scaleShift o.scale

def partsOf (cpu : X86Cpu) (o : Operand) : U32 :=
  (match o.base with
    | some base => cpu.reg base
    | none => 0) +
  (match o.index with
    | some index => indexOf cpu o index
    | none => 0) + o.disp

theorem scaleShift_lt (scale : Nat) : scaleShift scale < 32 := by
  unfold scaleShift
  split <;> decide

section

variable {H : CpuHome} {cpu : X86Cpu} {rest : LinearMem} {c : BlockCtx} {s : HostState}

theorem isScratch_eaReg : IsScratch eaReg := by decide

theorem isScratch_addrTmp : IsScratch addrTmp := by decide

theorem low_of_reg {r : HostReg} {v : U32} (h : s.reg r = v.setWidth 64) : s.low r = v := by
  rw [HostState.low, h, BitVec.setWidth_setWidth_of_le v (by decide), BitVec.setWidth_eq]

theorem run_base (h : Coherent H cpu rest c s) (o : Operand) :
    ∃ s', run (emitBase c o).2 s = some s' ∧ Coherent H cpu rest (emitBase c o).1 s' ∧
      s'.low eaReg = match o.base with
        | some base => cpu.reg base
        | none => 0 := by
  unfold emitBase
  cases o.base with
  | none => exact ⟨s.setLow eaReg 0, rfl, h.setLow isScratch_eaReg 0, s.low_setLow _ _⟩
  | some base =>
    obtain ⟨s', hrun, hvalue, hs', -⟩ := run_gprLoad h isScratch_eaReg base .dword
    exact ⟨s', hrun, hs', low_of_reg hvalue⟩

/-- The index in its register, cut and scaled. -/
theorem run_scaled (s : HostState) (o : Operand) (v : U32) :
    run ((if o.indexLowByte then ([.aluImm32 .and addrTmp 0xFF] : HostCode) else []) ++
        (if scaleShift o.scale ≠ 0 then ([.shiftImm .shl addrTmp (scaleShift o.scale)] : HostCode)
          else [])) (s.setLow addrTmp v) =
      some (s.setLow addrTmp
        ((if o.indexLowByte then v &&& 0xFF else v) <<< scaleShift o.scale)) := by
  have hmod : scaleShift o.scale % 32 = scaleShift o.scale := Nat.mod_eq_of_lt (scaleShift_lt _)
  have hcut : run (if o.indexLowByte then [.aluImm32 .and addrTmp 0xFF] else [])
      (s.setLow addrTmp v) =
        some (s.setLow addrTmp (if o.indexLowByte then v &&& 0xFF else v)) := by
    split_ifs
    · rw [run_cons, HostInsn.exec, HostAlu.result, HostState.low_setLow, HostState.setLow_setLow]
      rfl
    · rfl
  rw [run_append, hcut, Option.bind_some]
  by_cases hshift : scaleShift o.scale ≠ 0
  · rw [if_pos hshift, run_cons, HostInsn.exec, HostShift.result, HostState.low_setLow, hmod,
      HostState.setLow_setLow]
    rfl
  · rw [if_neg hshift, not_not.mp hshift, BitVec.shiftLeft_zero, run_nil]

theorem run_index (h : Coherent H cpu rest c s) (o : Operand) :
    ∃ s', run (emitIndex c o).2 s = some s' ∧ Coherent H cpu rest (emitIndex c o).1 s' ∧
      s'.low eaReg = s.low eaReg + match o.index with
        | some index => indexOf cpu o index
        | none => 0 := by
  unfold emitIndex
  cases o.index with
  | none => exact ⟨s, rfl, h, (add_zero _).symm⟩
  | some index =>
    obtain ⟨s₁, hload, hvalue, hs₁, hkeep⟩ := run_gprLoad h isScratch_addrTmp index .dword
    have hea : s₁.low eaReg = s.low eaReg :=
      congrArg _ (hkeep eaReg (by decide) (by decide))
    have hsame : s₁ = s₁.setLow addrTmp (cpu.reg index) := by
      refine congrArg (fun reg => HostState.mk reg s₁.mem) (Function.update_eq_self_iff.mpr ?_).symm
      exact hvalue.symm
    refine ⟨(s₁.setLow addrTmp (indexOf cpu o index)).setLow eaReg
      (s.low eaReg + indexOf cpu o index), ?_,
      (hs₁.setLow isScratch_addrTmp _).setLow isScratch_eaReg _, HostState.low_setLow _ _ _⟩
    have hadd : run [.alu32 .add eaReg addrTmp] (s₁.setLow addrTmp (indexOf cpu o index)) =
        some ((s₁.setLow addrTmp (indexOf cpu o index)).setLow eaReg
          (s.low eaReg + indexOf cpu o index)) := by
      rw [run_cons, HostInsn.exec, HostAlu.result, HostState.low_setLow,
        s₁.low_setLow_ne (by decide), hea]
      rfl
    dsimp only
    rw [List.append_assoc, List.append_assoc, run_append, hload, Option.bind_some,
      ← List.append_assoc, run_append, hsame, run_scaled, Option.bind_some]
    rw [← hsame]
    exact hadd

/-- The code of the parts leaves their sum. -/
theorem run_addressParts (h : Coherent H cpu rest c s) (o : Operand) :
    ∃ s', run (emitAddressParts c o).2 s = some s' ∧
      Coherent H cpu rest (emitAddressParts c o).1 s' ∧ s'.low eaReg = partsOf cpu o := by
  obtain ⟨s₁, hbase, hs₁, hlow₁⟩ := run_base h o
  obtain ⟨s₂, hindex, hs₂, hlow₂⟩ := run_index hs₁ o
  have hsum : s₂.low eaReg + o.disp = partsOf cpu o := by
    rw [hlow₂, hlow₁, partsOf]
  unfold emitAddressParts
  dsimp only
  rw [run_append, run_append, hbase, Option.bind_some, hindex, Option.bind_some]
  by_cases hdisp : o.disp ≠ 0
  · rw [if_pos hdisp]
    exact ⟨s₂.setLow eaReg (s₂.low eaReg + o.disp), rfl, hs₂.setLow isScratch_eaReg _,
      (s₂.low_setLow _ _).trans hsum⟩
  · rw [if_neg hdisp]
    rw [not_not.mp hdisp, add_zero] at hsum
    exact ⟨s₂, rfl, hs₂, hsum⟩

/-- The segment base that an operand adds. -/
def segBase (cpu : X86Cpu) (o : Operand) : U32 :=
  match o.seg with
  | .fs => cpu.fsBase
  | .gs => cpu.gsBase
  | _ => 0

theorem exec_addField (h : Coherent H cpu rest c s) {offset : Nat} {v : U32}
    (ho : offset ≤ H.lay.gsBase)
    (hfield : ∀ i < 4, Wasm.cpuByte H.lay cpu (offset + i) = some (Wasm.byteOf v i)) :
    run [.aluMem32 .add eaReg .rbx (fieldDisp offset)] s =
      some (s.setLow eaReg (s.low eaReg + v)) := by
  rw [run_cons, HostInsn.exec, addr_field h.holds.rbx ho, h.holds.mem, load_field hfield]
  rfl

/-- The address code leaves the parts plus the segment base. -/
theorem run_effectiveAddress (h : Coherent H cpu rest c s) (o : Operand) :
    ∃ s', run (emitEffectiveAddress H.lay c o).2 s = some s' ∧
      Coherent H cpu rest (emitEffectiveAddress H.lay c o).1 s' ∧
      s'.low eaReg = partsOf cpu o + segBase cpu o := by
  have hfs : H.lay.fsBase ≤ H.lay.gsBase := (Nat.le_add_right _ 4).trans H.lay.fsBase_lt_gsBase
  obtain ⟨s₁, hparts, hs₁, hlow⟩ := run_addressParts h o
  unfold emitEffectiveAddress segBase
  dsimp only
  rw [run_append, hparts, Option.bind_some, ← hlow]
  cases o.seg with
  | fs =>
    exact ⟨_, exec_addField hs₁ hfs fun i hi => Wasm.cpuByte_fsBase hi,
      hs₁.setLow isScratch_eaReg _, s₁.low_setLow _ _⟩
  | gs =>
    exact ⟨_, exec_addField hs₁ le_rfl fun i hi => Wasm.cpuByte_gsBase hi,
      hs₁.setLow isScratch_eaReg _, s₁.low_setLow _ _⟩
  | _ => exact ⟨s₁, rfl, hs₁, (add_zero _).symm⟩

/-- LEA leaves the parts in its destination. -/
theorem run_lea (h : Coherent H cpu rest c s) (dst : Reg) (o : Operand) :
    ∃ s', run (emitLea c dst o).2 s = some s' ∧
      Coherent H (written cpu dst .dword (partsOf cpu o)) rest (emitLea c dst o).1 s' := by
  obtain ⟨s₁, hparts, hs₁, hlow⟩ := run_addressParts h o
  obtain ⟨s₂, hstore, hs₂, -⟩ := run_gprStore hs₁ dst eaReg .dword
  unfold emitLea
  dsimp only
  rw [run_append, hparts, Option.bind_some]
  rw [hlow] at hs₂
  exact ⟨s₂, hstore, hs₂⟩

end

end X86Port.X64
