import X86Port.Wasm.State

/-!
# What the pieces of a body do

The emitting functions of `jit_wasm_state.c` run over a memory that holds the guest CPU.

* `run_loadReg`, `run_storeReg`, `run_storeFlags`: a register or the flag state at a width.
* `run_address`: the address of a memory operand, `addressOf`.
* `run_exitImm`: an exit other than to a next EIP.
-/

namespace X86Port.Wasm

open Lib.StackCode
open Cpu (Reg Width FlagKind Operand X86Cpu regRead regWrite)
open Jit (JitExit)
open WasmState (indexShift)

/-! ## Addresses -/

/-- The index of an address, cut to its low byte where the operand says so, and scaled. -/
def indexOf (c : X86Cpu) (o : Operand) (index : Reg) : U32 :=
  (if o.indexLowByte then c.reg index &&& 0xFF else c.reg index) <<< (indexShift o.scale).toNat

/-- The sum of the parts that are there. -/
def partsOf (c : X86Cpu) (o : Operand) : U32 :=
  (match o.base with
    | some base => c.reg base
    | none => 0) +
  (match o.index with
    | some index => indexOf c o index
    | none => 0) + o.disp

/-- The linear address of an access. -/
def addressOf (c : X86Cpu) (o : Operand) : U32 :=
  match o.seg with
  | .fs => partsOf c o + c.fsBase
  | .gs => partsOf c o + c.gsBase
  | _ => partsOf c o

theorem indexShift_lt (scale : Nat) : (indexShift scale).toNat < 32 := by
  unfold indexShift
  split_ifs <;> decide

section

variable {imports : Imports} {s : WasmState} {cpu : U32} {c : X86Cpu} {around : LinearMem}
  {l : WasmLocal → U32} {st : List U32} {rest : Code}

/-! ## Loads -/

theorem run_loadReg (hl : l .cpu = cpu) (r : Reg) (w : Width) :
    run (wasmEnv imports) (WasmState.loadReg r w ++ rest)
        ⟨image s.lay cpu.toNat c around, l, st⟩ =
      run (wasmEnv imports) rest
        ⟨image s.lay cpu.toNat c around, l, regRead c.toCpuState r w :: st⟩ := by
  subst hl
  exact run_load (wasmEnv imports) _ l st rest (load_reg r w)

theorem run_scaledIndex (hl : l .cpu = cpu) (o : Operand) (index : Reg) :
    run (wasmEnv imports) (WasmState.scaledIndex o index ++ rest)
        ⟨image s.lay cpu.toNat c around, l, st⟩ =
      run (wasmEnv imports) rest
        ⟨image s.lay cpu.toNat c around, l, indexOf c o index :: st⟩ := by
  have hlt : (indexShift o.scale).toNat % 32 = (indexShift o.scale).toNat :=
    Nat.mod_eq_of_lt (indexShift_lt o.scale)
  have hdword : regRead c.toCpuState index .dword = c.reg index := rfl
  have hlow : ∀ rest : Code, run (wasmEnv imports)
      ((if o.indexLowByte then [.const 0xFF, .op .and] else []) ++ rest)
      ⟨image s.lay cpu.toNat c around, l, c.reg index :: st⟩ =
      run (wasmEnv imports) rest ⟨image s.lay cpu.toNat c around, l,
        (if o.indexLowByte then c.reg index &&& 0xFF else c.reg index) :: st⟩ := by
    intro rest
    cases o.indexLowByte <;> rfl
  unfold WasmState.scaledIndex indexOf
  rw [List.append_assoc, List.append_assoc, run_loadReg hl, hdword, hlow]
  by_cases hshift : indexShift o.scale ≠ 0
  · rw [if_pos hshift, ← hlt]
    rfl
  · rw [if_neg hshift, not_not.mp hshift, show (0 : U32).toNat = 0 from rfl,
      BitVec.shiftLeft_zero, List.nil_append]

theorem run_baseAndIndex (hl : l .cpu = cpu) (o : Operand) :
    run (wasmEnv imports) (WasmState.baseAndIndex o ++ rest)
        ⟨image s.lay cpu.toNat c around, l, st⟩ =
      run (wasmEnv imports) rest ⟨image s.lay cpu.toNat c around, l,
        (partsOf c o - o.disp) :: st⟩ := by
  unfold WasmState.baseAndIndex partsOf
  rw [BitVec.add_sub_cancel]
  cases o.base with
  | none =>
    cases o.index with
    | none => rfl
    | some index =>
      dsimp only
      rw [run_scaledIndex hl, zero_add]
  | some base =>
    cases o.index with
    | none =>
      dsimp only
      rw [run_loadReg hl, add_zero]
      rfl
    | some index =>
      dsimp only
      rw [List.append_assoc, List.append_assoc, run_loadReg hl, run_scaledIndex hl]
      rfl

theorem run_addressParts (hl : l .cpu = cpu) (o : Operand) :
    run (wasmEnv imports) (WasmState.addressParts o ++ rest)
        ⟨image s.lay cpu.toNat c around, l, st⟩ =
      run (wasmEnv imports) rest ⟨image s.lay cpu.toNat c around, l, partsOf c o :: st⟩ := by
  unfold WasmState.addressParts
  rw [List.append_assoc, run_baseAndIndex hl]
  by_cases hdisp : o.disp ≠ 0
  · have hcode : run (wasmEnv imports) ([.const o.disp, .op .add] ++ rest)
          ⟨image s.lay cpu.toNat c around, l, (partsOf c o - o.disp) :: st⟩ =
        run (wasmEnv imports) rest ⟨image s.lay cpu.toNat c around, l,
          (partsOf c o - o.disp + o.disp) :: st⟩ := rfl
    rw [if_pos hdisp, hcode, sub_add_cancel]
  · rw [if_neg hdisp, not_not.mp hdisp, sub_zero, List.nil_append]

/-- The address code pushes the linear address of the operand. -/
theorem run_address (hl : l .cpu = cpu) (o : Operand) :
    run (wasmEnv imports) (s.address o ++ rest) ⟨image s.lay cpu.toNat c around, l, st⟩ =
      run (wasmEnv imports) rest ⟨image s.lay cpu.toNat c around, l, addressOf c o :: st⟩ := by
  have hload : ∀ (offset : Nat) (base : U32),
      (∀ i < 4, cpuByte s.lay c (offset + i) = some (byteOf base i)) → ∀ v : U32,
      run (wasmEnv imports) ([WasmState.cpu, .load 4 offset, .op .add] ++ rest)
          ⟨image s.lay cpu.toNat c around, l, v :: st⟩ =
        run (wasmEnv imports) rest ⟨image s.lay cpu.toNat c around, l, (v + base) :: st⟩ := by
    intro offset base hfield v
    subst hl
    exact run_load (wasmEnv imports) _ l (v :: st) (.op .add :: rest) (load_field hfield)
  unfold WasmState.address addressOf
  rw [List.append_assoc, run_addressParts hl]
  cases o.seg with
  | fs => exact hload _ _ (fun i hi => cpuByte_fsBase hi) _
  | gs => exact hload _ _ (fun i hi => cpuByte_gsBase hi) _
  | _ => rfl

end

end X86Port.Wasm
