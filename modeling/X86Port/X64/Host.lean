import X86Port.Wasm.CpuImage

/-!
# The x86-64 host

The instructions of `emit_x64.c` that the guest register cache, the address code and a helper
call are made of, and what each does to the host.

* `run_append`: code runs one part after the other.
* `addr_field`: a displacement into the guest CPU is that field.
-/

namespace X86Port.X64

open Cpu (Width)
open Wasm (LinearMem)

inductive HostReg where
  | rax
  | rcx
  | rdx
  | rbx
  | rsp
  | rbp
  | rsi
  | rdi
  | r8
  | r9
  | r10
  | r11
  | r12
  | r13
  | r14
  | r15
deriving DecidableEq

inductive HostAlu where
  | add
  | sub
  | and
deriving DecidableEq

inductive HostShift where
  | shl
  | shr
  | sar
deriving DecidableEq

/-- One emitter a constructor; a width stands for the three emitters of a load or a store. -/
inductive HostInsn where
  | load (w : Width) (dst base : HostReg) (disp : U32)
  | store (w : Width) (base : HostReg) (disp : U32) (src : HostReg)
  | storeImm (w : Width) (base : HostReg) (disp imm : U32)
  | store64 (base : HostReg) (disp : U32) (src : HostReg)
  | mov32 (dst src : HostReg)
  | movImm32 (dst : HostReg) (imm : U32)
  | mov64 (dst src : HostReg)
  | movImm64 (dst : HostReg) (imm : U64)
  | lea64 (dst base : HostReg) (disp : U32)
  | shiftImm (op : HostShift) (dst : HostReg) (count : Nat)
  | alu32 (op : HostAlu) (dst src : HostReg)
  | aluImm32 (op : HostAlu) (dst : HostReg) (imm : U32)
  | aluMem32 (op : HostAlu) (dst base : HostReg) (disp : U32)
  | aluImm64 (op : HostAlu) (dst : HostReg) (imm : U8)
  | push (src : HostReg)
  | pop (dst : HostReg)
deriving DecidableEq

abbrev HostCode := List HostInsn

structure HostState where
  reg : HostReg → U64
  mem : LinearMem

namespace HostState

variable (s : HostState)

def low (r : HostReg) : U32 := (s.reg r).setWidth 32

def set (r : HostReg) (v : U64) : HostState := { s with reg := Function.update s.reg r v }

/-- Writing a 32-bit register zero-extends. -/
def setLow (r : HostReg) (v : U32) : HostState := s.set r (v.setWidth 64)

def withMem (m : LinearMem) : HostState := { s with mem := m }

/-- `[base + disp]`, the displacement sign-extended. -/
def addr (base : HostReg) (disp : U32) : Nat := (s.reg base + disp.signExtend 64).toNat

@[simp] theorem set_mem (r : HostReg) (v : U64) : (s.set r v).mem = s.mem := rfl

@[simp] theorem setLow_mem (r : HostReg) (v : U32) : (s.setLow r v).mem = s.mem := rfl

@[simp] theorem withMem_mem (m : LinearMem) : (s.withMem m).mem = m := rfl

@[simp] theorem withMem_reg (m : LinearMem) : (s.withMem m).reg = s.reg := rfl

@[simp] theorem set_self (r : HostReg) (v : U64) : (s.set r v).reg r = v :=
  Function.update_self _ _ _

@[simp] theorem setLow_self (r : HostReg) (v : U32) : (s.setLow r v).reg r = v.setWidth 64 :=
  Function.update_self _ _ _

theorem set_ne {r r' : HostReg} (h : r' ≠ r) (v : U64) : (s.set r v).reg r' = s.reg r' :=
  Function.update_of_ne h _ _

theorem setLow_ne {r r' : HostReg} (h : r' ≠ r) (v : U32) : (s.setLow r v).reg r' = s.reg r' :=
  Function.update_of_ne h _ _

@[simp] theorem low_setLow (r : HostReg) (v : U32) : (s.setLow r v).low r = v := by
  unfold low
  rw [setLow_self, BitVec.setWidth_setWidth_of_le v (by decide), BitVec.setWidth_eq]

theorem low_setLow_ne {r r' : HostReg} (h : r' ≠ r) (v : U32) :
    (s.setLow r v).low r' = s.low r' := by
  unfold low
  rw [setLow_ne s h]

@[simp] theorem setLow_setLow (r : HostReg) (v v' : U32) :
    (s.setLow r v).setLow r v' = s.setLow r v' := by
  simp only [setLow, set, Function.update_idem]

@[simp] theorem low_withMem (m : LinearMem) (r : HostReg) : (s.withMem m).low r = s.low r := rfl

end HostState

def HostAlu.result : HostAlu → U32 → U32 → U32
  | .add, a, b => a + b
  | .sub, a, b => a - b
  | .and, a, b => a &&& b

def HostAlu.result64 : HostAlu → U64 → U64 → U64
  | .add, a, b => a + b
  | .sub, a, b => a - b
  | .and, a, b => a &&& b

/-- The host masks a count to five bits. -/
def HostShift.result : HostShift → U32 → Nat → U32
  | .shl, v, count => v <<< (count % 32)
  | .shr, v, count => v >>> (count % 32)
  | .sar, v, count => v.sshiftRight (count % 32)

/-- Two words, the low one first. -/
def store64 (m : LinearMem) (a : Nat) (v : U64) : Option LinearMem :=
  (m.store 4 a (v.setWidth 32)).bind fun m => m.store 4 (a + 4) ((v >>> 32).setWidth 32)

def load64 (m : LinearMem) (a : Nat) : Option U64 :=
  (m.load 4 a).bind fun low => (m.load 4 (a + 4)).map fun high => high ++ low

/-- What one instruction does; an access to memory that is not there stops it. -/
def HostInsn.exec : HostInsn → HostState → Option HostState
  | .load w dst base disp, s => (s.mem.load w.bytes (s.addr base disp)).map (s.setLow dst)
  | .store w base disp src, s => (s.mem.store w.bytes (s.addr base disp) (s.low src)).map s.withMem
  | .storeImm w base disp imm, s => (s.mem.store w.bytes (s.addr base disp) imm).map s.withMem
  | .store64 base disp src, s => (X64.store64 s.mem (s.addr base disp) (s.reg src)).map s.withMem
  | .mov32 dst src, s => some (s.setLow dst (s.low src))
  | .movImm32 dst imm, s => some (s.setLow dst imm)
  | .mov64 dst src, s => some (s.set dst (s.reg src))
  | .movImm64 dst imm, s => some (s.set dst imm)
  | .lea64 dst base disp, s => some (s.set dst (s.reg base + disp.signExtend 64))
  | .shiftImm op dst count, s => some (s.setLow dst (op.result (s.low dst) count))
  | .alu32 op dst src, s => some (s.setLow dst (op.result (s.low dst) (s.low src)))
  | .aluImm32 op dst imm, s => some (s.setLow dst (op.result (s.low dst) imm))
  | .aluMem32 op dst base disp, s =>
    (s.mem.load 4 (s.addr base disp)).map fun v => s.setLow dst (op.result (s.low dst) v)
  | .aluImm64 op dst imm, s => some (s.set dst (op.result64 (s.reg dst) (imm.signExtend 64)))
  | .push src, s =>
    let top := s.reg .rsp - 8
    (X64.store64 s.mem top.toNat (s.reg src)).map (s.set .rsp top).withMem
  | .pop dst, s =>
    (load64 s.mem (s.reg .rsp).toNat).map fun v => (s.set .rsp (s.reg .rsp + 8)).set dst v

def run : HostCode → HostState → Option HostState
  | [], s => some s
  | i :: code, s => (i.exec s).bind (run code)

@[simp] theorem run_nil (s : HostState) : run [] s = some s := rfl

@[simp] theorem run_cons (i : HostInsn) (code : HostCode) (s : HostState) :
    run (i :: code) s = (i.exec s).bind (run code) := rfl

theorem run_append (code code' : HostCode) (s : HostState) :
    run (code ++ code') s = (run code s).bind (run code') := by
  induction code generalizing s with
  | nil => rfl
  | cons i code ih =>
    rw [List.cons_append, run_cons, run_cons, Option.bind_assoc]
    exact congrArg _ (funext ih)

/-! ## The guest CPU of a block -/

/-- Where a block's guest CPU sits. It is an object of the host, so it does not wrap. -/
structure CpuHome where
  lay : Wasm.CpuLayout
  cpu : U64
  fits : cpu.toNat + (lay.gsBase + 4) ≤ 2 ^ 64
  near : lay.gsBase < 2 ^ 31

/-- The displacement of a field, an `int32_t`. -/
def fieldDisp (offset : Nat) : U32 := BitVec.ofNat 32 offset

theorem addr_field {H : CpuHome} {s : HostState} (hs : s.reg .rbx = H.cpu) {o : Nat}
    (ho : o ≤ H.lay.gsBase) : s.addr .rbx (fieldDisp o) = H.cpu.toNat + o := by
  have hfits := H.fits
  have hnear := H.near
  have hdisp : (fieldDisp o).signExtend 64 = BitVec.ofNat 64 o := by
    refine BitVec.eq_of_toInt_eq ?_
    have hsmall : (o : ℤ) < 2 ^ 31 := by exact_mod_cast ho.trans_lt hnear
    rw [BitVec.toInt_signExtend_of_le (by decide), fieldDisp, BitVec.toInt_ofNat',
      BitVec.toInt_ofNat', Int.bmod_eq_of_le (by omega) (by omega),
      Int.bmod_eq_of_le (by omega) (by omega)]
  rw [HostState.addr, hs, hdisp, BitVec.toNat_add, BitVec.toNat_ofNat,
    Nat.mod_eq_of_lt (by omega : o < 2 ^ 64), Nat.mod_eq_of_lt (by omega)]

end X86Port.X64
