import Mathlib.Logic.Function.Basic
import X86Port.Cpu.Flags

/-!
# The guest registers

The register file of `cpu.c`, read and written by encoded number at a width.
-/

namespace X86Port.Cpu

/-- An encoded register number. -/
abbrev Reg := Fin 8

def eax : Reg := 0
def ecx : Reg := 1
def edx : Reg := 2
def ebx : Reg := 3
def esp : Reg := 4
def ebp : Reg := 5
def esi : Reg := 6
def edi : Reg := 7

/-- The integer registers, the direction flag and the lazy flags. -/
@[ext]
structure CpuState where
  reg : Reg → U32
  df : Bool
  flags : Flags

def CpuState.setReg (c : CpuState) (r : Reg) (value : U32) : CpuState :=
  { c with reg := Function.update c.reg r value }

@[simp] theorem setReg_reg (c : CpuState) (r : Reg) (v : U32) :
    (c.setReg r v).reg = Function.update c.reg r v := rfl

@[simp] theorem setReg_df (c : CpuState) (r : Reg) (v : U32) : (c.setReg r v).df = c.df := rfl

@[simp] theorem setReg_flags (c : CpuState) (r : Reg) (v : U32) : (c.setReg r v).flags = c.flags := rfl

/-- Which register a byte register number names, and how far up the byte sits: 4 to 7 are
the second bytes of the first four registers. -/
def byteReg (index : Reg) : Reg × Nat :=
  if index < 4 then (index, 0) else (index - 4, 8)

def regRead (c : CpuState) (index : Reg) : Width → U32
  | .byte => (c.reg (byteReg index).1 >>> (byteReg index).2) &&& 0xFF#32
  | .word => c.reg index &&& 0xFFFF#32
  | .dword => c.reg index

/-- A write of width 1 or 2 preserves every bit outside it. -/
def regWrite (c : CpuState) (index : Reg) (w : Width) (value : U32) : CpuState :=
  match w with
  | .byte =>
    let r := (byteReg index).1
    let shift := (byteReg index).2
    c.setReg r ((c.reg r &&& ~~~(0xFF#32 <<< shift)) ||| ((value &&& 0xFF#32) <<< shift))
  | .word => c.setReg index ((c.reg index &&& 0xFFFF0000#32) ||| (value &&& 0xFFFF#32))
  | .dword => c.setReg index value

/-! ## The rest of the integer state -/

/-- `X86pCpu`, as far as the integer engine reaches it. -/
@[ext]
structure X86Cpu extends CpuState where
  eip : U32
  fsBase : U32
  gsBase : U32

end X86Port.Cpu
