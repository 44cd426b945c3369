import X86Port.Cpu.Cond
import X86Port.Cpu.Registers

/-!
# Decoded instructions

The operands and the instructions of `decode.h`. A register number that the encoding can hold is
in range, a part of an address that is absent is not register 0, and an operation holds its own
ALU operation or condition.
-/

namespace X86Port.Cpu

inductive OperandKind where
  | none
  | reg
  | mem
  | imm
  | st
  | seg
  | mmx
  | xmm
  | farPtr
deriving DecidableEq

inductive SegReg where
  | es
  | cs
  | ss
  | ds
  | fs
  | gs
deriving DecidableEq

/-- `size` is a number of bytes. The immediate is already sign-extended to 32 bits, and a
`relative` one counts from the next instruction. -/
structure Operand where
  seg : SegReg
  kind : OperandKind
  size : Nat
  reg : Reg
  base : Option Reg
  index : Option Reg
  scale : Nat
  disp : U32
  imm : U32
  addr16 : Bool
  indexLowByte : Bool
  relative : Bool
deriving DecidableEq

inductive BitOp where
  | test
  | set
  | reset
  | comp
deriving DecidableEq

/-- The families whose semantics `exec.c` hands to a module of their own, or that end in a trap
or a far transfer. -/
inductive OtherOp where
  | x87
  | string
  | simd
  | bcd
  | bsf
  | bsr
  | cmpxchg8b
  | pushad
  | popad
  | enter
  | cpuid
  | rdtsc
  | callFar
  | jmpFar
  | retf
  | iretd
  | trap
  | bound
  | arpl
  | sldt
  | lfp
  | privileged
deriving DecidableEq

inductive InsnOp where
  | unsupported
  | alu (op : AluOp)
  | aluUnary (op : AluUnOp)
  | mov
  | movzx
  | movsx
  | lea
  | push
  | pop
  | xchg
  | jmp
  | jcc (cc : Cond)
  | setcc (cc : Cond)
  | cmovcc (cc : Cond)
  | call
  | ret
  | leave
  | nop
  | cdq
  | cwde
  | bswap
  | mul
  | imul
  | div
  | idiv
  | pushfd
  | popfd
  | cld
  | std
  | bit (op : BitOp)
  | shld
  | shrd
  | sahf
  | lahf
  | stc
  | clc
  | cmc
  | salc
  | loop
  | loope
  | loopne
  | jecxz
  | xadd
  | cmpxchg
  | other (op : OtherOp)
deriving DecidableEq

/-- `operands` of `operand0` to `operand2` are explicit. The address width is in bits. -/
structure Insn where
  length : U32
  op : InsnOp
  operands : Nat
  operand0 : Operand
  operand1 : Operand
  operand2 : Operand
  addressWidth : Nat
deriving DecidableEq

end X86Port.Cpu
