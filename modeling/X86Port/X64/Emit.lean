import X86Port.Lib.CodeBuffer
import X86Port.X64.Host

/-!
# The x86-64 encoder

`emit_x64.c`, call by call.

* `Form`: the calls that write one instruction without a distance in it.
* `Form.emit_code`: what each puts into the buffer.
-/

namespace X86Port.X64

open Lib (CodeBuffer)

/-- `X86pEmit`, its buffer with the length, the capacity and the overflow. -/
structure Emit where
  code : CodeBuffer U8
  sitesMade : U32
  sitesBound : U32
  calls : U32

/-- `X86pHostReg`, numbered as the encoding numbers them. -/
def HostReg.code : HostReg → BitVec 4
  | .rax => 0
  | .rcx => 1
  | .rdx => 2
  | .rbx => 3
  | .rsp => 4
  | .rbp => 5
  | .rsi => 6
  | .rdi => 7
  | .r8 => 8
  | .r9 => 9
  | .r10 => 10
  | .r11 => 11
  | .r12 => 12
  | .r13 => 13
  | .r14 => 14
  | .r15 => 15

/-- `X86pHostAlu`. -/
inductive EmitAlu where
  | add
  | or
  | adc
  | sbb
  | and
  | sub
  | xor
  | cmp
deriving DecidableEq

def EmitAlu.code : EmitAlu → BitVec 4
  | .add => 0
  | .or => 1
  | .adc => 2
  | .sbb => 3
  | .and => 4
  | .sub => 5
  | .xor => 6
  | .cmp => 7

/-- `X86pHostShift`. -/
inductive EmitShift where
  | rol
  | ror
  | shl
  | shr
  | sar
deriving DecidableEq

def EmitShift.code : EmitShift → BitVec 4
  | .rol => 0
  | .ror => 1
  | .shl => 4
  | .shr => 5
  | .sar => 7

inductive HostXmm where
  | xmm0
  | xmm1
deriving DecidableEq

def HostXmm.code : HostXmm → BitVec 4
  | .xmm0 => 0
  | .xmm1 => 1

/-- `X86pHostPacked`. -/
inductive HostPacked where
  | movhlps
  | movlhps
  | andps
  | andnps
  | orps
  | xorps
  | addps
  | mulps
  | subps
  | divps
deriving DecidableEq

def HostPacked.code : HostPacked → U8
  | .movhlps => 0x12
  | .movlhps => 0x16
  | .andps => 0x54
  | .andnps => 0x55
  | .orps => 0x56
  | .xorps => 0x57
  | .addps => 0x58
  | .mulps => 0x59
  | .subps => 0x5C
  | .divps => 0x5E

inductive HostHalfLoad where
  | movlps
  | movhps
deriving DecidableEq

def HostHalfLoad.code : HostHalfLoad → U8
  | .movlps => 0x12
  | .movhps => 0x16

/-- `X86pEmitSite`: where the displacement of a jump is, and where the jump ends. -/
structure EmitSite where
  start : Nat
  stop : Nat

/-- REX with the high bits of the ModRM register and of the base. -/
def rexValue (w : Bool) (r b : BitVec 4) : U8 :=
  0x40 ||| (if w then 0x08 else 0) ||| ((r.setWidth 8 >>> 3) <<< 2) ||| (b.setWidth 8 >>> 3)

/-- `mod` for `[base + disp]`. -/
def dispMode (base : BitVec 4) (disp : U32) : U8 :=
  if disp = 0 ∧ base.setWidth 8 &&& 7 ≠ (5 : U8) then 0
  else if -128 ≤ disp.toInt ∧ disp.toInt ≤ 127 then 1 else 2

namespace Emit

/-- A null buffer has overflowed from the start. -/
def init : Option (Nat → U8) → Nat → Emit
  | none, _ => ⟨⟨fun _ => 0, 0, 0, true, Nat.le_refl 0⟩, 0, 0, 0⟩
  | some buf, cap => ⟨⟨buf, cap, 0, false, Nat.zero_le cap⟩, 0, 0, 0⟩

def ok (e : Emit) : Bool := !e.code.overflow

def refuse (e : Emit) : Emit := { e with code := e.code.refuse }

def put (e : Emit) (b : U8) : Emit := { e with code := e.code.put b }

def put32 (e : Emit) (v : U32) : Emit :=
  let e := e.put ((v &&& 0xFF).setWidth 8)
  let e := e.put (((v >>> 8) &&& 0xFF).setWidth 8)
  let e := e.put (((v >>> 16) &&& 0xFF).setWidth 8)
  e.put (((v >>> 24) &&& 0xFF).setWidth 8)

/-- REX, where it is needed. -/
def rex (e : Emit) (w : Bool) (r b : BitVec 4) : Emit :=
  if rexValue w r b ≠ 0x40 then e.put (rexValue w r b) else e

def modrmReg (e : Emit) (reg rm : BitVec 4) : Emit :=
  e.put (0xC0 ||| ((reg.setWidth 8 &&& 7) <<< 3) ||| (rm.setWidth 8 &&& 7))

/-- `[base + disp]`, with a SIB for RSP and R12 and a displacement always for RBP and R13. -/
def modrmMem (e : Emit) (reg base : BitVec 4) (disp : U32) : Emit :=
  let rm : U8 := base.setWidth 8 &&& 7
  let mode := dispMode base disp
  let e := e.put ((mode <<< 6) ||| ((reg.setWidth 8 &&& 7) <<< 3) ||| rm)
  let e := if rm = 4 then e.put (0x20 ||| rm) else e
  if mode = 1 then e.put (disp.setWidth 8) else if mode = 2 then e.put32 disp else e

/-! ## Moves -/

def movR32Imm32 (e : Emit) (dst : HostReg) (imm : U32) : Emit :=
  ((e.rex false 0 dst.code).put (0xB8 + (dst.code.setWidth 8 &&& 7))).put32 imm

def movR64R64 (e : Emit) (dst src : HostReg) : Emit :=
  ((e.rex true src.code dst.code).put 0x89).modrmReg src.code dst.code

def movR32R32 (e : Emit) (dst src : HostReg) : Emit :=
  ((e.rex false src.code dst.code).put 0x89).modrmReg src.code dst.code

def load32 (e : Emit) (dst base : HostReg) (disp : U32) : Emit :=
  ((e.rex false dst.code base.code).put 0x8B).modrmMem dst.code base.code disp

def load64 (e : Emit) (dst base : HostReg) (disp : U32) : Emit :=
  ((e.rex true dst.code base.code).put 0x8B).modrmMem dst.code base.code disp

def imulR64R64 (e : Emit) (dst src : HostReg) : Emit :=
  (((e.rex true dst.code src.code).put 0x0F).put 0xAF).modrmReg dst.code src.code

def store32 (e : Emit) (base : HostReg) (disp : U32) (src : HostReg) : Emit :=
  ((e.rex false src.code base.code).put 0x89).modrmMem src.code base.code disp

def store64 (e : Emit) (base : HostReg) (disp : U32) (src : HostReg) : Emit :=
  ((e.rex true src.code base.code).put 0x89).modrmMem src.code base.code disp

def movR64Imm64 (e : Emit) (dst : HostReg) (imm : U64) : Emit :=
  let e := (e.rex true 0 dst.code).put (0xB8 + (dst.code.setWidth 8 &&& 7))
  (e.put32 ((imm &&& 0xFFFFFFFF).setWidth 32)).put32 ((imm >>> 32).setWidth 32)

def lea64 (e : Emit) (dst base : HostReg) (disp : U32) : Emit :=
  ((e.rex true dst.code base.code).put 0x8D).modrmMem dst.code base.code disp

/-- The displacement of `[rip + disp]` runs from the end of the instruction. -/
def leaRip (e : Emit) (dst : HostReg) (target : Nat) : Emit :=
  let e := ((e.rex true dst.code 0).put 0x8D).put (((dst.code.setWidth 8 &&& 7) <<< 3) ||| 5)
  let disp : Int := target - (e.code.len + 4 : Nat)
  if disp < -2 ^ 31 ∨ 2 ^ 31 ≤ disp then e.refuse else e.put32 (BitVec.ofInt 32 disp)

def data (e : Emit) (bytes : List U8) : Emit := bytes.foldl put e

def store32Imm (e : Emit) (base : HostReg) (disp imm : U32) : Emit :=
  (((e.rex false 0 base.code).put 0xC7).modrmMem 0 base.code disp).put32 imm

def store8Imm (e : Emit) (base : HostReg) (disp : U32) (imm : U8) : Emit :=
  (((e.rex false 0 base.code).put 0xC6).modrmMem 0 base.code disp).put imm

/-! ## Arithmetic -/

def aluR32R32 (e : Emit) (op : EmitAlu) (dst src : HostReg) : Emit :=
  ((e.rex false src.code dst.code).put ((op.code.setWidth 8 <<< 3) ||| 1)).modrmReg src.code
    dst.code

def aluR32Imm32 (e : Emit) (op : EmitAlu) (dst : HostReg) (imm : U32) : Emit :=
  let shortForm := -128 ≤ imm.toInt ∧ imm.toInt ≤ 127
  let e := (e.rex false 0 dst.code).put (if shortForm then 0x83 else 0x81)
  let e := e.modrmReg op.code dst.code
  if shortForm then e.put (imm.setWidth 8) else e.put32 imm

def aluR64R64 (e : Emit) (op : EmitAlu) (dst src : HostReg) : Emit :=
  ((e.rex true src.code dst.code).put ((op.code.setWidth 8 <<< 3) ||| 1)).modrmReg src.code
    dst.code

def shiftR32Imm8 (e : Emit) (op : EmitShift) (dst : HostReg) (count : U8) : Emit :=
  (((e.rex false 0 dst.code).put 0xC1).modrmReg op.code dst.code).put count

def bswapR32 (e : Emit) (dst : HostReg) : Emit :=
  ((e.rex false 0 dst.code).put 0x0F).put (0xC8 ||| (dst.code.setWidth 8 &&& 7))

def shiftR64Imm8 (e : Emit) (op : EmitShift) (dst : HostReg) (count : U8) : Emit :=
  (((e.rex true 0 dst.code).put 0xC1).modrmReg op.code dst.code).put count

def shiftR32Cl (e : Emit) (op : EmitShift) (dst : HostReg) : Emit :=
  ((e.rex false 0 dst.code).put 0xD3).modrmReg op.code dst.code

def movupsLoad (e : Emit) (dst : HostXmm) (base : HostReg) (disp : U32) : Emit :=
  (((e.rex false dst.code base.code).put 0x0F).put 0x10).modrmMem dst.code base.code disp

def movupsStore (e : Emit) (base : HostReg) (disp : U32) (src : HostXmm) : Emit :=
  (((e.rex false src.code base.code).put 0x0F).put 0x11).modrmMem src.code base.code disp

def packedPs (e : Emit) (op : HostPacked) (dst src : HostXmm) : Emit :=
  (((e.rex false dst.code src.code).put 0x0F).put op.code).modrmReg dst.code src.code

def halfLoad (e : Emit) (op : HostHalfLoad) (dst : HostXmm) (base : HostReg) (disp : U32) : Emit :=
  (((e.rex false dst.code base.code).put 0x0F).put op.code).modrmMem dst.code base.code disp

/-- The prefix comes before REX. -/
def movssLoad (e : Emit) (dst : HostXmm) (base : HostReg) (disp : U32) : Emit :=
  ((((e.put 0xF3).rex false dst.code base.code).put 0x0F).put 0x10).modrmMem dst.code base.code disp

def movssRr (e : Emit) (dst src : HostXmm) : Emit :=
  ((((e.put 0xF3).rex false dst.code src.code).put 0x0F).put 0x10).modrmReg dst.code src.code

def shufps (e : Emit) (dst src : HostXmm) (imm : U8) : Emit :=
  ((((e.rex false dst.code src.code).put 0x0F).put 0xC6).modrmReg dst.code src.code).put imm

def testR32R32 (e : Emit) (a b : HostReg) : Emit :=
  ((e.rex false b.code a.code).put 0x85).modrmReg b.code a.code

def testR32Imm32 (e : Emit) (a : HostReg) (imm : U32) : Emit :=
  (((e.rex false 0 a.code).put 0xF7).put (0xC0 ||| (a.code.setWidth 8 &&& 7))).put32 imm

def cmovccR32R32 (e : Emit) (cc : U32) (dst src : HostReg) : Emit :=
  (((e.rex false dst.code src.code).put 0x0F).put (0x40 + (cc &&& 0xF).setWidth 8)).modrmReg
    dst.code src.code

def aluR32Mem (e : Emit) (op : EmitAlu) (dst base : HostReg) (disp : U32) : Emit :=
  ((e.rex false dst.code base.code).put ((op.code.setWidth 8 <<< 3) ||| 3)).modrmMem dst.code
    base.code disp

def aluR64Mem (e : Emit) (op : EmitAlu) (dst base : HostReg) (disp : U32) : Emit :=
  ((e.rex true dst.code base.code).put ((op.code.setWidth 8 <<< 3) ||| 3)).modrmMem dst.code
    base.code disp

def setccR8 (e : Emit) (cc : U32) (dst : HostReg) : Emit :=
  if HostReg.rbx.code < dst.code then e.refuse
  else ((e.put 0x0F).put (0x90 + (cc &&& 0xF).setWidth 8)).put
    (0xC0 ||| (dst.code.setWidth 8 &&& 7))

def store8Reg (e : Emit) (base : HostReg) (disp : U32) (src : HostReg) : Emit :=
  if HostReg.rbx.code < src.code then e.refuse
  else ((e.rex false src.code base.code).put 0x88).modrmMem src.code base.code disp

def load8Zx (e : Emit) (dst base : HostReg) (disp : U32) : Emit :=
  (((e.rex false dst.code base.code).put 0x0F).put 0xB6).modrmMem dst.code base.code disp

def load16Zx (e : Emit) (dst base : HostReg) (disp : U32) : Emit :=
  (((e.rex false dst.code base.code).put 0x0F).put 0xB7).modrmMem dst.code base.code disp

def store16Reg (e : Emit) (base : HostReg) (disp : U32) (src : HostReg) : Emit :=
  (((e.put 0x66).rex false src.code base.code).put 0x89).modrmMem src.code base.code disp

/-- Two bytes, the low one first. -/
def put16 (e : Emit) (imm : U16) : Emit :=
  (e.put ((imm &&& 0xFF).setWidth 8)).put (((imm >>> 8) &&& 0xFF).setWidth 8)

def store16Imm (e : Emit) (base : HostReg) (disp : U32) (imm : U16) : Emit :=
  ((((e.put 0x66).rex false 0 base.code).put 0xC7).modrmMem 0 base.code disp).put16 imm

def aluR64Imm8 (e : Emit) (op : EmitAlu) (dst : HostReg) (imm : U8) : Emit :=
  (((e.rex true 0 dst.code).put 0x83).modrmReg op.code dst.code).put imm

def orM16Imm16 (e : Emit) (base : HostReg) (disp : U32) (imm : U16) : Emit :=
  ((((e.put 0x66).rex false 0 base.code).put 0x81).modrmMem 1 base.code disp).put16 imm

def x87M (e : Emit) (opcode : U8) (digit : U32) (base : HostReg) (disp : U32) : Emit :=
  ((e.rex false 0 base.code).put opcode).modrmMem ((digit &&& 7).setWidth 4) base.code disp

def x87Reg (e : Emit) (opcode modrm : U8) : Emit := (e.put opcode).put modrm

/-! ## Jumps -/

/-- A displacement to be filled in. -/
def makeSite (e : Emit) : EmitSite × Emit :=
  let start := e.code.len
  let e := e.put32 0
  (⟨start, e.code.len⟩, { e with sitesMade := e.sitesMade + 1 })

def jccRel32 (e : Emit) (cc : U32) : EmitSite × Emit :=
  ((e.put 0x0F).put (0x80 + (cc &&& 0xF).setWidth 8)).makeSite

def jmpRel32 (e : Emit) : EmitSite × Emit := (e.put 0xE9).makeSite

def callRel32 (e : Emit) : EmitSite × Emit := ({ e with calls := e.calls + 1 }.put 0xE8).makeSite

/-- The distance is cut to its low 32 bits. -/
def bindTo (e : Emit) (site : EmitSite) (target : Nat) : Emit :=
  let e := { e with sitesBound := e.sitesBound + 1 }
  if e.code.overflow ∨ site.start + 4 > e.code.len then e
  else
    let rel : U64 := BitVec.ofInt 64 ((target : Int) - site.stop)
    { e with code := e.code.patch site.start [(rel &&& 0xFF).setWidth 8,
        ((rel >>> 8) &&& 0xFF).setWidth 8, ((rel >>> 16) &&& 0xFF).setWidth 8,
        ((rel >>> 24) &&& 0xFF).setWidth 8] }

def bind (e : Emit) (site : EmitSite) : Emit := e.bindTo site e.code.len

def allBound (e : Emit) : Bool := e.sitesMade = e.sitesBound

/-! ## Structure -/

/-- REX.B where the register is a high one. -/
def highPrefix (e : Emit) (r : BitVec 4) : Emit := if 8 ≤ r then e.put 0x41 else e

def pushR64 (e : Emit) (r : HostReg) : Emit :=
  (e.highPrefix r.code).put (0x50 + (r.code.setWidth 8 &&& 7))

def popR64 (e : Emit) (r : HostReg) : Emit :=
  (e.highPrefix r.code).put (0x58 + (r.code.setWidth 8 &&& 7))

def ret (e : Emit) : Emit := e.put 0xC3

def callR64 (e : Emit) (target : HostReg) : Emit :=
  (({ e with calls := e.calls + 1 }.highPrefix target.code).put 0xFF).put
    (0xD0 ||| (target.code.setWidth 8 &&& 7))

def decM64 (e : Emit) (base : HostReg) (disp : U32) : Emit :=
  ((e.rex true 0 base.code).put 0xFF).modrmMem 1 base.code disp

def jmpM64 (e : Emit) (base : HostReg) (disp : U32) : Emit :=
  ((e.rex false 0 base.code).put 0xFF).modrmMem 4 base.code disp

def jmpR64 (e : Emit) (target : HostReg) : Emit :=
  ((e.highPrefix target.code).put 0xFF).put (0xE0 ||| (target.code.setWidth 8 &&& 7))

end Emit

end X86Port.X64
