import X86Port.X64.Emit
import X86Port.X64.Isa

/-!
# What the x86-64 encoder writes

Each call of the encoder as the instruction it is asked for.

* `Form.emit_code`: the bytes a call puts down.
* `reads_form`: they are that instruction, whatever follows.
-/

namespace X86Port.X64

open Lib (Reads CodeBuffer)

/-- The calls that write one instruction, without a distance in it. The opcodes and digits of an
x87 call come from its caller: an escape, a digit, and a register of the stack. -/
inductive Form where
  | movR32Imm32 (dst : HostReg) (imm : U32)
  | movR64R64 (dst src : HostReg)
  | movR32R32 (dst src : HostReg)
  | load32 (dst base : HostReg) (disp : U32)
  | load64 (dst base : HostReg) (disp : U32)
  | imulR64R64 (dst src : HostReg)
  | store32 (base : HostReg) (disp : U32) (src : HostReg)
  | store64 (base : HostReg) (disp : U32) (src : HostReg)
  | movR64Imm64 (dst : HostReg) (imm : U64)
  | lea64 (dst base : HostReg) (disp : U32)
  | store32Imm (base : HostReg) (disp imm : U32)
  | store8Imm (base : HostReg) (disp : U32) (imm : U8)
  | aluR32R32 (op : EmitAlu) (dst src : HostReg)
  | aluR32Imm32 (op : EmitAlu) (dst : HostReg) (imm : U32)
  | aluR64R64 (op : EmitAlu) (dst src : HostReg)
  | shiftR32Imm8 (op : EmitShift) (dst : HostReg) (count : U8)
  | bswapR32 (dst : HostReg)
  | shiftR64Imm8 (op : EmitShift) (dst : HostReg) (count : U8)
  | shiftR32Cl (op : EmitShift) (dst : HostReg)
  | movupsLoad (dst : HostXmm) (base : HostReg) (disp : U32)
  | movupsStore (base : HostReg) (disp : U32) (src : HostXmm)
  | packedPs (op : HostPacked) (dst src : HostXmm)
  | halfLoad (op : HostHalfLoad) (dst : HostXmm) (base : HostReg) (disp : U32)
  | movssLoad (dst : HostXmm) (base : HostReg) (disp : U32)
  | movssRr (dst src : HostXmm)
  | shufps (dst src : HostXmm) (imm : U8)
  | testR32R32 (a b : HostReg)
  | testR32Imm32 (a : HostReg) (imm : U32)
  | cmovccR32R32 (cc : U32) (dst src : HostReg)
  | aluR32Mem (op : EmitAlu) (dst base : HostReg) (disp : U32)
  | aluR64Mem (op : EmitAlu) (dst base : HostReg) (disp : U32)
  | setccR8 (cc : U32) (dst : HostReg)
  | store8Reg (base : HostReg) (disp : U32) (src : HostReg)
  | load8Zx (dst base : HostReg) (disp : U32)
  | load16Zx (dst base : HostReg) (disp : U32)
  | store16Reg (base : HostReg) (disp : U32) (src : HostReg)
  | store16Imm (base : HostReg) (disp : U32) (imm : U16)
  | aluR64Imm8 (op : EmitAlu) (dst : HostReg) (imm : U8)
  | orM16Imm16 (base : HostReg) (disp : U32) (imm : U16)
  | x87M (escape : BitVec 3) (digit : U32) (base : HostReg) (disp : U32)
  | x87Reg (escape digit st : BitVec 3)
  | pushR64 (r : HostReg)
  | popR64 (r : HostReg)
  | ret
  | callR64 (target : HostReg)
  | decM64 (base : HostReg) (disp : U32)
  | jmpM64 (base : HostReg) (disp : U32)
  | jmpR64 (target : HostReg)

def Form.emit : Form → Emit → Emit
  | .movR32Imm32 dst imm, e => e.movR32Imm32 dst imm
  | .movR64R64 dst src, e => e.movR64R64 dst src
  | .movR32R32 dst src, e => e.movR32R32 dst src
  | .load32 dst base disp, e => e.load32 dst base disp
  | .load64 dst base disp, e => e.load64 dst base disp
  | .imulR64R64 dst src, e => e.imulR64R64 dst src
  | .store32 base disp src, e => e.store32 base disp src
  | .store64 base disp src, e => e.store64 base disp src
  | .movR64Imm64 dst imm, e => e.movR64Imm64 dst imm
  | .lea64 dst base disp, e => e.lea64 dst base disp
  | .store32Imm base disp imm, e => e.store32Imm base disp imm
  | .store8Imm base disp imm, e => e.store8Imm base disp imm
  | .aluR32R32 op dst src, e => e.aluR32R32 op dst src
  | .aluR32Imm32 op dst imm, e => e.aluR32Imm32 op dst imm
  | .aluR64R64 op dst src, e => e.aluR64R64 op dst src
  | .shiftR32Imm8 op dst count, e => e.shiftR32Imm8 op dst count
  | .bswapR32 dst, e => e.bswapR32 dst
  | .shiftR64Imm8 op dst count, e => e.shiftR64Imm8 op dst count
  | .shiftR32Cl op dst, e => e.shiftR32Cl op dst
  | .movupsLoad dst base disp, e => e.movupsLoad dst base disp
  | .movupsStore base disp src, e => e.movupsStore base disp src
  | .packedPs op dst src, e => e.packedPs op dst src
  | .halfLoad op dst base disp, e => e.halfLoad op dst base disp
  | .movssLoad dst base disp, e => e.movssLoad dst base disp
  | .movssRr dst src, e => e.movssRr dst src
  | .shufps dst src imm, e => e.shufps dst src imm
  | .testR32R32 a b, e => e.testR32R32 a b
  | .testR32Imm32 a imm, e => e.testR32Imm32 a imm
  | .cmovccR32R32 cc dst src, e => e.cmovccR32R32 cc dst src
  | .aluR32Mem op dst base disp, e => e.aluR32Mem op dst base disp
  | .aluR64Mem op dst base disp, e => e.aluR64Mem op dst base disp
  | .setccR8 cc dst, e => e.setccR8 cc dst
  | .store8Reg base disp src, e => e.store8Reg base disp src
  | .load8Zx dst base disp, e => e.load8Zx dst base disp
  | .load16Zx dst base disp, e => e.load16Zx dst base disp
  | .store16Reg base disp src, e => e.store16Reg base disp src
  | .store16Imm base disp imm, e => e.store16Imm base disp imm
  | .aluR64Imm8 op dst imm, e => e.aluR64Imm8 op dst imm
  | .orM16Imm16 base disp imm, e => e.orM16Imm16 base disp imm
  | .x87M escape digit base disp, e => e.x87M (0xD8 + escape.setWidth 8) digit base disp
  | .x87Reg escape digit st, e =>
    e.x87Reg (0xD8 + escape.setWidth 8) (0xC0 ||| (digit.setWidth 8 <<< 3) ||| st.setWidth 8)
  | .pushR64 r, e => e.pushR64 r
  | .popR64 r, e => e.popR64 r
  | .ret, e => e.ret
  | .callR64 target, e => e.callR64 target
  | .decM64 base disp, e => e.decM64 base disp
  | .jmpM64 base disp, e => e.jmpM64 base disp
  | .jmpR64 target, e => e.jmpR64 target

def HostReg.operand (r : HostReg) : Operand := .gpr r.code

def HostXmm.operand (x : HostXmm) : Operand := .xmm x.code

def HostReg.field (base : HostReg) (disp : U32) : Operand :=
  .mem ⟨.reg base.code, none, disp.signExtend 64⟩

def EmitAlu.name : EmitAlu → AluName
  | .add => .add
  | .or => .or
  | .adc => .adc
  | .sbb => .sbb
  | .and => .and
  | .sub => .sub
  | .xor => .xor
  | .cmp => .cmp

def EmitShift.name : EmitShift → ShiftName
  | .rol => .rol
  | .ror => .ror
  | .shl => .shl
  | .shr => .shr
  | .sar => .sar

def HostPacked.name : HostPacked → PackedName
  | .movhlps => .movhlps
  | .movlhps => .movlhps
  | .andps => .andps
  | .andnps => .andnps
  | .orps => .orps
  | .xorps => .xorps
  | .addps => .addps
  | .mulps => .mulps
  | .subps => .subps
  | .divps => .divps

def HostHalfLoad.name : HostHalfLoad → Mnemonic
  | .movlps => .movlps
  | .movhps => .movhps

/-- The instruction that a call is asked for. -/
def Form.asked : Form → HostInstr
  | .movR32Imm32 dst imm => ⟨.mov, 32, [dst.operand, .imm (imm.setWidth 64)]⟩
  | .movR64R64 dst src => ⟨.mov, 64, [dst.operand, src.operand]⟩
  | .movR32R32 dst src => ⟨.mov, 32, [dst.operand, src.operand]⟩
  | .load32 dst base disp => ⟨.mov, 32, [dst.operand, base.field disp]⟩
  | .load64 dst base disp => ⟨.mov, 64, [dst.operand, base.field disp]⟩
  | .imulR64R64 dst src => ⟨.imul, 64, [dst.operand, src.operand]⟩
  | .store32 base disp src => ⟨.mov, 32, [base.field disp, src.operand]⟩
  | .store64 base disp src => ⟨.mov, 64, [base.field disp, src.operand]⟩
  | .movR64Imm64 dst imm => ⟨.mov, 64, [dst.operand, .imm imm]⟩
  | .lea64 dst base disp => ⟨.lea, 64, [dst.operand, base.field disp]⟩
  | .store32Imm base disp imm => ⟨.mov, 32, [base.field disp, .imm (imm.setWidth 64)]⟩
  | .store8Imm base disp imm => ⟨.mov, 8, [base.field disp, .imm (imm.setWidth 64)]⟩
  | .aluR32R32 op dst src => ⟨.alu op.name, 32, [dst.operand, src.operand]⟩
  | .aluR32Imm32 op dst imm => ⟨.alu op.name, 32, [dst.operand, .imm (imm.setWidth 64)]⟩
  | .aluR64R64 op dst src => ⟨.alu op.name, 64, [dst.operand, src.operand]⟩
  | .shiftR32Imm8 op dst count => ⟨.shift op.name, 32, [dst.operand, .imm (count.setWidth 64)]⟩
  | .bswapR32 dst => ⟨.bswap, 32, [dst.operand]⟩
  | .shiftR64Imm8 op dst count => ⟨.shift op.name, 64, [dst.operand, .imm (count.setWidth 64)]⟩
  | .shiftR32Cl op dst => ⟨.shift op.name, 32, [dst.operand, .cl]⟩
  | .movupsLoad dst base disp => ⟨.movups, 128, [dst.operand, base.field disp]⟩
  | .movupsStore base disp src => ⟨.movups, 128, [base.field disp, src.operand]⟩
  | .packedPs op dst src => ⟨.packed op.name, 128, [dst.operand, src.operand]⟩
  | .halfLoad op dst base disp => ⟨op.name, 64, [dst.operand, base.field disp]⟩
  | .movssLoad dst base disp => ⟨.movss, 32, [dst.operand, base.field disp]⟩
  | .movssRr dst src => ⟨.movss, 32, [dst.operand, src.operand]⟩
  | .shufps dst src imm => ⟨.shufps, 128, [dst.operand, src.operand, .imm (imm.setWidth 64)]⟩
  | .testR32R32 a b => ⟨.test, 32, [a.operand, b.operand]⟩
  | .testR32Imm32 a imm => ⟨.test, 32, [a.operand, .imm (imm.setWidth 64)]⟩
  | .cmovccR32R32 cc dst src => ⟨.cmov (cc.setWidth 4), 32, [dst.operand, src.operand]⟩
  | .aluR32Mem op dst base disp => ⟨.alu op.name, 32, [dst.operand, base.field disp]⟩
  | .aluR64Mem op dst base disp => ⟨.alu op.name, 64, [dst.operand, base.field disp]⟩
  | .setccR8 cc dst => ⟨.set (cc.setWidth 4), 8, [dst.operand]⟩
  | .store8Reg base disp src => ⟨.mov, 8, [base.field disp, src.operand]⟩
  | .load8Zx dst base disp => ⟨.movzx 8, 32, [dst.operand, base.field disp]⟩
  | .load16Zx dst base disp => ⟨.movzx 16, 32, [dst.operand, base.field disp]⟩
  | .store16Reg base disp src => ⟨.mov, 16, [base.field disp, src.operand]⟩
  | .store16Imm base disp imm => ⟨.mov, 16, [base.field disp, .imm (imm.setWidth 64)]⟩
  | .aluR64Imm8 op dst imm => ⟨.alu op.name, 64, [dst.operand, .imm (imm.signExtend 64)]⟩
  | .orM16Imm16 base disp imm => ⟨.alu .or, 16, [base.field disp, .imm (imm.setWidth 64)]⟩
  | .x87M escape digit base disp => ⟨.x87 escape (digit.setWidth 3), 80, [base.field disp]⟩
  | .x87Reg escape digit st => ⟨.x87 escape digit, 80, [.st st]⟩
  | .pushR64 r => ⟨.push, 64, [r.operand]⟩
  | .popR64 r => ⟨.pop, 64, [r.operand]⟩
  | .ret => ⟨.ret, 64, []⟩
  | .callR64 target => ⟨.call, 64, [target.operand]⟩
  | .decM64 base disp => ⟨.dec, 64, [base.field disp]⟩
  | .jmpM64 base disp => ⟨.jmp, 64, [base.field disp]⟩
  | .jmpR64 target => ⟨.jmp, 64, [target.operand]⟩

/-- The byte registers that need another encoding. -/
def Form.Refused : Form → Prop
  | .setccR8 _ dst => HostReg.rbx.code < dst.code
  | .store8Reg _ _ src => HostReg.rbx.code < src.code
  | _ => False

/-! ## The bytes of a call -/

def rexBytes (w : Bool) (r b : BitVec 4) : List U8 :=
  if rexValue w r b ≠ 0x40 then [rexValue w r b] else []

def modRmByte (mode : U8) (reg rm : BitVec 4) : U8 :=
  (mode <<< 6) ||| ((reg.setWidth 8 &&& 7) <<< 3) ||| (rm.setWidth 8 &&& 7)

def dispBytes (mode : U8) (disp : U32) : List U8 :=
  if mode = 1 then leBytes 1 (disp.setWidth 8) else if mode = 2 then leBytes 4 disp else []

def sibBytes (base : BitVec 4) : List U8 :=
  if base.setWidth 8 &&& 7 = (4 : U8) then [0x20 ||| (base.setWidth 8 &&& 7)] else []

def memBytes (reg base : BitVec 4) (disp : U32) : List U8 :=
  modRmByte (dispMode base disp) reg base :: (sibBytes base ++ dispBytes (dispMode base disp) disp)

/-- A call with two registers, or a digit and a register. -/
def regForm (pre : List U8) (w : Bool) (op : List U8) (reg rm : BitVec 4) (imm : List U8) :
    List U8 :=
  pre ++ (rexBytes w reg rm ++ (op ++ (modRmByte 3 reg rm :: imm)))

/-- A call with a register or a digit, and memory. -/
def memForm (pre : List U8) (w : Bool) (op : List U8) (reg base : BitVec 4) (disp : U32)
    (imm : List U8) : List U8 :=
  pre ++ (rexBytes w reg base ++ (op ++ (memBytes reg base disp ++ imm)))

/-- A call with a register in its opcode. -/
def lowForm (w : Bool) (op : List U8) (first : U8) (r : BitVec 4) (imm : List U8) : List U8 :=
  rexBytes w 0 r ++ (op ++ ((first + (r.setWidth 8 &&& 7)) :: imm))

def Form.bytes : Form → List U8
  | .movR32Imm32 dst imm => lowForm false [] 0xB8 dst.code (leBytes 4 imm)
  | .movR64R64 dst src => regForm [] true [0x89] src.code dst.code []
  | .movR32R32 dst src => regForm [] false [0x89] src.code dst.code []
  | .load32 dst base disp => memForm [] false [0x8B] dst.code base.code disp []
  | .load64 dst base disp => memForm [] true [0x8B] dst.code base.code disp []
  | .imulR64R64 dst src => regForm [] true [0x0F, 0xAF] dst.code src.code []
  | .store32 base disp src => memForm [] false [0x89] src.code base.code disp []
  | .store64 base disp src => memForm [] true [0x89] src.code base.code disp []
  | .movR64Imm64 dst imm => lowForm true [] 0xB8 dst.code (leBytes 8 imm)
  | .lea64 dst base disp => memForm [] true [0x8D] dst.code base.code disp []
  | .store32Imm base disp imm => memForm [] false [0xC7] 0 base.code disp (leBytes 4 imm)
  | .store8Imm base disp imm => memForm [] false [0xC6] 0 base.code disp (leBytes 1 imm)
  | .aluR32R32 op dst src =>
    regForm [] false [(op.code.setWidth 8 <<< 3) ||| 1] src.code dst.code []
  | .aluR32Imm32 op dst imm =>
    if -128 ≤ imm.toInt ∧ imm.toInt ≤ 127 then
      regForm [] false [0x83] op.code dst.code (leBytes 1 (imm.setWidth 8))
    else regForm [] false [0x81] op.code dst.code (leBytes 4 imm)
  | .aluR64R64 op dst src => regForm [] true [(op.code.setWidth 8 <<< 3) ||| 1] src.code dst.code []
  | .shiftR32Imm8 op dst count => regForm [] false [0xC1] op.code dst.code (leBytes 1 count)
  | .bswapR32 dst => lowForm false [0x0F] 0xC8 dst.code []
  | .shiftR64Imm8 op dst count => regForm [] true [0xC1] op.code dst.code (leBytes 1 count)
  | .shiftR32Cl op dst => regForm [] false [0xD3] op.code dst.code []
  | .movupsLoad dst base disp => memForm [] false [0x0F, 0x10] dst.code base.code disp []
  | .movupsStore base disp src => memForm [] false [0x0F, 0x11] src.code base.code disp []
  | .packedPs op dst src => regForm [] false [0x0F, op.code] dst.code src.code []
  | .halfLoad op dst base disp => memForm [] false [0x0F, op.code] dst.code base.code disp []
  | .movssLoad dst base disp => memForm [0xF3] false [0x0F, 0x10] dst.code base.code disp []
  | .movssRr dst src => regForm [0xF3] false [0x0F, 0x10] dst.code src.code []
  | .shufps dst src imm => regForm [] false [0x0F, 0xC6] dst.code src.code (leBytes 1 imm)
  | .testR32R32 a b => regForm [] false [0x85] b.code a.code []
  | .testR32Imm32 a imm => regForm [] false [0xF7] 0 a.code (leBytes 4 imm)
  | .cmovccR32R32 cc dst src =>
    regForm [] false [0x0F, 0x40 + (cc &&& 0xF).setWidth 8] dst.code src.code []
  | .aluR32Mem op dst base disp =>
    memForm [] false [(op.code.setWidth 8 <<< 3) ||| 3] dst.code base.code disp []
  | .aluR64Mem op dst base disp =>
    memForm [] true [(op.code.setWidth 8 <<< 3) ||| 3] dst.code base.code disp []
  | .setccR8 cc dst => regForm [] false [0x0F, 0x90 + (cc &&& 0xF).setWidth 8] 0 dst.code []
  | .store8Reg base disp src => memForm [] false [0x88] src.code base.code disp []
  | .load8Zx dst base disp => memForm [] false [0x0F, 0xB6] dst.code base.code disp []
  | .load16Zx dst base disp => memForm [] false [0x0F, 0xB7] dst.code base.code disp []
  | .store16Reg base disp src => memForm [0x66] false [0x89] src.code base.code disp []
  | .store16Imm base disp imm => memForm [0x66] false [0xC7] 0 base.code disp (leBytes 2 imm)
  | .aluR64Imm8 op dst imm => regForm [] true [0x83] op.code dst.code (leBytes 1 imm)
  | .orM16Imm16 base disp imm => memForm [0x66] false [0x81] 1 base.code disp (leBytes 2 imm)
  | .x87M escape digit base disp =>
    memForm [] false [0xD8 + escape.setWidth 8] ((digit &&& 7).setWidth 4) base.code disp []
  | .x87Reg escape digit st =>
    regForm [] false [0xD8 + escape.setWidth 8] (digit.setWidth 4) (st.setWidth 4) []
  | .pushR64 r => lowForm false [] 0x50 r.code []
  | .popR64 r => lowForm false [] 0x58 r.code []
  | .ret => [0xC3]
  | .callR64 target => regForm [] false [0xFF] 2 target.code []
  | .decM64 base disp => memForm [] true [0xFF] 1 base.code disp []
  | .jmpM64 base disp => memForm [] false [0xFF] 4 base.code disp []
  | .jmpR64 target => regForm [] false [0xFF] 4 target.code []

/-! ## The bytes put down -/

/-- A byte of a word, cut out by a mask. -/
theorem setWidth_masked {w : Nat} (v : BitVec w) (hw : 8 ≤ w) :
    (v &&& BitVec.ofNat w 0xFF).setWidth 8 = v.setWidth 8 := by
  have hmask : 255 < 2 ^ w := Nat.lt_of_lt_of_le (by decide)
    (Nat.pow_le_pow_right (by decide) hw : 2 ^ 8 ≤ 2 ^ w)
  apply BitVec.eq_of_toNat_eq
  rw [BitVec.toNat_setWidth, BitVec.toNat_setWidth, BitVec.toNat_and, BitVec.toNat_ofNat,
    Nat.mod_eq_of_lt hmask, show 255 = 2 ^ 8 - 1 from rfl, Nat.and_two_pow_sub_one_eq_mod,
    Nat.mod_mod]

theorem bytes32 (v : U32) :
    [(v &&& 0xFF).setWidth 8, ((v >>> 8) &&& 0xFF).setWidth 8, ((v >>> 16) &&& 0xFF).setWidth 8,
      ((v >>> 24) &&& 0xFF).setWidth 8] = leBytes 4 v := by
  have hmask : ∀ u : U32, (u &&& 0xFF).setWidth 8 = u.setWidth 8 := fun u =>
    setWidth_masked u (by decide)
  rw [leBytes_eq, hmask, hmask, hmask, hmask]
  rfl

theorem bytes16 (v : U16) :
    [(v &&& 0xFF).setWidth 8, ((v >>> 8) &&& 0xFF).setWidth 8] = leBytes 2 v := by
  have hmask : ∀ u : U16, (u &&& 0xFF).setWidth 8 = u.setWidth 8 := fun u =>
    setWidth_masked u (by decide)
  rw [leBytes_eq, hmask, hmask]
  rfl

/-- A byte of a word's low half. -/
theorem byte_low32 (u : U64) {i : Nat} (hi : i ≤ 24) :
    (u.setWidth 32 >>> i).setWidth 8 = (u >>> i).setWidth 8 := by
  refine BitVec.eq_of_getLsbD_eq fun j hj => ?_
  have hplace : i + j < 32 := by omega
  simp [hj, hplace]

theorem bytes64 (v : U64) :
    leBytes 4 ((v &&& 0xFFFFFFFF).setWidth 32) ++ leBytes 4 ((v >>> 32).setWidth 32) =
      leBytes 8 v := by
  have hlow : (v &&& 0xFFFFFFFF).setWidth 32 = v.setWidth 32 := by
    apply BitVec.eq_of_toNat_eq
    rw [BitVec.toNat_setWidth, BitVec.toNat_setWidth, BitVec.toNat_and,
      show (0xFFFFFFFF : U64).toNat = 2 ^ 32 - 1 from rfl, Nat.and_two_pow_sub_one_eq_mod,
      Nat.mod_mod]
  have hshift : ∀ i, (v >>> 32 >>> i).setWidth 8 = (v >>> (32 + i)).setWidth 8 := fun i => by
    rw [BitVec.shiftRight_add]
  rw [hlow, leBytes_eq, leBytes_eq, leBytes_eq]
  refine (congrArg₂ (· ++ ·) (List.map_congr_left (g := fun i => (v >>> (8 * i)).setWidth 8)
    fun i hi => byte_low32 v ?_) (List.map_congr_left (g := fun i => (v >>> (32 + 8 * i)).setWidth 8)
    fun i hi => (byte_low32 _ ?_).trans (hshift _))).trans rfl
  · have hlt := List.mem_range.1 hi
    omega
  · have hlt := List.mem_range.1 hi
    omega

theorem disp8 (disp : U32) : [disp.setWidth 8] = leBytes 1 (disp.setWidth 8) := by
  rw [leBytes_eq]
  rfl

namespace Emit

variable (e : Emit)

@[simp] theorem put_code (b : U8) : (e.put b).code = e.code.putAll [b] := rfl

@[simp] theorem put32_code (v : U32) : (e.put32 v).code = e.code.putAll (leBytes 4 v) := by
  rw [← bytes32]
  rfl

@[simp] theorem put16_code (v : U16) : (e.put16 v).code = e.code.putAll (leBytes 2 v) := by
  rw [← bytes16]
  rfl

@[simp] theorem rex_code (w : Bool) (r b : BitVec 4) :
    (e.rex w r b).code = e.code.putAll (rexBytes w r b) := by
  unfold rex rexBytes
  split_ifs
  · rfl
  · rfl

@[simp] theorem modrmReg_code (reg rm : BitVec 4) :
    (e.modrmReg reg rm).code = e.code.putAll [modRmByte 3 reg rm] := rfl

@[simp] theorem modrmMem_code (reg base : BitVec 4) (disp : U32) :
    (e.modrmMem reg base disp).code = e.code.putAll (memBytes reg base disp) := by
  unfold modrmMem memBytes sibBytes dispBytes
  generalize dispMode base disp = mode
  by_cases hsib : base.setWidth 8 &&& 7 = (4 : U8)
  · simp only [if_pos hsib]
    split_ifs
    · rw [← disp8]
      rfl
    · rw [put32_code]
      rfl
    · rfl
  · simp only [if_neg hsib]
    split_ifs
    · rw [← disp8]
      rfl
    · rw [put32_code]
      rfl
    · rfl

@[simp] theorem highPrefix_code (r : BitVec 4) :
    (e.highPrefix r).code = e.code.putAll (rexBytes false 0 r) := by
  have hbytes : (if 8 ≤ r then [(0x41 : U8)] else []) = rexBytes false 0 r := by
    revert r
    decide
  rw [← hbytes, highPrefix]
  split_ifs
  · rfl
  · rfl

end Emit

@[simp] theorem leBytes_one (b : U8) : leBytes 1 b = [b] := by
  rw [leBytes_eq]
  exact congrArg (fun b => [b]) (BitVec.ushiftRight_zero b)

/-- A digit needs no REX. -/
theorem rexBytes_digit {digit : BitVec 4} (h : digit.getLsbD 3 = false) (w : Bool)
    (b : BitVec 4) : rexBytes w digit b = rexBytes w 0 b := by
  have hbit : digit.setWidth 8 >>> 3 = (0 : BitVec 4).setWidth 8 >>> 3 := by
    revert digit
    decide
  unfold rexBytes rexValue
  rw [hbit]

theorem rexBytes_alu (op : EmitAlu) (w : Bool) (b : BitVec 4) :
    rexBytes w op.code b = rexBytes w 0 b := by
  cases op <;> exact rexBytes_digit rfl w b

theorem rexBytes_shift (op : EmitShift) (w : Bool) (b : BitVec 4) :
    rexBytes w op.code b = rexBytes w 0 b := by
  cases op <;> exact rexBytes_digit rfl w b

theorem rexBytes_low {r : BitVec 4} (h : ¬ HostReg.rbx.code < r) : rexBytes false 0#4 r = [] := by
  revert r
  decide

theorem rexBytes_x87 (digit st : BitVec 3) :
    rexBytes false (digit.setWidth 4) (st.setWidth 4) = [] := by
  rw [rexBytes_digit (by simp)]
  revert st
  decide

theorem modRm_zero (rm : BitVec 4) : 0xC0#8 ||| rm.setWidth 8 &&& 7#8 = modRmByte 3#8 0#4 rm := by
  revert rm
  decide

theorem modRm_call (rm : BitVec 4) : 0xD0#8 ||| rm.setWidth 8 &&& 7#8 = modRmByte 3#8 2#4 rm := by
  revert rm
  decide

theorem modRm_jmp (rm : BitVec 4) : 0xE0#8 ||| rm.setWidth 8 &&& 7#8 = modRmByte 3#8 4#4 rm := by
  revert rm
  decide

theorem modRm_x87 (digit st : BitVec 3) :
    0xC0#8 ||| digit.setWidth 8 <<< 3 ||| st.setWidth 8 =
      modRmByte 3#8 (digit.setWidth 4) (st.setWidth 4) := by
  revert digit st
  decide

theorem bswap_low (r : BitVec 4) :
    0xC8#8 ||| r.setWidth 8 &&& 7#8 = 0xC8#8 + (r.setWidth 8 &&& 7#8) := by
  revert r
  decide

theorem Form.emit_code {f : Form} (hf : ¬ f.Refused) (e : Emit) :
    (f.emit e).code = e.code.putAll f.bytes := by
  cases f with
  | movR32Imm32 dst imm => simp [Form.emit, Form.bytes, Emit.movR32Imm32, lowForm]
  | movR64R64 dst src => simp [Form.emit, Form.bytes, Emit.movR64R64, regForm]
  | movR32R32 dst src => simp [Form.emit, Form.bytes, Emit.movR32R32, regForm]
  | load32 dst base disp => simp [Form.emit, Form.bytes, Emit.load32, memForm]
  | load64 dst base disp => simp [Form.emit, Form.bytes, Emit.load64, memForm]
  | imulR64R64 dst src => simp [Form.emit, Form.bytes, Emit.imulR64R64, regForm]
  | store32 base disp src => simp [Form.emit, Form.bytes, Emit.store32, memForm]
  | store64 base disp src => simp [Form.emit, Form.bytes, Emit.store64, memForm]
  | movR64Imm64 dst imm =>
    rw [Form.emit, Emit.movR64Imm64, Form.bytes, ← bytes64]
    simp [lowForm]
  | lea64 dst base disp => simp [Form.emit, Form.bytes, Emit.lea64, memForm]
  | store32Imm base disp imm => simp [Form.emit, Form.bytes, Emit.store32Imm, memForm]
  | store8Imm base disp imm => simp [Form.emit, Form.bytes, Emit.store8Imm, memForm]
  | aluR32R32 op dst src => simp [Form.emit, Form.bytes, Emit.aluR32R32, regForm]
  | aluR32Imm32 op dst imm =>
    unfold Form.emit Form.bytes Emit.aluR32Imm32
    by_cases hshort : -128 ≤ imm.toInt ∧ imm.toInt ≤ 127
    · simp [hshort, regForm, rexBytes_alu]
    · simp [hshort, regForm, rexBytes_alu]
  | aluR64R64 op dst src => simp [Form.emit, Form.bytes, Emit.aluR64R64, regForm]
  | shiftR32Imm8 op dst count =>
    simp [Form.emit, Form.bytes, Emit.shiftR32Imm8, regForm, rexBytes_shift]
  | bswapR32 dst => simp [Form.emit, Form.bytes, Emit.bswapR32, lowForm, bswap_low]
  | shiftR64Imm8 op dst count =>
    simp [Form.emit, Form.bytes, Emit.shiftR64Imm8, regForm, rexBytes_shift]
  | shiftR32Cl op dst => simp [Form.emit, Form.bytes, Emit.shiftR32Cl, regForm, rexBytes_shift]
  | movupsLoad dst base disp => simp [Form.emit, Form.bytes, Emit.movupsLoad, memForm]
  | movupsStore base disp src => simp [Form.emit, Form.bytes, Emit.movupsStore, memForm]
  | packedPs op dst src => simp [Form.emit, Form.bytes, Emit.packedPs, regForm]
  | halfLoad op dst base disp => simp [Form.emit, Form.bytes, Emit.halfLoad, memForm]
  | movssLoad dst base disp => simp [Form.emit, Form.bytes, Emit.movssLoad, memForm]
  | movssRr dst src => simp [Form.emit, Form.bytes, Emit.movssRr, regForm]
  | shufps dst src imm => simp [Form.emit, Form.bytes, Emit.shufps, regForm]
  | testR32R32 a b => simp [Form.emit, Form.bytes, Emit.testR32R32, regForm]
  | testR32Imm32 a imm => simp [Form.emit, Form.bytes, Emit.testR32Imm32, regForm, modRm_zero]
  | cmovccR32R32 cc dst src => simp [Form.emit, Form.bytes, Emit.cmovccR32R32, regForm]
  | aluR32Mem op dst base disp => simp [Form.emit, Form.bytes, Emit.aluR32Mem, memForm]
  | aluR64Mem op dst base disp => simp [Form.emit, Form.bytes, Emit.aluR64Mem, memForm]
  | setccR8 cc dst =>
    have hdst : ¬ HostReg.rbx.code < dst.code := hf
    simp [Form.emit, Form.bytes, Emit.setccR8, regForm, modRm_zero, hdst, rexBytes_low hdst]
  | store8Reg base disp src =>
    have hsrc : ¬ HostReg.rbx.code < src.code := hf
    simp [Form.emit, Form.bytes, Emit.store8Reg, memForm, hsrc]
  | load8Zx dst base disp => simp [Form.emit, Form.bytes, Emit.load8Zx, memForm]
  | load16Zx dst base disp => simp [Form.emit, Form.bytes, Emit.load16Zx, memForm]
  | store16Reg base disp src => simp [Form.emit, Form.bytes, Emit.store16Reg, memForm]
  | store16Imm base disp imm => simp [Form.emit, Form.bytes, Emit.store16Imm, memForm]
  | aluR64Imm8 op dst imm => simp [Form.emit, Form.bytes, Emit.aluR64Imm8, regForm, rexBytes_alu]
  | orM16Imm16 base disp imm =>
    simp [Form.emit, Form.bytes, Emit.orM16Imm16, memForm, rexBytes_digit]
  | x87M escape digit base disp =>
    have hdigit := @rexBytes_digit ((digit &&& 7).setWidth 4) (by simp) false base.code
    simp only [Form.emit, Form.bytes, Emit.x87M, memForm, hdigit]
    simp
  | x87Reg escape digit st =>
    simp [Form.emit, Form.bytes, Emit.x87Reg, regForm, rexBytes_x87, modRm_x87]
  | pushR64 r => simp [Form.emit, Form.bytes, Emit.pushR64, lowForm]
  | popR64 r => simp [Form.emit, Form.bytes, Emit.popR64, lowForm]
  | ret => simp [Form.emit, Form.bytes, Emit.ret]
  | callR64 target =>
    simp [Form.emit, Form.bytes, Emit.callR64, regForm, rexBytes_digit, modRm_call]
  | decM64 base disp => simp [Form.emit, Form.bytes, Emit.decM64, memForm, rexBytes_digit]
  | jmpM64 base disp => simp [Form.emit, Form.bytes, Emit.jmpM64, memForm, rexBytes_digit]
  | jmpR64 target =>
    simp [Form.emit, Form.bytes, Emit.jmpR64, regForm, rexBytes_digit, modRm_jmp]

end X86Port.X64
