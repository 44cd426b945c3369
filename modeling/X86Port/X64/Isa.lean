import X86Port.Lib.Reader
import X86Port.Word

/-!
# Reading x86-64 instructions

The instruction format in 64-bit mode: a legacy prefix, REX, the opcode, ModRM with SIB and
displacement, and an immediate. Of the opcodes there are the ones that `emit_x64.c` uses, each
with all its operands.

* `reads_le`: little-endian numbers.
* `decode`: the first instruction of some bytes.
-/

namespace X86Port.X64

open Lib (Reader Reads)

/-! ## Operands -/

/-- What an address is reckoned from: nothing, a register, or the next instruction. -/
inductive AddressBase where
  | zero
  | reg (n : BitVec 4)
  | next
deriving DecidableEq

/-- A memory operand, its index with the exponent of the scale. -/
structure MemOperand where
  base : AddressBase
  index : Option (BitVec 4 × BitVec 2)
  disp : U64
deriving DecidableEq

/-- `gpr` is of the instruction's size; the registers AH, CH, DH and BH are `high`. -/
inductive Operand where
  | gpr (n : BitVec 4)
  | high (n : BitVec 2)
  | cl
  | xmm (n : BitVec 4)
  | st (n : BitVec 3)
  | mem (m : MemOperand)
  | imm (v : U64)
deriving DecidableEq

inductive AluName where
  | add
  | or
  | adc
  | sbb
  | and
  | sub
  | xor
  | cmp
deriving DecidableEq

inductive ShiftName where
  | rol
  | ror
  | rcl
  | rcr
  | shl
  | shr
  | sar
deriving DecidableEq

inductive PackedName where
  | andps
  | andnps
  | orps
  | xorps
  | addps
  | mulps
  | subps
  | divps
  | movhlps
  | movlhps
deriving DecidableEq

/-- An x87 operation is named by its escape opcode and digit. -/
inductive Mnemonic where
  | mov
  | movzx (width : Nat)
  | lea
  | imul
  | alu (op : AluName)
  | shift (op : ShiftName)
  | bswap
  | test
  | dec
  | cmov (cc : BitVec 4)
  | set (cc : BitVec 4)
  | movups
  | movss
  | movlps
  | movhps
  | packed (op : PackedName)
  | shufps
  | x87 (escape digit : BitVec 3)
  | push
  | pop
  | ret
  | call
  | jmp
  | jcc (cc : BitVec 4)
  | nop
deriving DecidableEq

/-- An instruction, its operand size in bits, and its operands, the destination first. -/
structure HostInstr where
  op : Mnemonic
  size : Nat
  operands : List Operand
deriving DecidableEq

/-! ## Prefixes and fields -/

structure Rex where
  w : Bool
  r : Bool
  x : Bool
  b : Bool
deriving DecidableEq

def noRex : Rex := ⟨false, false, false, false⟩

/-- A register number from its REX bit and its three bits in the instruction. -/
def number (ext : Bool) (low : BitVec 3) : BitVec 4 := BitVec.ofBool ext ++ low

def lowField (b : U8) : BitVec 3 := b.extractLsb' 0 3

def midField (b : U8) : BitVec 3 := b.extractLsb' 3 3

def topField (b : U8) : BitVec 2 := b.extractLsb' 6 2

def IsLegacy (b : U8) : Prop := b = 0x66 ∨ b = 0xF2 ∨ b = 0xF3

instance (b : U8) : Decidable (IsLegacy b) :=
  inferInstanceAs (Decidable (b = 0x66 ∨ b = 0xF2 ∨ b = 0xF3))

def IsRex (b : U8) : Prop := b.extractLsb' 4 4 = 4#4

instance (b : U8) : Decidable (IsRex b) := inferInstanceAs (Decidable (b.extractLsb' 4 4 = 4#4))

/-- At most one legacy prefix. -/
def readLegacy : Reader U8 (Option U8)
  | [] => none
  | b :: rest => if IsLegacy b then some (some b, rest) else some (none, b :: rest)

/-- REX is the last prefix. -/
def readRex : Reader U8 (Option Rex)
  | [] => none
  | b :: rest =>
    if IsRex b then
      some (some ⟨b.getLsbD 3, b.getLsbD 2, b.getLsbD 1, b.getLsbD 0⟩, rest)
    else some (none, b :: rest)

/-- A little-endian number of `n` bytes. -/
def le : (n : Nat) → Reader U8 (BitVec (8 * n))
  | 0 => pure 0
  | n + 1 => do
    let b ← Reader.item
    let rest ← le n
    pure (rest ++ b)

def readDisp (mode : BitVec 2) : Reader U8 U64 :=
  if mode = 0 then pure 0
  else if mode = 1 then (fun b : BitVec (8 * 1) => b.signExtend 64) <$> le 1
  else (fun v : BitVec (8 * 4) => v.signExtend 64) <$> le 4

/-- SIB: no index is spelled as RSP, and no base as RBP without a displacement. -/
def readSib (rex : Rex) (mode : BitVec 2) : Reader U8 MemOperand := do
  let sib ← Reader.item
  let index := if number rex.x (midField sib) = 4 then none
    else some (number rex.x (midField sib), topField sib)
  if mode = 0 ∧ lowField sib = 5 then do
    let disp ← readDisp 2
    pure ⟨.zero, index, disp⟩
  else do
    let disp ← readDisp mode
    pure ⟨.reg (number rex.b (lowField sib)), index, disp⟩

def readMem (rex : Rex) (mode : BitVec 2) (rm : BitVec 3) : Reader U8 MemOperand :=
  if rm = 4 then readSib rex mode
  else if mode = 0 ∧ rm = 5 then (MemOperand.mk .next none) <$> readDisp 2
  else (MemOperand.mk (.reg (number rex.b rm)) none) <$> readDisp mode

/-- The register or memory that ModRM names. -/
inductive RegOrMem where
  | reg (n : BitVec 4)
  | mem (m : MemOperand)

/-- ModRM: the register field and the operand. -/
def readModRm (rex : Rex) : Reader U8 (BitVec 4 × RegOrMem) := do
  let b ← Reader.item
  let reg := number rex.r (midField b)
  if topField b = 3 then pure (reg, .reg (number rex.b (lowField b)))
  else (fun m => (reg, RegOrMem.mem m)) <$> readMem rex (topField b) (lowField b)

def RegOrMem.gpr : RegOrMem → Operand
  | .reg n => .gpr n
  | .mem m => .mem m

def RegOrMem.xmm : RegOrMem → Operand
  | .reg n => .xmm n
  | .mem m => .mem m

/-- Without REX the byte registers four to seven are the high bytes of the first four. -/
def byteReg (rex : Option Rex) (n : BitVec 4) : Operand :=
  if rex = none ∧ 4 ≤ n then .high (n.extractLsb' 0 2) else .gpr n

def RegOrMem.byte (rex : Option Rex) : RegOrMem → Operand
  | .reg n => byteReg rex n
  | .mem m => .mem m

/-! ## The opcode tables -/

/-- The immediates: a byte, a byte that is sign-extended to the operand, a number of at most four
bytes that is, a distance of four bytes, and a number of the operand's own size. -/
inductive ImmForm where
  | none
  | byte
  | signedByte
  | signed
  | rel
  | whole
deriving DecidableEq

def immBytes (size : Nat) : Nat := if size = 16 then 2 else 4

/-- The immediate as the operand sees it. -/
def readImm (size : Nat) : ImmForm → Reader U8 U64
  | .none => pure 0
  | .byte => (fun b : BitVec (8 * 1) => b.setWidth 64) <$> le 1
  | .signedByte => (fun b : BitVec (8 * 1) => (b.signExtend size).setWidth 64) <$> le 1
  | .signed => (fun v : BitVec (8 * immBytes size) => (v.signExtend size).setWidth 64) <$>
      le (immBytes size)
  | .rel => (fun v : BitVec (8 * 4) => v.signExtend 64) <$> le 4
  | .whole => (fun v : BitVec (8 * (size / 8)) => v.setWidth 64) <$> le (size / 8)

/-- An opcode's layout with what it means: a ModRM byte and an immediate, a register in the
opcode's low bits and an immediate, or an immediate alone. -/
inductive Layout where
  | modRm (imm : ImmForm) (build : BitVec 4 → RegOrMem → U64 → Option HostInstr)
  | low (imm : ImmForm) (build : BitVec 4 → U64 → HostInstr)
  | bare (imm : ImmForm) (build : U64 → HostInstr)

def aluName (n : BitVec 3) : AluName :=
  if n = 0 then .add else if n = 1 then .or else if n = 2 then .adc else if n = 3 then .sbb
  else if n = 4 then .and else if n = 5 then .sub else if n = 6 then .xor else .cmp

def shiftName (n : BitVec 3) : Option ShiftName :=
  if n = 0 then some .rol else if n = 1 then some .ror else if n = 2 then some .rcl
  else if n = 3 then some .rcr else if n = 4 then some .shl else if n = 5 then some .shr
  else if n = 7 then some .sar else none

/-- The digit of a group: the register field without its REX bit. -/
def digit (reg : BitVec 4) : BitVec 3 := reg.setWidth 3

/-- The one-byte opcodes, with no prefix or `0x66`. -/
def oneByte (rex : Option Rex) (size : Nat) (op : U8) : Option Layout :=
  if op &&& 0xC7 = 0x01 then
    some (.modRm .none fun reg rm _ => some ⟨.alu (aluName (midField op)), size, [rm.gpr, .gpr reg]⟩)
  else if op &&& 0xC7 = 0x03 then
    some (.modRm .none fun reg rm _ => some ⟨.alu (aluName (midField op)), size, [.gpr reg, rm.gpr]⟩)
  else if op &&& 0xF8 = 0x50 ∧ size ≠ 16 then some (.low .none fun r _ => ⟨.push, 64, [.gpr r]⟩)
  else if op &&& 0xF8 = 0x58 ∧ size ≠ 16 then some (.low .none fun r _ => ⟨.pop, 64, [.gpr r]⟩)
  else if op = 0x81 then
    some (.modRm .signed fun reg rm v => some ⟨.alu (aluName (digit reg)), size, [rm.gpr, .imm v]⟩)
  else if op = 0x83 then
    some (.modRm .signedByte fun reg rm v =>
      some ⟨.alu (aluName (digit reg)), size, [rm.gpr, .imm v]⟩)
  else if op = 0x85 then
    some (.modRm .none fun reg rm _ => some ⟨.test, size, [rm.gpr, .gpr reg]⟩)
  else if op = 0x88 then
    some (.modRm .none fun reg rm _ => some ⟨.mov, 8, [rm.byte rex, byteReg rex reg]⟩)
  else if op = 0x89 then
    some (.modRm .none fun reg rm _ => some ⟨.mov, size, [rm.gpr, .gpr reg]⟩)
  else if op = 0x8B then
    some (.modRm .none fun reg rm _ => some ⟨.mov, size, [.gpr reg, rm.gpr]⟩)
  else if op = 0x8D then
    some (.modRm .none fun reg rm _ => match rm with
      | .reg _ => none
      | .mem m => some ⟨.lea, size, [.gpr reg, .mem m]⟩)
  else if op = 0x90 ∧ rex = none then some (.bare .none fun _ => ⟨.nop, size, []⟩)
  else if op &&& 0xF8 = 0xB8 then some (.low .whole fun r v => ⟨.mov, size, [.gpr r, .imm v]⟩)
  else if op = 0xC1 then
    some (.modRm .byte fun reg rm v =>
      (shiftName (digit reg)).map fun name => ⟨.shift name, size, [rm.gpr, .imm v]⟩)
  else if op = 0xC3 ∧ size ≠ 16 then some (.bare .none fun _ => ⟨.ret, 64, []⟩)
  else if op = 0xC6 then
    some (.modRm .byte fun reg rm v =>
      if digit reg = 0 then some ⟨.mov, 8, [rm.byte rex, .imm v]⟩ else none)
  else if op = 0xC7 then
    some (.modRm .signed fun reg rm v =>
      if digit reg = 0 then some ⟨.mov, size, [rm.gpr, .imm v]⟩ else none)
  else if op = 0xD3 then
    some (.modRm .none fun reg rm _ =>
      (shiftName (digit reg)).map fun name => ⟨.shift name, size, [rm.gpr, .cl]⟩)
  else if op &&& 0xF8 = 0xD8 then
    some (.modRm .none fun reg rm _ => match rm with
      | .reg n => some ⟨.x87 (lowField op) (digit reg), 80, [.st (n.setWidth 3)]⟩
      | .mem m => some ⟨.x87 (lowField op) (digit reg), 80, [.mem m]⟩)
  else if op = 0xE8 ∧ size ≠ 16 then some (.bare .rel fun v => ⟨.call, 64, [.imm v]⟩)
  else if op = 0xE9 ∧ size ≠ 16 then some (.bare .rel fun v => ⟨.jmp, 64, [.imm v]⟩)
  else if op = 0xF7 then
    some (.modRm .signed fun reg rm v =>
      if digit reg = 0 then some ⟨.test, size, [rm.gpr, .imm v]⟩ else none)
  else if op = 0xFF then
    some (.modRm .none fun reg rm _ =>
      if digit reg = 1 then some ⟨.dec, size, [rm.gpr]⟩
      else if digit reg = 2 ∧ size ≠ 16 then some ⟨.call, 64, [rm.gpr]⟩
      else if digit reg = 4 ∧ size ≠ 16 then some ⟨.jmp, 64, [rm.gpr]⟩
      else none)
  else none

def packedName (op : U8) : Option PackedName :=
  if op = 0x54 then some .andps else if op = 0x55 then some .andnps
  else if op = 0x56 then some .orps else if op = 0x57 then some .xorps
  else if op = 0x58 then some .addps else if op = 0x59 then some .mulps
  else if op = 0x5C then some .subps else if op = 0x5E then some .divps else none

/-- The opcodes behind `0x0F`. -/
def twoByte (legacy : Option U8) (rex : Option Rex) (size : Nat) (op : U8) : Option Layout :=
  if legacy = some 0xF3 then
    if op = 0x10 then
      some (.modRm .none fun reg rm _ => some ⟨.movss, 32, [.xmm reg, rm.xmm]⟩)
    else none
  else if legacy ≠ none then none
  else if op = 0x10 then
    some (.modRm .none fun reg rm _ => some ⟨.movups, 128, [.xmm reg, rm.xmm]⟩)
  else if op = 0x11 then
    some (.modRm .none fun reg rm _ => some ⟨.movups, 128, [rm.xmm, .xmm reg]⟩)
  else if op = 0x12 then
    some (.modRm .none fun reg rm _ => match rm with
      | .reg n => some ⟨.packed .movhlps, 128, [.xmm reg, .xmm n]⟩
      | .mem m => some ⟨.movlps, 64, [.xmm reg, .mem m]⟩)
  else if op = 0x16 then
    some (.modRm .none fun reg rm _ => match rm with
      | .reg n => some ⟨.packed .movlhps, 128, [.xmm reg, .xmm n]⟩
      | .mem m => some ⟨.movhps, 64, [.xmm reg, .mem m]⟩)
  else if op &&& 0xF0 = 0x40 then
    some (.modRm .none fun reg rm _ => some ⟨.cmov (op.setWidth 4), size, [.gpr reg, rm.gpr]⟩)
  else if op &&& 0xF0 = 0x50 then
    some (.modRm .none fun reg rm _ =>
      (packedName op).map fun name => ⟨.packed name, 128, [.xmm reg, rm.xmm]⟩)
  else if op &&& 0xF0 = 0x80 then
    some (.bare .rel fun v => ⟨.jcc (op.setWidth 4), 64, [.imm v]⟩)
  else if op &&& 0xF0 = 0x90 then
    some (.modRm .none fun _ rm _ => some ⟨.set (op.setWidth 4), 8, [rm.byte rex]⟩)
  else if op = 0xAF then
    some (.modRm .none fun reg rm _ => some ⟨.imul, size, [.gpr reg, rm.gpr]⟩)
  else if op = 0xB6 then
    some (.modRm .none fun reg rm _ => some ⟨.movzx 8, size, [.gpr reg, rm.byte rex]⟩)
  else if op = 0xB7 then
    some (.modRm .none fun reg rm _ => some ⟨.movzx 16, size, [.gpr reg, rm.gpr]⟩)
  else if op = 0xC6 then
    some (.modRm .byte fun reg rm v => some ⟨.shufps, 128, [.xmm reg, rm.xmm, .imm v]⟩)
  else if op &&& 0xF8 = 0xC8 then some (.low .none fun r _ => ⟨.bswap, size, [.gpr r]⟩)
  else none

/-- The size of the operands: REX.W before the prefix `0x66`. -/
def operandSize (legacy : Option U8) (rex : Option Rex) : Nat :=
  if (rex.getD noRex).w then 64 else if legacy = some 0x66 then 16 else 32

def readLayout (rex : Rex) (size : Nat) (op : U8) : Layout → Reader U8 HostInstr
  | .modRm imm build => do
    let (reg, rm) ← readModRm rex
    let v ← readImm size imm
    StateT.lift (build reg rm v)
  | .low imm build => do
    let v ← readImm size imm
    pure (build (number rex.b (lowField op)) v)
  | .bare imm build => build <$> readImm size imm

/-- The opcode with what follows it. -/
def readOpcode (legacy : Option U8) (rex : Option Rex) : Reader U8 HostInstr := do
  let op ← Reader.item
  let size := operandSize legacy rex
  if op = 0x0F then do
    let op ← Reader.item
    let layout ← StateT.lift (twoByte legacy rex size op)
    readLayout (rex.getD noRex) size op layout
  else do
    let layout ← StateT.lift
      (if legacy = none ∨ legacy = some 0x66 then oneByte rex size op else none)
    readLayout (rex.getD noRex) size op layout

def decode : Reader U8 HostInstr := do
  let legacy ← readLegacy
  let rex ← readRex
  readOpcode legacy rex

/-! ## Little-endian numbers -/

def leBytes : (n : Nat) → BitVec (8 * n) → List U8
  | 0, _ => []
  | n + 1, v => v.setWidth 8 :: leBytes n ((v >>> 8).setWidth (8 * n))

theorem append_split {w : Nat} (v : BitVec (w + 8)) :
    (v >>> 8).setWidth w ++ v.setWidth 8 = v := by
  refine BitVec.eq_of_getLsbD_eq fun i hi => ?_
  rw [BitVec.getLsbD_append, BitVec.getLsbD_setWidth, BitVec.getLsbD_setWidth,
    BitVec.getLsbD_ushiftRight]
  by_cases hlow : i < 8
  · simp [hlow]
  · have hsum : 8 + (i - 8) = i := by omega
    have hlt : i - 8 < w := by omega
    simp [hlow, hsum, hlt]

theorem reads_le (n : Nat) (v : BitVec (8 * n)) : Reads (le n) (leBytes n v) v := by
  induction n with
  | zero =>
    have hzero : v = 0 := BitVec.eq_of_toNat_eq (by omega)
    rw [hzero]
    exact Lib.reads_pure 0
  | succ n ih =>
    have hrest := (ih ((v >>> 8).setWidth (8 * n))).map (· ++ v.setWidth 8)
    rw [append_split (w := 8 * n) v] at hrest
    exact (Lib.reads_item _).bind hrest

@[simp] theorem length_leBytes (n : Nat) (v : BitVec (8 * n)) : (leBytes n v).length = n := by
  induction n with
  | zero => rfl
  | succ n ih => rw [leBytes, List.length_cons, ih]

theorem leBytes_eq (n : Nat) (v : BitVec (8 * n)) :
    leBytes n v = (List.range n).map fun i => (v >>> (8 * i)).setWidth 8 := by
  induction n with
  | zero => rfl
  | succ n ih =>
    rw [leBytes, ih, List.range_succ_eq_map, List.map_cons, List.map_map]
    refine congrArg₂ _ ?_ (List.map_congr_left fun i hi => ?_)
    · rw [Nat.mul_zero, BitVec.ushiftRight_zero]
    · have hlt := List.mem_range.1 hi
      refine BitVec.eq_of_getLsbD_eq fun j hj => ?_
      have hplace : 8 * i + j < 8 * n := by omega
      have hsum : 8 + (8 * i + j) = 8 * (i + 1) + j := by omega
      simp [hj, hplace, hsum]

end X86Port.X64
