import X86Port.Cpu.Exec
import X86Port.Memory.Places
import X86Port.Simd.Int
import X86Port.X87.State

/-!
# SIMD instructions

`x86p_simd_execute` and `x86p_simd_execute_host` of `simd.c`, on a host that keeps the MMX
registers. The lane modules of the floating-point operations and of 3DNow! are functions that the
execution is given.

* `Port`: how the memory operand is reached: a guest address, or host bytes of a known number.
* `execute`: one body for both ports, as in the source.
* `simdMemoryBytes`: `x86p_simd_memory_bytes`.
-/

namespace X86Port.Simd

open Cpu (Reg Operand OperandKind Width X86Cpu Flags regRead regWrite)
open Lib Lib.Lanes
open Memory (Mem Host readBytes writeBytes)

/-! ## The state -/

/-- `X86pCpu`, as far as the SIMD instructions reach it. -/
structure SimdCpu extends X86Cpu where
  xmm : Fin 8 → BitVec 128
  x87 : X87.Fpu
  mxcsr : U32

structure State where
  cpu : SimdCpu
  mem : Host

/-- How an instruction stops: the statuses that are not success, what C leaves undefined, and the
diagnostic that ends the process. -/
inductive SimdStop where
  | fault (addr : U32)
  | unsupported
  | undefined
  | fatal
  deriving DecidableEq

abbrev Run := EStateM SimdStop State

/-- `x86p_x87_mmx_read`. -/
def mmxRead (f : X87.Fpu) (n : Fin 8) : U64 := (f.reg n).signif

/-- `x86p_x87_mmx_write`: the whole file becomes valid. -/
def mmxWrite (f : X87.Fpu) (n : Fin 8) (v : U64) : X87.Fpu :=
  { f with reg := Function.update f.reg n ⟨v, 0xFFFF⟩, tag := fun _ => X87.tagValid }

/-- `x86p_x87_emms`. -/
def emms (f : X87.Fpu) : X87.Fpu := { f with tag := fun _ => X87.tagEmpty }

/-! ## Instructions -/

/-- A decoded SIMD instruction. `dest` is the register number of the first operand, which is -1
when that is not a register. -/
structure SimdInsn where
  simd : SimdOp
  pf : U8
  operands : Nat
  operand0 : Operand
  operand1 : Operand
  operand2 : Operand
  dest : Option Reg

/-- The lane modules, and whether the host has the approximation instructions. -/
structure Evaluators where
  float : SimdOp → Vec → Vec → U8 → Flags → Option (Vec × Flags)
  double : SimdOp → Vec → Vec → U8 → Flags → Option (Vec × Flags)
  threeDNow : U8 → U64 → U64 → Option U64
  approx : Bool

def isRefused (approx : Bool) (op : SimdOp) : Bool :=
  !approx && (op = .rcpps || op = .rcpss || op = .rsqrtps || op = .rsqrtss)

def writesFlags (op : SimdOp) : Bool :=
  op = .comiss || op = .ucomiss || op = .comisd || op = .ucomisd

/-! ## Operands -/

/-- Bytes of memory, the first in the lowest bits. -/
def Vec.ofBytes (l : List U8) (bytes : Nat) : Vec :=
  ⟨l.foldr (fun x r => r <<< 8 ||| x.setWidth 128) 0, bytes⟩

def Vec.toBytes (v : Vec) (n : Nat) : List U8 := (List.range n).map v.u8

/-- `address_of`, which sums whole registers whatever the address size. -/
def addressOf (c : X86Cpu) (o : Operand) : U32 :=
  let addr := o.disp
  let addr := match o.base with
    | some base => addr + c.reg base
    | none => addr
  let addr := match o.index with
    | some index => addr + c.reg index * BitVec.ofNat 32 o.scale
    | none => addr
  match o.seg with
  | .fs => addr + c.fsBase
  | .gs => addr + c.gsBase
  | _ => addr

/-- How the memory operand is reached. -/
structure Port where
  read : State → Operand → Nat → Except SimdStop (List U8)
  write : State → Operand → List U8 → Except SimdStop Host

def guestPort (m : Mem) : Port where
  read s o n :=
    let addr := addressOf s.cpu.toX86Cpu o
    match (readBytes m s.mem addr (BitVec.ofNat 32 n)).join with
    | some l => .ok l
    | none => .error (.fault addr)
  write s o l :=
    let addr := addressOf s.cpu.toX86Cpu o
    match (writeBytes m s.mem addr l).join with
    | some mem => .ok mem
    | none => .error (.fault addr)

/-- Host bytes at `p`, of which a block has guarded `hostBytes`. -/
def hostPort (p hostBytes : Nat) : Port where
  read s _ n := if n > hostBytes then .error .unsupported else .ok (Bytes.load s.mem.bytes p n)
  write s _ l := if l.length > hostBytes then .error .unsupported else .ok (s.mem.store p l)

section Operands

variable (P : Port)

def getCpu : Run SimdCpu := fun s => .ok s.cpu s

def setCpu (c : SimdCpu) : Run Unit := fun s => .ok () { s with cpu := c }

def orStop {α : Type} : Except SimdStop α → Run α
  | .ok a => pure a
  | .error e => throw e

/-- `x86p_reg_read` and `x86p_reg_write` end the process at any other width. -/
def widthOf (size : Nat) : Run Width :=
  match Width.ofBytes size with
  | some w => pure w
  | none => throw .fatal

def readVec (o : Operand) (bytes : Nat) : Run Vec := do
  let c ← getCpu
  match o.kind with
  | .mmx => return ⟨(mmxRead c.x87 o.reg).setWidth 128, bytes⟩
  | .xmm => return ⟨c.xmm o.reg, bytes⟩
  | .reg =>
    let w ← widthOf o.size
    return ⟨(regRead c.toCpuState o.reg w).setWidth 128, bytes⟩
  | .imm => return ⟨o.imm.setWidth 128, bytes⟩
  | .mem => fun s => (do return .ofBytes (← orStop (P.read s o bytes)) bytes : Run Vec) s
  | _ => throw .unsupported

/-- A write narrower than an XMM register leaves the rest of it alone. -/
def writeVec (o : Operand) (bytes : Nat) (v : Vec) : Run Unit := do
  let c ← getCpu
  match o.kind with
  | .mmx => setCpu { c with x87 := mmxWrite c.x87 o.reg (v.u64 0) }
  | .xmm => setCpu { c with
      xmm := Function.update c.xmm o.reg
        (setBits (c.xmm o.reg) 0 (v.b.extractLsb' 0 (8 * bytes))) }
  | .reg =>
    let w ← widthOf o.size
    setCpu { c with toX86Cpu := { c.toX86Cpu with
      toCpuState := regWrite c.toCpuState o.reg w (v.u32 0) } }
  | .mem => fun s => (do
      let mem ← orStop (P.write s o (v.toBytes bytes))
      set { s with mem } : Run Unit) s
  | _ => throw .unsupported

/-- `x86p_reg_write` of a whole register, by the number in the first operand. -/
def writeDest (dest : Option Reg) (v : U32) : Run Unit :=
  match dest with
  | none => pure ()
  | some r => do
    let c ← getCpu
    setCpu { c with toX86Cpu := { c.toX86Cpu with
      toCpuState := regWrite c.toCpuState r .dword v } }

end Operands

/-! ## Widths -/

def regWidth (i : SimdInsn) : Nat :=
  if (1 ≤ i.operands ∧ i.operand0.kind = .xmm) ∨ (2 ≤ i.operands ∧ i.operand1.kind = .xmm) ∨
    (3 ≤ i.operands ∧ i.operand2.kind = .xmm) then 16 else 8

/-- The widths of source and destination of the regular two-operand shape. -/
def genericWidths (op : SimdOp) (fromMemory : Bool) (w : Nat) : Nat × Nat :=
  match op with
  | .cvtsi2ss | .cvtsi2sd => (4, 16)
  | .cvtss2si | .cvttss2si => (4, 4)
  | .cvtsd2si | .cvttsd2si => (8, 4)
  | .cvtpi2ps | .cvtpi2pd => (8, 16)
  | .cvtps2pi | .cvttps2pi => (if fromMemory then 8 else 16, 8)
  | .cvtpd2pi | .cvttpd2pi => (16, 8)
  | .cvtps2pd | .cvtdq2pd | .addsd | .subsd | .mulsd | .divsd | .minsd | .maxsd | .sqrtsd
  | .cmpsd | .comisd | .ucomisd | .cvtsd2ss => (if fromMemory then 8 else w, w)
  | .addss | .subss | .mulss | .divss | .minss | .maxss | .sqrtss | .rcpss | .rsqrtss
  | .cmpss | .comiss | .ucomiss | .cvtss2sd => (if fromMemory then 4 else w, w)
  | _ => (w, w)

def simdMemoryBytes (i : SimdInsn) : Nat :=
  match i.simd with
  | .movq | .movlps | .movhps | .movsd => 8
  | .movd | .movss | .ldmxcsr | .stmxcsr => 4
  | .movaps => 16
  | .pinsrw => 2
  | .pf => 8
  | .prefetch | .fence | .emms | .maskmovdqu => 0
  | op => (genericWidths op (i.operand1.kind = .mem) (regWidth i)).1

/-! ## Execution -/

section Execute

variable (E : Evaluators) (P : Port) (i : SimdInsn)

/-- The immediate of the three-operand forms. -/
def immediate : U8 :=
  if 3 ≤ i.operands ∧ i.operand2.kind = .imm then i.operand2.imm.setWidth 8 else 0

def executeMovq : Run Unit := do
  let b ← readVec P i.operand1 8
  if i.operand0.kind = .xmm then
    writeVec P i.operand0 16 ⟨(b.u64 0).setWidth 128, 16⟩
  else writeVec P i.operand0 8 b

def executeMovd : Run Unit := do
  let b ← readVec P i.operand1 4
  let r := (b.u32 0).setWidth 128
  if i.operand0.kind = .reg ∨ i.operand0.kind = .mem then writeVec P i.operand0 4 ⟨r, 4⟩
  else
    let bytes := if i.operand0.kind = .xmm then 16 else 8
    writeVec P i.operand0 bytes ⟨r, bytes⟩

def executeMovaps : Run Unit := do
  let bytes := if i.operand0.kind = .xmm ∨ i.operand1.kind = .xmm then 16 else 8
  let b ← readVec P i.operand1 bytes
  writeVec P i.operand0 bytes b

/-- From memory the rest of the register is zeroed; from a register it is kept. -/
def executeMovScalar (n : Nat) : Run Unit := do
  let b ← readVec P i.operand1 n
  if i.operand0.kind = .xmm ∧ i.operand1.kind = .mem then
    writeVec P i.operand0 16 ⟨setBits (0 : BitVec 128) 0 (b.b.extractLsb' 0 (8 * n)), 16⟩
  else if i.operand0.kind = .xmm then do
    let c ← getCpu
    writeVec P i.operand0 16
      ⟨setBits (c.xmm i.operand0.reg) 0 (b.b.extractLsb' 0 (8 * n)), 16⟩
  else writeVec P i.operand0 n b

def executeMaskmovdqu (write : State → U32 → U8 → Except SimdStop Host) : Run Unit :=
  if i.operand0.kind ≠ .xmm ∨ i.operand1.kind ≠ .xmm then throw .unsupported
  else (List.range 16).forM fun k s => (do
    if (lane 8 (s.cpu.xmm i.operand1.reg) k) &&& 0x80 ≠ 0 then
      let mem ← orStop (write s (s.cpu.reg Cpu.edi + BitVec.ofNat 32 k)
        (lane 8 (s.cpu.xmm i.operand0.reg) k))
      set { s with mem }
    else pure () : Run Unit) s

/-- MOVLPS and MOVHPS, by the byte that the half starts at. -/
def executeMovHalf (half : Nat) : Run Unit := do
  if i.operand0.kind = .mem then do
    let c ← getCpu
    writeVec P i.operand0 8 ⟨((c.xmm i.operand1.reg).extractLsb' (8 * half) 64).setWidth 128, 8⟩
  else do
    let b ← readVec P i.operand1 8
    let c ← getCpu
    writeVec P i.operand0 16 ⟨setBits (c.xmm i.operand0.reg) (8 * half) (b.u64 0), 16⟩

/-- MOVHLPS and MOVLHPS. -/
def executeMovAcross (target source : Nat) : Run Unit :=
  if i.operand0.kind ≠ .xmm ∨ i.operand1.kind ≠ .xmm then throw .unsupported
  else do
    let c ← getCpu
    writeVec P i.operand0 16 ⟨setBits (c.xmm i.operand0.reg) (8 * target)
      ((c.xmm i.operand1.reg).extractLsb' (8 * source) 64), 16⟩

/-- The top bits of `count` lanes of `w` bits. -/
def signMask (w count : Nat) (v : Vec) : U32 :=
  (List.range count).foldl
    (fun mask k => mask ||| ((lane w v.b k >>> (w - 1)).setWidth 32 &&& 1) <<< k) 0

/-- MOVMSKPS, MOVMSKPD and PMOVMSKB. -/
def executeMask (mask : Nat → Vec → U32) : Run Unit := do
  let bytes := if i.operand1.kind = .xmm then 16 else 8
  let b ← readVec P i.operand1 bytes
  writeDest i.dest (mask bytes b)

def executePextrw : Run Unit := do
  let bytes := if i.operand1.kind = .xmm then 16 else 8
  let b ← readVec P i.operand1 bytes
  let sel := (immediate i).toNat &&& (if bytes = 16 then 7 else 3)
  writeDest i.dest ((b.u16 sel).setWidth 32)

def executePinsrw : Run Unit := do
  let w := regWidth i
  let a ← readVec P i.operand0 w
  let b ← readVec P i.operand1 2
  let sel := (immediate i).toNat &&& (if w = 16 then 7 else 3)
  writeVec P i.operand0 w ⟨setLane a.b sel ((b.u32 0).setWidth 16), a.bytes⟩

def executePf : Run Unit := do
  let a ← readVec P i.operand0 8
  let b ← readVec P i.operand1 8
  match E.threeDNow i.pf (a.u64 0) (b.u64 0) with
  | none => throw .unsupported
  | some q => writeVec P i.operand0 8 ⟨q.setWidth 128, 8⟩

/-- What a lane module answers: a vector, and the flags of a comparison. -/
def lanes (op : SimdOp) (a b : Vec) (imm : U8) (f : Flags) :
    Except SimdStop (Vec × Flags × Bool) :=
  match simdInt a b imm op with
  | .ok r => .ok (r, f, true)
  | .error .signedOverflow => .error .undefined
  | .error .unsupported =>
    match E.float op a b imm f with
    | some (r, f) => .ok (r, f, !writesFlags op)
    | none =>
      match E.double op a b imm f with
      | some (r, f) => .ok (r, f, !writesFlags op)
      | none => .error .unsupported

/-- The regular two-operand shape. -/
def executeGeneric : Run Unit := do
  let (srcBytes, dstBytes) := genericWidths i.simd (i.operand1.kind = .mem) (regWidth i)
  let a ← readVec P i.operand0 dstBytes
  let b ← readVec P i.operand1 srcBytes
  let b := { b with bytes := if srcBytes < dstBytes then dstBytes else srcBytes }
  let c ← getCpu
  let (r, f, writes) ← orStop (lanes E i.simd a b (immediate i) c.flags)
  setCpu { c with flags := f }
  if writes then writeVec P i.operand0 r.bytes r else pure ()

/-- The cases of the switch; the others take the regular shape. -/
def special (write : State → U32 → U8 → Except SimdStop Host) : Option (Run Unit) :=
  match i.simd with
  | .emms => some do
      let c ← getCpu
      setCpu { c with x87 := emms c.x87 }
  | .fence | .prefetch => some (pure ())
  | .stmxcsr => some do
      let c ← getCpu
      writeVec P i.operand0 4 ⟨c.mxcsr.setWidth 128, 4⟩
  | .ldmxcsr => some do
      let a ← readVec P i.operand0 4
      let c ← getCpu
      setCpu { c with mxcsr := a.u32 0 }
  | .movq => some (executeMovq P i)
  | .movd => some (executeMovd P i)
  | .movaps => some (executeMovaps P i)
  | .movss => some (executeMovScalar P i 4)
  | .movsd => some (executeMovScalar P i 8)
  | .maskmovdqu => some (executeMaskmovdqu i write)
  | .movlps => some (executeMovHalf P i 0)
  | .movhps => some (executeMovHalf P i 8)
  | .movhlps => some (executeMovAcross P i 0 8)
  | .movlhps => some (executeMovAcross P i 8 0)
  | .movmskps => some (executeMask P i fun bytes => signMask 32 (bytes / 4))
  | .movmskpd => some (executeMask P i fun _ => signMask 64 2)
  | .pmovmskb => some (executeMask P i fun bytes => signMask 8 bytes)
  | .pextrw => some (executePextrw P i)
  | .pinsrw => some (executePinsrw P i)
  | .pf => some (executePf E P i)
  | _ => none

def execute (write : State → U32 → U8 → Except SimdStop Host) : Run Unit :=
  if isRefused E.approx i.simd then throw .unsupported
  else (special E P i write).getD (executeGeneric E P i)

end Execute

/-- MASKMOVDQU stores byte by byte through the guest memory. -/
def guestByte (m : Mem) (s : State) (addr : U32) (x : U8) : Except SimdStop Host :=
  match (writeBytes m s.mem addr [x]).join with
  | some mem => .ok mem
  | none => .error (.fault addr)

/-- `x86p_simd_execute`. -/
def simdExecute (E : Evaluators) (m : Mem) (i : SimdInsn) : Run Unit :=
  execute E (guestPort m) i (guestByte m)

/-- `x86p_simd_execute_host` on a pointer that is not null. -/
def simdExecuteHost (E : Evaluators) (p : Nat) (i : SimdInsn) : Run Unit :=
  if i.simd = .maskmovdqu then throw .unsupported
  else execute E (hostPort p (simdMemoryBytes i)) i fun _ _ _ => .error .unsupported

end X86Port.Simd
