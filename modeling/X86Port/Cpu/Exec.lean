import X86Port.Cpu.Insn
import X86Port.Cpu.StringOps

/-!
# The interpreter

`exec.c`: what one decoded instruction does to the CPU and to guest memory, and how it can
stop. The memory is a parameter, and so are the families that the source hands to a module of
their own.
-/

namespace X86Port.Cpu

inductive StepStatus where
  | ok
  | decodeFailed
  | unsupported
  | fetchFault
  | memoryFault
  | divideError
  | interrupt
  | protectionFault
  | boundRange
deriving DecidableEq

/-- Why an instruction did not complete: a status with its fault address, or a fatal
diagnostic. -/
inductive Halt where
  | fault (status : StepStatus) (addr : U32)
  | fatal
deriving DecidableEq

/-- The working state of one step. -/
@[ext]
structure Ctx (μ : Type) where
  cpu : X86Cpu
  seg : Reg → U16
  mem : μ
  nextEip : U32

/-- A computation of the interpreter; a refused access leaves the state it found. -/
abbrev Exec (μ α : Type) := EStateM Halt (Ctx μ) α

/-- `x86p_mem_read` and `x86p_mem_write`, with a number of bytes. -/
structure GuestMem (μ : Type) where
  read : μ → U32 → Nat → Option U32
  write : μ → U32 → Nat → U32 → Option μ

variable {μ α : Type}

def Ctx.withRegs (s : Ctx μ) (c : CpuState) : Ctx μ := { s with cpu := { s.cpu with toCpuState := c } }

def Ctx.withFlags (s : Ctx μ) (f : Flags) : Ctx μ :=
  { s with cpu := { s.cpu with flags := f } }

namespace Exec

def fault (status : StepStatus) (addr : U32) : Exec μ α := throw (.fault status addr)

def unsupported : Exec μ α := fault .unsupported 0

def orFatal : Option α → Exec μ α
  | some a => pure a
  | none => throw .fatal

def change (c : Ctx μ → Ctx μ) : Exec μ Unit := fun s => .ok () (c s)

/-- A question about the state without its flags. -/
def ask (q : Ctx μ → α) : Exec μ α := fun s => .ok (q s) s

/-- A question about the flags. -/
def askFlags (q : Flags → α) : Exec μ α := fun s => .ok (q s.cpu.flags) s

/-- An operation that answers and replaces the flags; `none` is fatal. -/
def onFlags (h : Flags → Option (α × Flags)) : Exec μ α := fun s =>
  match h s.cpu.flags with
  | some (a, f) => .ok a (s.withFlags f)
  | none => .error .fatal s

def setExplicit (eflags : U32) : Exec μ Unit := onFlags fun _ => some ((), flagsSetExplicit eflags)

def setNextEip (eip : U32) : Exec μ Unit := change fun s => { s with nextEip := eip }

/-! ## Registers and memory -/

def readReg (index : Reg) (size : Nat) : Exec μ U32 := do
  let w ← orFatal (Width.ofBytes size)
  ask fun s => regRead s.cpu.toCpuState index w

def writeReg (index : Reg) (size : Nat) (value : U32) : Exec μ Unit := do
  let w ← orFatal (Width.ofBytes size)
  change fun s => s.withRegs (regWrite s.cpu.toCpuState index w value)

def setDf (df : Bool) : Exec μ Unit := change fun s => { s with cpu := { s.cpu with df := df } }

section Memory

variable (g : GuestMem μ)

def readMem (addr : U32) (size : Nat) : Exec μ U32 := fun s =>
  match g.read s.mem addr size with
  | some v => .ok v s
  | none => .error (.fault .memoryFault addr) s

def writeMem (addr : U32) (size : Nat) (value : U32) : Exec μ Unit := fun s =>
  match g.write s.mem addr size value with
  | some m => .ok () { s with mem := m }
  | none => .error (.fault .memoryFault addr) s

/-- The store is attempted before ESP moves. -/
def push32 (value : U32) : Exec μ Unit := do
  let top ← ask fun s => s.cpu.reg esp - 4
  writeMem g top 4 value
  writeReg esp 4 top

def pop32 : Exec μ U32 := do
  let top ← ask fun s => s.cpu.reg esp
  let value ← readMem g top 4
  writeReg esp 4 (top + 4)
  pure value

end Memory

end Exec

/-! ## Operands -/

/-- A 16-bit address wraps before the segment base is added. -/
def effectiveAddress (c : X86Cpu) (o : Operand) : U32 :=
  let base := match o.base with
    | some base => c.reg base
    | none => 0
  let index := match o.index with
    | some index =>
      regRead c.toCpuState index (if o.indexLowByte then .byte else .dword) * BitVec.ofNat 32 o.scale
    | none => 0
  let addr := o.disp + base + index
  let addr := if o.addr16 then addr &&& 0xFFFF else addr
  match o.seg with
  | .fs => addr + c.fsBase
  | .gs => addr + c.gsBase
  | _ => addr

def signExtend (value : U32) : Nat → U32
  | 1 => (value.setWidth 8).signExtend 32
  | 2 => (value.setWidth 16).signExtend 32
  | _ => value

namespace Exec

section Operands

variable (g : GuestMem μ)

def readOperand (o : Operand) : Exec μ U32 :=
  match o.kind with
  | .reg => readReg o.reg o.size
  | .seg => ask fun s => (s.seg o.reg).setWidth 32
  | .imm => pure o.imm
  | .mem => do
    let addr ← ask fun s => effectiveAddress s.cpu o
    readMem g addr o.size
  | _ => unsupported

def writeOperand (o : Operand) (value : U32) : Exec μ Unit :=
  match o.kind with
  | .reg => writeReg o.reg o.size value
  | .seg => change fun s => { s with seg := Function.update s.seg o.reg (value.setWidth 16) }
  | .mem => do
    let addr ← ask fun s => effectiveAddress s.cpu o
    writeMem g addr o.size value
  | _ => unsupported

def branchTarget (o : Operand) : Exec μ U32 :=
  if o.kind = .imm then
    ask fun s => if o.relative then s.nextEip + o.imm else o.imm
  else
    readOperand g o

end Operands

end Exec

/-! ## Multiplication and division -/

/-- `(int64_t)(int32_t)((v & m) << (32 - nb)) >> (32 - nb)`. -/
def signed64 (v : U32) (w : Width) : U64 :=
  ((((v &&& widthMask w) <<< (32 - w.bits)).signExtend 64).sshiftRight (32 - w.bits))

/-- The two halves and the flags. -/
def aluMul (a b : U32) (w : Width) (f : Flags) : (U32 × U32) × Flags :=
  let m := widthMask w
  let full : U64 := (a &&& m).setWidth 64 * (b &&& m).setWidth 64
  let lo := full.setWidth 32 &&& m
  let hi := (full >>> w.bits).setWidth 32 &&& m
  ((lo, hi), setCfOfOnly f (decide (hi ≠ 0)) (decide (hi ≠ 0)))

def aluImul (a b : U32) (w : Width) (f : Flags) : (U32 × U32) × Flags :=
  let m := widthMask w
  let full : U64 := signed64 a w * signed64 b w
  let lo := full.setWidth 32 &&& m
  let hi := (full >>> w.bits).setWidth 32 &&& m
  let overflow := decide (signed64 lo w ≠ full)
  ((lo, hi), setCfOfOnly f overflow overflow)

/-- Quotient and remainder; `none` is a divide error. -/
def aluDiv (hi lo d : U32) (w : Width) : Option (U32 × U32) :=
  let m := widthMask w
  let d := d &&& m
  if d = 0 then
    none
  else
    let num : U64 := (hi &&& m).setWidth 64 <<< w.bits ||| (lo &&& m).setWidth 64
    let q := num / d.setWidth 64
    if q > m.setWidth 64 then none else some (q.setWidth 32, (num % d.setWidth 64).setWidth 32)

def aluIdiv (hi lo d : U32) (w : Width) : Option (U32 × U32) :=
  let m := widthMask w
  let nb := w.bits
  let sd := (signed64 d w).toInt
  if sd = 0 then
    none
  else
    let raw : U64 := (hi &&& m).setWidth 64 <<< nb ||| (lo &&& m).setWidth 64
    let num : Int := ((raw.setWidth (nb * 2)).signExtend 64).toInt
    let q := num.tdiv sd
    let r := num.tmod sd
    if q < -(2 ^ (nb - 1) : Int) ∨ q > (2 ^ (nb - 1) : Int) - 1 then
      none
    else
      some (BitVec.ofInt 32 q &&& m, BitVec.ofInt 32 r &&& m)

namespace Exec

/-- At byte width the pair is AH:AL, one register. -/
def mulResultStore (w : Nat) (lo hi : U32) : Exec μ Unit :=
  if w = 1 then
    writeReg eax 2 ((lo &&& 0xFF) ||| (hi &&& 0xFF) <<< 8)
  else do
    writeReg eax w lo
    writeReg edx w hi

def divOperands (w : Nat) : Exec μ (U32 × U32) :=
  if w = 1 then do
    let ax ← readReg eax 2
    pure (ax >>> 8 &&& 0xFF, ax &&& 0xFF)
  else do
    let hi ← readReg edx w
    let lo ← readReg eax w
    pure (hi, lo)

end Exec

/-! ## Bits and double shifts -/

def setBit (word flag : U32) (on : Bool) : U32 := if on then word ||| flag else word &&& ~~~flag

/-- The result and the EFLAGS word. -/
def bitApply (op : BitOp) (value : U32) (bit : Nat) (eflags : U32) : U32 × U32 :=
  let sel : U32 := 1#32 <<< (bit % 32)
  let result := match op with
    | .set => value ||| sel
    | .reset => value &&& ~~~sel
    | .comp => value ^^^ sel
    | .test => value
  (result, setBit eflags flagCF (decide (value &&& sel ≠ 0)))

/-- Whether the count is in the defined domain, and the result with its EFLAGS word unless
nothing is written. -/
def doubleShift (left : Bool) (dst src count : U32) (w : Width) (eflags : U32) :
    Bool × Option (U32 × U32) :=
  let bits := w.bits
  let mask := widthMask w
  let count := (count &&& 31).toNat
  let defined := decide (count ≤ bits)
  if count = 0 ∨ defined = false then
    (defined, none)
  else
    let dst := dst &&& mask
    let src := src &&& mask
    let r := if left then dst <<< count ||| src >>> (bits - count)
      else dst >>> count ||| src <<< (bits - count)
    -- the result one shift earlier, which the overflow flag compares with
    let prev :=
      if count = 1 then dst
      else if left then dst <<< (count - 1) ||| src >>> (bits - count + 1)
      else dst >>> (count - 1) ||| src <<< (bits - count + 1)
    let cf := if left then bit dst (bits - count) else bit dst (count - 1)
    let r := r &&& mask
    let prev := prev &&& mask
    let f := setBit eflags flagCF cf
    let f := setBit f flagSF (bit r (bits - 1))
    let f := setBit f flagZF (decide (r = 0))
    let f := setBit f flagPF (evenParity r)
    let f := setBit f flagAF true
    let f := setBit f flagOF (bit (r ^^^ prev) (bits - 1))
    (defined, some (r, f))

/-! ## One instruction -/

def flagDF : U32 := 1#32 <<< 10

namespace Exec

section Execute

variable (g : GuestMem μ) (other : OtherOp → Insn → Exec μ Unit)

def executeAlu (op : AluOp) (i : Insn) : Exec μ Unit := do
  let a ← readOperand g i.operand0
  let b ← readOperand g i.operand1
  let w ← orFatal (Width.ofBytes i.operand0.size)
  let r ← onFlags (alu op a b w)
  if op = .cmp ∨ op = .test then pure () else writeOperand g i.operand0 r

def executeAluUnary (op : AluUnOp) (i : Insn) : Exec μ Unit := do
  let a ← readOperand g i.operand0
  let w ← orFatal (Width.ofBytes i.operand0.size)
  let r ← onFlags (aluUnary op a w)
  writeOperand g i.operand0 r

def executePush (o : Operand) : Exec μ Unit := do
  let v ← readOperand g o
  push32 g (if o.size = 1 ∨ o.size = 2 then signExtend v o.size else v)

def executeXchg (i : Insn) : Exec μ Unit := do
  let a ← readOperand g i.operand0
  let b ← readOperand g i.operand1
  writeOperand g i.operand0 b
  writeOperand g i.operand1 a

/-- A memory destination is stored first; the flags are written last. -/
def executeXadd (i : Insn) : Exec μ Unit := do
  let old ← readOperand g i.operand0
  let b ← readOperand g i.operand1
  let w ← orFatal (Width.ofBytes i.operand0.size)
  let sum ← askFlags fun f => (alu .add old b w f).map Prod.fst
  let sum ← orFatal sum
  let sumFirst := i.operand0.kind = .mem
  (if sumFirst then writeOperand g i.operand0 sum else writeOperand g i.operand1 old)
  (if sumFirst then writeOperand g i.operand1 old else writeOperand g i.operand0 sum)
  let _ ← onFlags (alu .add old b w)

/-- A failed compare still writes the destination back. -/
def executeCmpxchg (i : Insn) : Exec μ Unit := do
  let accumulator ← readReg eax i.operand0.size
  let old ← readOperand g i.operand0
  let source ← readOperand g i.operand1
  let w ← orFatal (Width.ofBytes i.operand0.size)
  writeOperand g i.operand0 (if accumulator = old then source else old)
  (if accumulator = old then pure () else writeReg eax i.operand0.size old)
  let _ ← onFlags (alu .cmp accumulator old w)

/-- One operand: the accumulator is implicit. Two or three: only the low half is kept. -/
def executeMul (imul : Bool) (i : Insn) : Exec μ Unit := do
  let w := i.operand0.size
  if i.operands = 1 then do
    let a ← readReg eax w
    let b ← readOperand g i.operand0
    let width ← orFatal (Width.ofBytes w)
    let (lo, hi) ← onFlags fun f =>
      some (if imul then aluImul a b width f else aluMul a b width f)
    mulResultStore w lo hi
  else if imul then do
    let a ← readOperand g (if i.operands = 3 then i.operand1 else i.operand0)
    let b ← readOperand g (if i.operands = 3 then i.operand2 else i.operand1)
    let width ← orFatal (Width.ofBytes w)
    let (lo, _) ← onFlags fun f => some (aluImul a b width f)
    writeOperand g i.operand0 lo
  else
    unsupported

def executeDiv (idiv : Bool) (i : Insn) : Exec μ Unit := do
  let w := i.operand0.size
  let (hi, lo) ← divOperands w
  let d ← readOperand g i.operand0
  let width ← orFatal (Width.ofBytes w)
  match if idiv then aluIdiv hi lo d width else aluDiv hi lo d width with
  | none => fault .divideError 0
  | some (q, r) => mulResultStore w q r

/-- The operand a signed offset leads to, counted in operands, and the bit in it. The division
truncates towards zero, so a negative remainder is brought back into the operand below. -/
def bitUnit (offset : U32) (w : Nat) : Int × Int :=
  let stride : Int := w * 8
  let unit := offset.toInt.tdiv stride
  let rem := offset.toInt.tmod stride
  if rem < 0 then (unit - 1, rem + stride) else (unit, rem)

/-- The operand of a bit string, which may lie outside the one that is named. -/
def bitStringOperand (o : Operand) (offset : U32) : Operand :=
  { o with disp := o.disp + BitVec.ofInt 32 ((bitUnit offset o.size).1 * o.size) }

def executeBit (op : BitOp) (i : Insn) : Exec μ Unit := do
  let f ← askFlags eflags
  let w := i.operand0.size
  let offset ← readOperand g i.operand1
  let bitString := i.operand1.kind ≠ .imm ∧ i.operand0.kind = .mem
  let o := if bitString then bitStringOperand i.operand0 offset else i.operand0
  let bit := if bitString then (bitUnit offset w).2.toNat
    else (offset &&& BitVec.ofNat 32 (w * 8 - 1)).toNat
  let value ← readOperand g o
  let (updated, f) := bitApply op value bit f
  (if op = .test then pure () else writeOperand g o updated)
  setExplicit f

def executeDoubleShift (left : Bool) (i : Insn) : Exec μ Unit := do
  let f ← askFlags eflags
  let dst ← readOperand g i.operand0
  let src ← readOperand g i.operand1
  let count ← readOperand g i.operand2
  let w ← orFatal (Width.ofBytes i.operand0.size)
  match doubleShift left dst src count w f with
  | (false, none) => unsupported
  | (true, none) => pure ()
  | (_, some (r, f)) => do
    writeOperand g i.operand0 r
    setExplicit f

/-- `x86p_cpu_loop`, with what it asks of ZF. -/
def cpuLoop (width : Nat) (zf : Option Bool) : Exec μ Bool := do
  let mask : U32 := if width = 16 then 0xFFFF else uint32Max
  let old ← ask fun s => s.cpu.reg ecx
  let count := (old - 1) &&& mask
  writeReg ecx 4 ((old &&& ~~~mask) ||| count)
  let set ← askFlags flagZf
  pure (decide (count ≠ 0) && match zf with
    | none => true
    | some want => set == want)

def executeLoop (zf : Option Bool) (i : Insn) : Exec μ Unit := do
  let take ← cpuLoop i.addressWidth zf
  if take then do
    let t ← branchTarget g i.operand0
    setNextEip t
  else pure ()

/-- The arguments above the return address. -/
def release (bytes : U32) : Exec μ Unit := do
  let top ← ask fun s => s.cpu.reg esp
  writeReg esp 4 (top + bytes)

def executeRet (i : Insn) : Exec μ Unit := do
  let ra ← pop32 g
  (if i.operands ≥ 1 ∧ i.operand0.kind = .imm then release i.operand0.imm else pure ())
  setNextEip ra

def executeLeave : Exec μ Unit := do
  let frame ← ask fun s => s.cpu.reg ebp
  writeReg esp 4 frame
  let old ← pop32 g
  writeReg ebp 4 old

def byteSwap (v : U32) : U32 :=
  v >>> 24 ||| (v >>> 8 &&& 0xFF00) ||| (v <<< 8 &&& 0xFF0000) ||| v <<< 24

def sahf : Exec μ Unit := do
  let ax ← readReg eax 2
  let keep ← askFlags fun f => eflags f &&& ~~~0xFF#32
  setExplicit (keep ||| (ax >>> 8 &&& 0xD5) ||| 0x02)

def lahf : Exec μ Unit := do
  let f ← askFlags eflags
  let ax ← readReg eax 2
  writeReg eax 2 ((ax &&& 0xFF) ||| ((f &&& 0xD5) ||| 0x02) <<< 8)

/-- `execute`, without the unsupported instruction. -/
def execute (i : Insn) : Exec μ Unit :=
  match i.op with
  | .unsupported => unsupported
  | .nop => pure ()
  | .alu op => executeAlu g op i
  | .aluUnary op => executeAluUnary g op i
  | .mov => do
    let v ← readOperand g i.operand1
    writeOperand g i.operand0 v
  | .movzx => do
    let v ← readOperand g i.operand1
    writeOperand g i.operand0 v
  | .movsx => do
    let v ← readOperand g i.operand1
    writeOperand g i.operand0 (signExtend v i.operand1.size)
  | .lea =>
    if i.operand1.kind = .mem then do
      let addr ← ask fun s => effectiveAddress s.cpu i.operand1
      writeOperand g i.operand0 addr
    else unsupported
  | .push => executePush g i.operand0
  | .pop => do
    let v ← pop32 g
    writeOperand g i.operand0 v
  | .xchg => executeXchg g i
  | .xadd => executeXadd g i
  | .cmpxchg => executeCmpxchg g i
  | .jmp => do
    let t ← branchTarget g i.operand0
    setNextEip t
  | .jcc cc => do
    let t ← branchTarget g i.operand0
    let taken ← askFlags (cond cc)
    if taken then setNextEip t else pure ()
  | .setcc cc => do
    let set ← askFlags (cond cc)
    writeOperand g i.operand0 (if set then 1 else 0)
  | .cmovcc cc => do
    let v ← readOperand g i.operand1
    let moves ← askFlags (cond cc)
    if moves then writeOperand g i.operand0 v else pure ()
  | .call => do
    let t ← branchTarget g i.operand0
    let next ← ask Ctx.nextEip
    push32 g next
    setNextEip t
  | .ret => executeRet g i
  | .leave => executeLeave g
  | .cdq => do
    let v ← readReg eax 4
    writeReg edx 4 (if v &&& 0x80000000 ≠ 0 then uint32Max else 0)
  | .cwde => do
    let v ← readReg eax 2
    writeReg eax 4 (signExtend v 2)
  | .bswap => do
    let v ← readReg i.operand0.reg 4
    writeReg i.operand0.reg 4 (byteSwap v)
  | .mul => executeMul g false i
  | .imul => executeMul g true i
  | .div => executeDiv g false i
  | .idiv => executeDiv g true i
  | .cld => setDf false
  | .std => setDf true
  | .pushfd => do
    let f ← askFlags eflags
    let df ← ask fun s => s.cpu.df
    push32 g (f ||| flagIf df flagDF)
  | .popfd => do
    let v ← pop32 g
    setExplicit v
    setDf (decide (v &&& flagDF ≠ 0))
  | .bit op => executeBit g op i
  | .shld => executeDoubleShift g true i
  | .shrd => executeDoubleShift g false i
  | .sahf => sahf
  | .lahf => lahf
  | .stc => do
    let f ← askFlags eflags
    setExplicit (f ||| flagCF)
  | .clc => do
    let f ← askFlags eflags
    setExplicit (f &&& ~~~flagCF)
  | .cmc => do
    let f ← askFlags eflags
    setExplicit (f ^^^ flagCF)
  | .salc => do
    let set ← askFlags flagCf
    writeReg eax 1 (if set then 0xFF else 0)
  | .loop => executeLoop g none i
  | .loope => executeLoop g (some true) i
  | .loopne => executeLoop g (some false) i
  | .jecxz => do
    let count ← ask fun s => s.cpu.reg ecx
    if count = 0 then do
      let t ← branchTarget g i.operand0
      setNextEip t
    else pure ()
  | .other op => other op i

/-- `x86p_execute_decoded`: EIP advances only when nothing stopped the instruction. -/
def executeDecoded (i : Insn) : Exec μ Unit := do
  let next ← ask fun s => s.cpu.eip + i.length
  setNextEip next
  execute g other i
  change fun s => { s with cpu := { s.cpu with eip := s.nextEip } }

end Execute

/-! ## What the steps come to -/

section Steps

variable (g : GuestMem μ) {s s' : Ctx μ} {o : Operand} {w : Width}

theorem bind_ok {β : Type} {m : Exec μ α} {k : α → Exec μ β} {a : α} (h : m s = .ok a s') :
    (m >>= k) s = k a s' := by
  change EStateM.bind m k s = _
  unfold EStateM.bind
  rw [h]

theorem bind_error {β : Type} {m : Exec μ α} {k : α → Exec μ β} {e : Halt}
    (h : m s = .error e s') : (m >>= k) s = .error e s' := by
  change EStateM.bind m k s = _
  unfold EStateM.bind
  rw [h]

/-- What completes in two steps completes in each. -/
theorem bind_inv {β : Type} {m : Exec μ α} {k : α → Exec μ β} {b : β}
    (h : (m >>= k) s = .ok b s') : ∃ a t, m s = .ok a t ∧ k a t = .ok b s' := by
  cases hm : m s with
  | ok a t =>
    rw [bind_ok hm] at h
    exact ⟨a, t, rfl, h⟩
  | error e t =>
    rw [bind_error hm] at h
    cases h

@[simp] theorem ask_bind {β : Type} (q : Ctx μ → α) (k : α → Exec μ β) :
    (ask q >>= k) s = k (q s) s := rfl

@[simp] theorem askFlags_bind {β : Type} (q : Flags → α) (k : α → Exec μ β) :
    (askFlags q >>= k) s = k (q s.cpu.flags) s := rfl

@[simp] theorem change_bind {β : Type} (c : Ctx μ → Ctx μ) (k : Unit → Exec μ β) :
    (change c >>= k) s = k () (c s) := rfl

@[simp] theorem orFatal_bind_some {β : Type} (a : α) (k : α → Exec μ β) :
    (orFatal (some a) >>= k) s = k a s := rfl

@[simp] theorem pure_apply (a : α) : (pure a : Exec μ α) s = .ok a s := rfl

theorem readReg_ok (index : Reg) {size : Nat} (hw : Width.ofBytes size = some w) :
    readReg index size s = .ok (regRead s.cpu.toCpuState index w) s := by
  unfold readReg
  rw [hw]
  rfl

theorem writeReg_ok (index : Reg) {size : Nat} (hw : Width.ofBytes size = some w) (v : U32) :
    writeReg index size v s = .ok () (s.withRegs (regWrite s.cpu.toCpuState index w v)) := by
  unfold writeReg
  rw [hw]
  rfl

theorem readOperand_reg (hk : o.kind = .reg) (hw : Width.ofBytes o.size = some w) :
    readOperand g o s = .ok (regRead s.cpu.toCpuState o.reg w) s := by
  unfold readOperand
  rw [hk]
  exact readReg_ok o.reg hw

theorem readOperand_imm (hk : o.kind = .imm) : readOperand g o s = .ok o.imm s := by
  unfold readOperand
  rw [hk]
  rfl

theorem writeOperand_reg (hk : o.kind = .reg) (hw : Width.ofBytes o.size = some w) (v : U32) :
    writeOperand g o v s = .ok () (s.withRegs (regWrite s.cpu.toCpuState o.reg w v)) := by
  unfold writeOperand
  rw [hk]
  exact writeReg_ok o.reg hw v

theorem readOperand_mem {v : U32} (hk : o.kind = .mem)
    (h : g.read s.mem (effectiveAddress s.cpu o) o.size = some v) :
    readOperand g o s = .ok v s := by
  unfold readOperand
  rw [hk]
  change readMem g _ _ s = _
  unfold readMem
  rw [h]

theorem writeOperand_mem {v : U32} {m : μ} (hk : o.kind = .mem)
    (h : g.write s.mem (effectiveAddress s.cpu o) o.size v = some m) :
    writeOperand g o v s = .ok () { s with mem := m } := by
  unfold writeOperand
  rw [hk]
  change writeMem g _ _ _ s = _
  unfold writeMem
  rw [h]

theorem readOperand_mem_inv {v : U32} (hk : o.kind = .mem) (h : readOperand g o s = .ok v s') :
    s' = s ∧ g.read s.mem (effectiveAddress s.cpu o) o.size = some v := by
  unfold readOperand at h
  rw [hk] at h
  change readMem g _ _ s = _ at h
  unfold readMem at h
  cases hread : g.read s.mem (effectiveAddress s.cpu o) o.size with
  | none =>
    rw [hread] at h
    cases h
  | some v' =>
    rw [hread] at h
    cases h
    exact ⟨rfl, rfl⟩

theorem writeOperand_mem_inv {v : U32} (hk : o.kind = .mem)
    (h : writeOperand g o v s = .ok () s') :
    ∃ m, g.write s.mem (effectiveAddress s.cpu o) o.size v = some m ∧ s' = { s with mem := m } := by
  unfold writeOperand at h
  rw [hk] at h
  change writeMem g _ _ _ s = _ at h
  unfold writeMem at h
  cases hwrite : g.write s.mem (effectiveAddress s.cpu o) o.size v with
  | none =>
    rw [hwrite] at h
    cases h
  | some m =>
    rw [hwrite] at h
    cases h
    exact ⟨m, rfl, rfl⟩

theorem onFlags_ok {h : Flags → Option (α × Flags)} {a : α} {f : Flags}
    (heq : h s.cpu.flags = some (a, f)) : onFlags h s = .ok a (s.withFlags f) := by
  unfold onFlags
  rw [heq]

theorem onFlags_inv {h : Flags → Option (α × Flags)} {a : α} (hrun : onFlags h s = .ok a s') :
    ∃ f, h s.cpu.flags = some (a, f) ∧ s' = s.withFlags f := by
  unfold onFlags at hrun
  cases hf : h s.cpu.flags with
  | none => rw [hf] at hrun; cases hrun
  | some p =>
    rw [hf] at hrun
    cases hrun
    exact ⟨p.2, rfl, rfl⟩

/-! ## One decoded instruction -/

variable (other : OtherOp → Insn → Exec μ Unit)

/-- A step of `execute` that completes, up to where EIP goes. -/
theorem executeDecoded_ok {i : Insn} {s s' : Ctx μ}
    (h : execute g other i { s with nextEip := s.cpu.eip + i.length } = .ok () s') :
    executeDecoded g other i s = .ok () { s' with cpu := { s'.cpu with eip := s'.nextEip } } := by
  unfold executeDecoded
  rw [ask_bind]
  change (execute g other i >>= _) _ = _
  rw [bind_ok h]
  rfl

theorem executeDecoded_error {i : Insn} {s s' : Ctx μ} {e : Halt}
    (h : execute g other i { s with nextEip := s.cpu.eip + i.length } = .error e s') :
    executeDecoded g other i s = .error e s' := by
  unfold executeDecoded
  rw [ask_bind]
  change (execute g other i >>= _) _ = _
  exact bind_error h

/-- What `executeDecoded` makes of the body's two ends. -/
theorem executeDecoded_cases (i : Insn) (s : Ctx μ) :
    (∃ t, execute g other i { s with nextEip := s.cpu.eip + i.length } = .ok () t ∧
      executeDecoded g other i s = .ok () { t with cpu := { t.cpu with eip := t.nextEip } }) ∨
    ∃ e t, execute g other i { s with nextEip := s.cpu.eip + i.length } = .error e t ∧
      executeDecoded g other i s = .error e t := by
  cases h : execute g other i { s with nextEip := s.cpu.eip + i.length } with
  | ok a t => exact .inl ⟨t, rfl, executeDecoded_ok g other h⟩
  | error e t => exact .inr ⟨e, t, rfl, executeDecoded_error g other h⟩

end Steps

end Exec

end X86Port.Cpu
