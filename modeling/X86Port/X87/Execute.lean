import X86Port.Cpu.Exec
import X86Port.X87.FloatHost

/-!
# x87 instructions

`x86p_x87_execute` of `x87_exec.c`. The instruction has the fields of `decode.h` that the x87
reads; the effective address and whether there is one come from the caller.

* `X87Stop`: the statuses that are not success, and what C leaves undefined.
* `FloatHost.execute`: the instruction, over any host of the unit.
-/

namespace X86Port.X87

open Cpu (Reg X86Cpu Cond cond regWrite eax)
open Memory (Mem Host readBytes writeBytes)

/-! ## Instructions -/

inductive X87Kind where
  | load
  | loadInt
  | store
  | storeInt
  | arith
  | compare
  | exchange
  | changeSign
  | abs
  | const (c : X87Const)
  | storeStatus
  | loadControl
  | storeControl
  | free
  | init
  | fn
  | wait
  | clearExc
  | test
  | compareInt
  | cmov
  | saveState
  | restoreState
  | examine
  deriving DecidableEq

inductive X87Operand where
  | none
  | st (i : Fin 8)
  | mem (size : ℕ)
  | reg (r : Reg)
  deriving DecidableEq

namespace X87Operand

def size : X87Operand → ℕ
  | mem size => size
  | _ => 0

def isSt : X87Operand → Bool
  | st _ => true
  | _ => false

/-- The register number of the operand, which is a stack position here. -/
def position : X87Operand → Fin 8
  | st i => i
  | reg r => r
  | _ => 0

end X87Operand

structure X87Insn where
  x87 : X87Kind
  operands : ℕ
  operand0 : X87Operand
  operand1 : X87Operand
  pops : ℕ
  op : X87Op
  reverse : Bool
  memInt : Bool
  cond : Cond
  fn : X87Fn

namespace X87Insn

/-- The destination and the source of a register form of the arithmetic. The one-operand form is
the other one written short. -/
def arithPositions (i : X87Insn) : Option (Fin 8 × Fin 8) :=
  match i.operands, i.operand0, i.operand1 with
  | 2, .st dst, .st src => some (dst, src)
  | 1, .st src, _ => some (0, src)
  | _, _, _ => none

/-- The second position of FXCH and of the comparisons, which is `ST(1)` where none is named. -/
def other (i : X87Insn) : Fin 8 :=
  match i.operands, i.operand0 with
  | _ + 1, .st p => p
  | _, _ => 1

/-- The second position of a comparison into EFLAGS. -/
def flagsOther (i : X87Insn) : Fin 8 :=
  match i.operands, i.operand0 with
  | 2, _ => i.operand1.position
  | 1, .st p => p
  | _, _ => 1

end X87Insn

/-! ## The state -/

/-- `X86pCpu`, as far as the x87 instructions reach it, and guest memory. -/
structure X87State where
  cpu : X86Cpu
  fpu : Fpu
  mem : Host

inductive X87Stop where
  | memoryFault (addr : U32)
  | unsupported
  | undefined
  deriving DecidableEq

abbrev X87Run := EStateM X87Stop X87State

namespace X87Run

def onFpu (g : Fpu → Fpu) : X87Run Unit := fun s => .ok () { s with fpu := g s.fpu }

def askFpu {α : Type} (q : Fpu → α) : X87Run α := fun s => .ok (q s.fpu) s

/-- `x86p_mem_read_bytes`. -/
def readMem (m : Mem) (addr : U32) (n : ℕ) : X87Run (List U8) := fun s =>
  match readBytes m s.mem addr (BitVec.ofNat 32 n) with
  | some (some bytes) => .ok bytes s
  | some none => .error (.memoryFault addr) s
  | none => .error .undefined s

/-- `x86p_mem_write_bytes`. -/
def writeMem (m : Mem) (addr : U32) (bytes : List U8) : X87Run Unit := fun s =>
  match writeBytes m s.mem addr bytes with
  | some (some mem) => .ok () { s with mem := mem }
  | some none => .error (.memoryFault addr) s
  | none => .error .undefined s

/-- A two-byte word, which FNSTSW and FNSTCW write. -/
def writeWord (m : Mem) (addr : U32) (w : U16) : X87Run Unit := fun s =>
  match Memory.write m s.mem addr .word (w.setWidth 32) with
  | some (some mem) => .ok () { s with mem := mem }
  | some none => .error (.memoryFault addr) s
  | none => .error .undefined s

def readWord (m : Mem) (addr : U32) : X87Run U16 := fun s =>
  match Memory.read m s.mem addr .word with
  | some (some v) => .ok (v.setWidth 16) s
  | some none => .error (.memoryFault addr) s
  | none => .error .undefined s

def orUndefined {α : Type} : Option α → X87Run α
  | some a => pure a
  | none => throw .undefined

end X87Run

open X87Run

/-! ## Memory operands -/

def bitsWidthSupported (width : ℕ) (integer : Bool) : Bool :=
  if integer then width = 2 ∨ width = 4 ∨ width = 8 else width = 4 ∨ width = 8

def widthSupported (width : ℕ) (integer : Bool) : Bool :=
  bitsWidthSupported width integer || (!integer && width = 10)

def integerOfBits (bits : U64) (width : ℕ) : I64 :=
  if width = 2 then (bits.setWidth 16).signExtend 64
  else if width = 4 then (bits.setWidth 32).signExtend 64
  else bits

/-- The least integer of a width, which stands for a value that does not fit. -/
def integerIndefinite (width : ℕ) : I64 :=
  if width = 2 then (0x8000#16).signExtend 64
  else if width = 4 then (0x80000000#32).signExtend 64
  else int64Min

/-- `x86p_x87_reg_to_integer_bits`: the bits, and the unit with IE for a value that does not
fit. -/
def regToIntegerBits (f : Fpu) (value : Ext80) (width : ℕ) : U64 × Fpu :=
  match ext80ToInt f.control value width (some 0) with
  | (true, some result) => (result, f)
  | _ => (integerIndefinite width, f.raise x87Ie)

/-- FNSTSW. -/
def storeStatus (m : Mem) (i : X87Insn) (hasMem : Bool) (addr : U32) : X87Run Unit := do
  let sw ← askFpu x87Status
  if hasMem then writeWord m addr sw
  else
    let r := match i.operand0 with
      | .reg r => if i.operands ≥ 1 then r else eax
      | _ => eax
    fun s => .ok () { s with cpu :=
      { s.cpu with toCpuState := regWrite s.cpu.toCpuState r .word (sw.setWidth 32) } }

namespace FloatHost

variable {L : Type} (H : FloatHost L) (m : Mem)

/-- `x86p_x87_reg_from_operand_bits`, of a width that is supported. -/
def regFromOperandBits (bits : U64) (width : ℕ) (integer : Bool) : Option Ext80 :=
  if integer then ext80FromInt (integerOfBits bits width)
  else if width = 4 then some (H.regOfF32 (bits.setWidth 32))
  else some (H.regOfF64 bits)

def regFromBytes (bytes : List U8) (width : ℕ) (integer : Bool) : Option Ext80 :=
  if width = 10 then some (regFromF80 bytes)
  else H.regFromOperandBits (signifOf bytes) width integer

/-- `x86p_x87_read_value`. -/
def readValue (addr : U32) (width : ℕ) (integer : Bool) : X87Run L := do
  if widthSupported width integer then
    let bytes ← readMem m addr width
    let raw ← orUndefined (H.regFromBytes bytes width integer)
    pure (H.longOf raw)
  else throw .unsupported

/-- `x86p_x87_operand_bytes_from_reg`: the conversion reports into the unit before the write. -/
def operandBytesFromReg (f : Fpu) (value : Ext80) (width : ℕ) (integer : Bool) : List U8 × Fpu :=
  if width = 10 then (regToF80 value, f)
  else if integer then
    let (bits, f) := regToIntegerBits f value width
    (signifBytes width bits, f)
  else if width = 4 then (signifBytes width ((H.f32OfReg f.control value).setWidth 64), f)
  else (signifBytes width (H.f64OfReg f.control value), f)

/-- `x86p_x87_write_value`. -/
def writeValue (addr : U32) (width : ℕ) (integer : Bool) (value : L) : X87Run Unit := do
  if widthSupported width integer then
    let result ← askFpu fun f => H.operandBytesFromReg f (H.regOf value) width integer
    onFpu fun _ => result.2
    writeMem m addr result.1
  else throw .unsupported

/-! ## The instruction -/

/-- The destination and the source of an arithmetic instruction; `none` where the named position
is empty. -/
def arithOperands (i : X87Insn) (hasMem : Bool) (addr : U32) :
    X87Run (Option (Fin 8 × Ext80)) := do
  if hasMem then
    let v ← H.readValue m addr i.operand0.size i.memInt
    pure (some (0, H.regOf v))
  else
    match i.arithPositions with
    | some (dst, src) => askFpu fun f => (f.read src).map (dst, ·)
    | none => throw .unsupported

/-- The store of FST, to memory or to a position. -/
def storeValue (i : X87Insn) (hasMem : Bool) (addr : U32) (v : L) : X87Run Unit :=
  if hasMem then H.writeValue m addr i.operand0.size false v
  else
    match i.operand0 with
    | .st p => onFpu fun f => H.set f p v
    | _ => throw .unsupported

/-- `execute`. -/
def execute (i : X87Insn) (hasMem : Bool) (addr : U32) : X87Run Unit :=
  match i.x87 with
  | .load => do
    if hasMem then
      let v ← H.readValue m addr i.operand0.size false
      onFpu fun f => (H.push f v).2
    else
      match i.operand0 with
      | .st p => onFpu fun f => H.loadFrom f p
      | _ => throw .unsupported
  | .loadInt => do
    if hasMem then
      let v ← H.readValue m addr i.operand0.size true
      onFpu fun f => (H.push f v).2
    else throw .unsupported
  | .store => do
    match ← askFpu fun f => H.get f 0 with
    | none => pure ()
    | some v =>
      H.storeValue m i hasMem addr v
      onFpu (Fpu.pops i.pops)
  | .storeInt => do
    if hasMem then
      match ← askFpu fun f => H.get f 0 with
      | none => pure ()
      | some v =>
        H.writeValue m addr i.operand0.size true v
        onFpu (Fpu.pops i.pops)
    else throw .unsupported
  | .arith => do
    match ← H.arithOperands m i hasMem addr with
    | none => pure ()
    | some (dst, src) =>
      onFpu fun f => (H.arithRaw f i.op dst src i.reverse).2.pops i.pops
  | .compare => do
    if hasMem then
      let other ← H.readValue m addr i.operand0.size i.memInt
      onFpu fun f => (H.compare f other).2.pops i.pops
    else if i.operands = 0 ∨ i.operand0.isSt then
      onFpu fun f => H.compareRegister f i.other i.pops
    else throw .unsupported
  | .exchange => onFpu fun f => H.exchange f i.other
  | .changeSign => onFpu fun f => H.sign f false
  | .abs => onFpu fun f => H.sign f true
  | .const c => onFpu fun f => H.pushConstant f c
  | .storeStatus => X87.storeStatus m i hasMem addr
  | .loadControl => do
    if hasMem then
      let v ← readWord m addr
      onFpu fun f => { f with control := v }
    else throw .unsupported
  | .storeControl => do
    if hasMem then
      let w ← askFpu Fpu.control
      writeWord m addr w
    else throw .unsupported
  | .free => onFpu fun f => match i.operands, i.operand0 with
    | _ + 1, .st p => f.free p
    | _, _ => f
  | .init => onFpu Fpu.reset
  | .cmov => fun s =>
    if cond i.cond s.cpu.flags then
      .ok () { s with fpu := H.moveFrom s.fpu i.operand1.position }
    else .ok () s
  | .saveState => fun s =>
    match saveState s.fpu m s.mem addr with
    | some (true, f, mem) => .ok () { s with fpu := f, mem := mem }
    | some (false, f, mem) => .error (.memoryFault addr) { s with fpu := f, mem := mem }
    | none => .error .undefined s
  | .restoreState => fun s =>
    match restoreState s.fpu m s.mem addr with
    | some (true, f) => .ok () { s with fpu := f }
    | some (false, f) => .error (.memoryFault addr) { s with fpu := f }
    | none => .error .undefined s
  | .wait => pure ()
  | .clearExc => onFpu Fpu.clearExceptions
  | .examine => onFpu H.examine
  | .test => onFpu H.test
  | .compareInt => fun s =>
    let r := H.compareFlagsPop s.fpu s.cpu.flags i.flagsOther i.pops
    .ok () { s with cpu := { s.cpu with flags := r.2 }, fpu := r.1 }
  | .fn => fun s =>
    match H.applyFn s.fpu i.fn with
    | some f => .ok () { s with fpu := f }
    | none => .error .unsupported s

end FloatHost

end X86Port.X87
