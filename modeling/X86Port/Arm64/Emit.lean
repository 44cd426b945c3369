import X86Port.Arm64.Isa
import X86Port.Lib.CodeBuffer

/-!
# The AArch64 encoder

`emit_arm64.c`, call by call, without its floating-point arithmetic. An instruction is one word,
and the buffer is one of words; offsets are in bytes, as in the source.
-/

namespace X86Port.Arm64

open Lib (CodeBuffer)

/-- The `fwd_` fields: the last 32-bit store, and the offset behind it. -/
structure Forward where
  place : Nat
  disp : U32
  base : RegNo
  src : RegNo
deriving DecidableEq

/-- `X86pA64Emit`; no forward is the offset `SIZE_MAX`. -/
structure A64Emit where
  code : CodeBuffer U32
  sitesMade : U32
  sitesBound : U32
  forward : Option Forward

/-- `X86pA64EmitSite` -/
structure A64Site where
  start : Nat
  stop : Nat
deriving DecidableEq

/-- `X86pA64Alu` -/
inductive A64Alu where
  | add
  | sub
  | and
  | orr
  | eor
deriving DecidableEq

/-- `X86pA64Shift` -/
inductive A64Shift where
  | lsl
  | lsr
  | asr
deriving DecidableEq

def A64Shift.code : A64Shift → U32
  | .lsl => 0
  | .lsr => 1
  | .asr => 2

/-- A register, or another small number, in a word. -/
def inWord {k : Nat} (v : BitVec k) : U32 := v.setWidth 32

def flagWord (b : Bool) : U32 := inWord (BitVec.ofBool b)

def scratch : RegNo := 8

namespace A64Emit

variable (e : A64Emit)

def init (buf : Option (Nat → U32)) (cap : Nat) : A64Emit where
  code :=
    { buf := buf.getD fun _ => 0
      cap := if buf.isSome then cap / 4 else 0
      len := 0
      overflow := buf.isNone
      len_le := Nat.zero_le _ }
  sitesMade := 0
  sitesBound := 0
  forward := none

def len : Nat := 4 * e.code.len

def ok : Prop := e.code.overflow = false

def refuse : A64Emit := { e with code := e.code.refuse }

def put32 (word : U32) : A64Emit := { e with code := e.code.put word }

/-! ### Moves -/

def moveWide (sf : Bool) (opc hw : BitVec 2) (imm16 : U16) (rd : RegNo) : A64Emit :=
  e.put32 (flagWord sf <<< 31 ||| inWord opc <<< 29 ||| 0x25#32 <<< 23 ||| inWord hw <<< 21 |||
    inWord imm16 <<< 5 ||| inWord rd)

def movWImm32 (dst : RegNo) (imm : U32) : A64Emit :=
  let lo := (imm &&& 0xFFFF).setWidth 16
  let hi := ((imm >>> 16) &&& 0xFFFF).setWidth 16
  if hi = 0 then e.moveWide false 2 0 lo dst
  else if lo = 0 then e.moveWide false 2 1 hi dst
  else (e.moveWide false 2 0 lo dst).moveWide false 3 1 hi dst

def chunk (imm : U64) (i : BitVec 2) : U16 := ((imm >>> (16 * i.toNat)) &&& 0xFFFF).setWidth 16

/-- One round of the loop of `x86p_a64_emit_mov_x_imm64`, with `wrote`. -/
def movChunk (dst : RegNo) (imm : U64) (s : A64Emit × Bool) (i : BitVec 2) : A64Emit × Bool :=
  if chunk imm i = 0 ∧ ¬ (i = 3 ∧ s.2 = false) ∧ ¬ (imm = 0 ∧ i = 0) then s
  else if s.2 = false then (s.1.moveWide true 2 i (chunk imm i) dst, true)
  else (s.1.moveWide true 3 i (chunk imm i) dst, s.2)

def movXImm64 (dst : RegNo) (imm : U64) : A64Emit :=
  let s := [0, 1, 2, 3].foldl (movChunk dst imm) (e, false)
  if s.2 = false then s.1.moveWide true 2 0 0 dst else s.1

def movXImm64Fixed (dst : RegNo) (imm : U64) : A64Emit :=
  [1, 2, 3].foldl (fun e i => e.moveWide true 3 i (chunk imm i) dst)
    (e.moveWide true 2 0 (chunk imm 0) dst)

def orrShiftedReg (sf : Bool) (opc : BitVec 2) (rd rn rm : RegNo) : A64Emit :=
  e.put32 (flagWord sf <<< 31 ||| inWord opc <<< 29 ||| 0x0A#32 <<< 24 ||| inWord rm <<< 16 |||
    inWord rn <<< 5 ||| inWord rd)

def movXX (dst src : RegNo) : A64Emit := e.orrShiftedReg true 1 dst 31 src

def movWW (dst src : RegNo) : A64Emit := e.orrShiftedReg false 1 dst 31 src

/-! ### Loads and stores -/

def fitsScaledUnsigned (disp : U32) (sizeBytes : Nat) : Option U32 :=
  if disp.toInt < 0 then none
  else if disp.toNat % sizeBytes ≠ 0 then none
  else if disp.toNat / sizeBytes > 4095 then none
  else some (BitVec.ofNat 32 (disp.toNat / sizeBytes))

def addSubImm (sf isSub : Bool) (rd rn : RegNo) (imm12 : U32) (shift12 : Bool) : A64Emit :=
  e.put32 (flagWord sf <<< 31 ||| flagWord isSub <<< 30 ||| 0x22#32 <<< 23 |||
    flagWord shift12 <<< 22 ||| (imm12 &&& 0xFFF) <<< 10 ||| inWord rn <<< 5 ||| inWord rd)

def materializeAddress (dst base : RegNo) (disp : U32) : A64Emit :=
  if disp = 0 then e.addSubImm true false dst base 0 false
  else
    let neg := disp.toInt < 0
    let mag := if neg then -disp else disp
    if mag ≤ 0xFFF then e.addSubImm true (decide neg) dst base mag false
    else if mag &&& 0xFFF = 0 ∧ mag >>> 12 ≤ 0xFFF then
      e.addSubImm true (decide neg) dst base (mag >>> 12) true
    else
      let tmp : RegNo := if scratch = dst then 9 else scratch
      (e.movXImm64 tmp (disp.signExtend 64)).put32 (1#32 <<< 31 ||| 0x0B#32 <<< 24 |||
        inWord tmp <<< 16 ||| inWord base <<< 5 ||| inWord dst)

def ldstUnsigned (baseWord : U32) (rt rn : RegNo) (disp : U32) (sizeBytes : Nat) : A64Emit :=
  match fitsScaledUnsigned disp sizeBytes with
  | some imm => e.put32 (baseWord ||| imm <<< 10 ||| inWord rn <<< 5 ||| inWord rt)
  | none =>
    (e.materializeAddress scratch rn disp).put32
      (baseWord ||| 0#32 <<< 10 ||| inWord scratch <<< 5 ||| inWord rt)

/-- What `x86p_a64_emit_load32` finds in a register. -/
def forwarded (base : RegNo) (disp : U32) : Option RegNo :=
  match e.forward with
  | some f => if e.len = f.place ∧ base = f.base ∧ disp = f.disp then some f.src else none
  | none => none

def load32 (dst base : RegNo) (disp : U32) : A64Emit :=
  match e.forwarded base disp with
  | some src => if dst ≠ src then e.movWW dst src else e
  | none => e.ldstUnsigned 0xB9400000 dst base disp 4

def store32 (base : RegNo) (disp : U32) (src : RegNo) : A64Emit :=
  let e := e.ldstUnsigned 0xB9000000 src base disp 4
  { e with forward := some ⟨e.len, disp, base, src⟩ }

def storePair32 (base : RegNo) (disp : U32) (a b : RegNo) : A64Emit :=
  if disp.toInt.tmod 4 ≠ 0 ∨ disp.toInt < -256 ∨ disp.toInt > 252 then
    (e.store32 base disp a).store32 base (disp + 4) b
  else
    e.put32 (0x29000000#32 ||| (BitVec.ofInt 32 (disp.toInt.tdiv 4) &&& 0x7F) <<< 15 |||
      inWord b <<< 10 ||| inWord base <<< 5 ||| inWord a)

def load64 (dst base : RegNo) (disp : U32) : A64Emit := e.ldstUnsigned 0xF9400000 dst base disp 8

def store64 (base : RegNo) (disp : U32) (src : RegNo) : A64Emit :=
  e.ldstUnsigned 0xF9000000 src base disp 8

def load8Zx (dst base : RegNo) (disp : U32) : A64Emit := e.ldstUnsigned 0x39400000 dst base disp 1

def store8Reg (base : RegNo) (disp : U32) (src : RegNo) : A64Emit :=
  e.ldstUnsigned 0x39000000 src base disp 1

def load16Zx (dst base : RegNo) (disp : U32) : A64Emit := e.ldstUnsigned 0x79400000 dst base disp 2

def store16Reg (base : RegNo) (disp : U32) (src : RegNo) : A64Emit :=
  e.ldstUnsigned 0x79000000 src base disp 2

def store8Imm (base : RegNo) (disp : U32) (imm : U8) : A64Emit :=
  (e.movWImm32 9 (imm.setWidth 32)).store8Reg base disp 9

def store16Imm (base : RegNo) (disp : U32) (imm : U16) : A64Emit :=
  (e.movWImm32 9 (imm.setWidth 32)).store16Reg base disp 9

def store32Imm (base : RegNo) (disp imm : U32) : A64Emit := (e.movWImm32 9 imm).store32 base disp 9

def lea64 (dst base : RegNo) (disp : U32) : A64Emit := e.materializeAddress dst base disp

/-! ### Arithmetic -/

end A64Emit

/-- The head of `alu_shifted_reg`. -/
def A64Alu.head : A64Alu → U32
  | .add => 0#32 <<< 30 ||| 0x0B#32 <<< 24
  | .sub => 1#32 <<< 30 ||| 0x0B#32 <<< 24
  | .and => 0#32 <<< 29 ||| 0x0A#32 <<< 24
  | .orr => 1#32 <<< 29 ||| 0x0A#32 <<< 24
  | .eor => 2#32 <<< 29 ||| 0x0A#32 <<< 24

/-- The loop of `contiguous_lsb_ones`, from bit `n` on. -/
def lsbOnesFrom (v : U32) : Nat → Nat → Nat
  | 0, n => n
  | fuel + 1, n => if n < 32 ∧ v &&& (1#32 <<< n) ≠ 0 then lsbOnesFrom v fuel (n + 1) else n

def contiguousLsbOnes (v : U32) : Option Nat :=
  if v = 0 ∨ v = 0xFFFFFFFF then none
  else
    let n := lsbOnesFrom v 32 0
    if 32 ≤ n ∨ v >>> n ≠ 0 then none else some n

namespace A64Emit

variable (e : A64Emit)

def aluShiftedReg (sf : Bool) (op : A64Alu) (dst a b : RegNo) : A64Emit :=
  e.put32 (flagWord sf <<< 31 ||| op.head ||| inWord b <<< 16 ||| inWord a <<< 5 ||| inWord dst)

def aluWW (op : A64Alu) (dst src : RegNo) : A64Emit := e.aluShiftedReg false op dst dst src

def aluXX (op : A64Alu) (dst src : RegNo) : A64Emit := e.aluShiftedReg true op dst dst src

def mulW (dst a b : RegNo) : A64Emit :=
  e.put32 (0x1B000000#32 ||| inWord b <<< 16 ||| 31#32 <<< 10 ||| inWord a <<< 5 ||| inWord dst)

def aluWWW (op : A64Alu) (dst a b : RegNo) : A64Emit := e.aluShiftedReg false op dst a b

def logicalImm (sf : Bool) (opc : BitVec 2) (dst : RegNo) (nOnes : Nat) : A64Emit :=
  e.put32 (flagWord sf <<< 31 ||| inWord opc <<< 29 ||| 0x24#32 <<< 23 ||| 0#32 <<< 22 |||
    0#32 <<< 16 ||| (BitVec.ofNat 32 nOnes - 1) <<< 10 ||| inWord dst <<< 5 ||| inWord dst)

def addSubWImm (isSub : Bool) (dst src : RegNo) (imm : U32) : Option A64Emit :=
  let negated := 0 - imm
  let swap := 0xFFF < imm ∧ negated ≤ 0xFFF
  let isSub := if swap then !isSub else isSub
  let imm := if swap then negated else imm
  if imm ≤ 0xFFF then some (e.addSubImm false isSub dst src imm false)
  else if imm &&& 0xFFF = 0 ∧ imm >>> 12 ≤ 0xFFF then
    some (e.addSubImm false isSub dst src (imm >>> 12) true)
  else none

/-- The materialised constant that `x86p_a64_emit_alu_w_imm` falls back to. -/
def aluWConst (op : A64Alu) (dst : RegNo) (imm : U32) : A64Emit :=
  (e.movWImm32 9 imm).aluWW op dst 9

def aluWImm (op : A64Alu) (dst : RegNo) (imm : U32) : A64Emit :=
  if op = .add ∨ op = .sub then
    match e.addSubWImm (decide (op = .sub)) dst dst imm with
    | some e' => e'
    | none => e.aluWConst op dst imm
  else
    match if op = .and then contiguousLsbOnes imm else none with
    | some n => e.logicalImm false 0 dst n
    | none =>
      if op = .eor ∧ imm = 0xFFFFFFFF then
        e.put32 (0#32 <<< 31 ||| 1#32 <<< 29 ||| 0x0A#32 <<< 24 ||| 1#32 <<< 21 |||
          inWord dst <<< 16 ||| 31#32 <<< 5 ||| inWord dst)
      else e.aluWConst op dst imm

def aluXImm (op : A64Alu) (dst : RegNo) (imm : U32) : A64Emit :=
  if imm ≤ 0xFFF then e.addSubImm true (decide (op = .sub)) dst dst imm false
  else if imm &&& 0xFFF = 0 ∧ imm >>> 12 ≤ 0xFFF then
    e.addSubImm true (decide (op = .sub)) dst dst (imm >>> 12) true
  else (e.movXImm64 9 (imm.setWidth 64)).aluXX op dst 9

def bitfield (opc : BitVec 2) (dst src : RegNo) (immr imms : U32) : A64Emit :=
  e.put32 (0#32 <<< 31 ||| inWord opc <<< 29 ||| 0x26#32 <<< 23 ||| 0#32 <<< 22 |||
    (immr &&& 0x3F) <<< 16 ||| (imms &&& 0x3F) <<< 10 ||| inWord src <<< 5 ||| inWord dst)

def revW (dst : RegNo) : A64Emit := e.put32 (0x5AC00800#32 ||| inWord dst <<< 5 ||| inWord dst)

def shlWImm (dst : RegNo) (count : U8) : A64Emit :=
  let s : U32 := count.setWidth 32 &&& 31
  e.bitfield 2 dst dst ((32 - s) &&& 31) (31 - s)

def shlWWImm (dst src : RegNo) (count : U8) : A64Emit :=
  let s : U32 := count.setWidth 32 &&& 31
  if s = 0 then if dst ≠ src then e.movWW dst src else e
  else e.bitfield 2 dst src ((32 - s) &&& 31) (31 - s)

def sarWImm (dst : RegNo) (count : U8) : A64Emit :=
  e.bitfield 0 dst dst (count.setWidth 32 &&& 31) 31

def lsrWImm (dst : RegNo) (count : U8) : A64Emit :=
  e.bitfield 2 dst dst (count.setWidth 32 &&& 31) 31

def addXWUxtw (dst base offset : RegNo) : A64Emit :=
  e.put32 (0x8B204000#32 ||| inWord offset <<< 16 ||| inWord base <<< 5 ||| inWord dst)

def shiftWW (op : A64Shift) (dst src count : RegNo) : A64Emit :=
  e.put32 (0x1AC02000#32 ||| inWord count <<< 16 ||| op.code <<< 10 ||| inWord src <<< 5 |||
    inWord dst)

def lsrXImm (dst src : RegNo) (count : U8) : A64Emit :=
  e.put32 (1#32 <<< 31 ||| 2#32 <<< 29 ||| 0x26#32 <<< 23 ||| 1#32 <<< 22 |||
    (count.setWidth 32 &&& 0x3F) <<< 16 ||| 0x3F#32 <<< 10 ||| inWord src <<< 5 ||| inWord dst)

/-- CMP and CMN, of registers. -/
def compareReg (sf op : Bool) (a b : RegNo) : A64Emit :=
  e.put32 (flagWord sf <<< 31 ||| flagWord op <<< 30 ||| 1#32 <<< 29 ||| 0x0B#32 <<< 24 |||
    inWord b <<< 16 ||| inWord a <<< 5 ||| 31)

def cmpWW (a b : RegNo) : A64Emit := e.compareReg false true a b

def cmnWW (a b : RegNo) : A64Emit := e.compareReg false false a b

def cmpXX (a b : RegNo) : A64Emit := e.compareReg true true a b

def cmpWImm (a : RegNo) (imm : U32) : A64Emit :=
  if imm ≤ 0xFFF then
    e.put32 (0#32 <<< 31 ||| 1#32 <<< 30 ||| 1#32 <<< 29 ||| 0x22#32 <<< 23 ||| 0#32 <<< 22 |||
      (imm &&& 0xFFF) <<< 10 ||| inWord a <<< 5 ||| 31)
  else (e.movWImm32 9 imm).cmpWW a 9

def subsXImm (dst : RegNo) (imm : U32) : A64Emit :=
  if 0xFFF < imm then e.refuse
  else
    e.put32 (1#32 <<< 31 ||| 1#32 <<< 30 ||| 1#32 <<< 29 ||| 0x22#32 <<< 23 ||| imm <<< 10 |||
      inWord dst <<< 5 ||| inWord dst)

def tstWW (a b : RegNo) : A64Emit :=
  e.put32 (0#32 <<< 31 ||| 3#32 <<< 29 ||| 0x0A#32 <<< 24 ||| inWord b <<< 16 ||| inWord a <<< 5 |||
    31)

def cselW (cc : BitVec 4) (dst a b : RegNo) : A64Emit :=
  e.put32 (0x1A800000#32 ||| inWord b <<< 16 ||| inWord cc <<< 12 ||| 0#32 <<< 10 |||
    inWord a <<< 5 ||| inWord dst)

def csetW (cc : BitVec 4) (dst : RegNo) : A64Emit :=
  e.put32 (0x1A800000#32 ||| 31#32 <<< 16 ||| inWord (cc ^^^ 1) <<< 12 ||| 1#32 <<< 10 |||
    31#32 <<< 5 ||| inWord dst)

def aluWMem (op : A64Alu) (dst base : RegNo) (disp : U32) : A64Emit :=
  (e.load32 9 base disp).aluWW op dst 9

/-! ### Vectors -/

/-- `x86p_a64_emit_load_q` and `x86p_a64_emit_store_q`, by their base word. -/
def ldstQ (baseWord : U32) (vreg base : RegNo) (disp : U32) : A64Emit :=
  if 0 ≤ disp.toInt ∧ disp.toNat % 16 = 0 ∧ disp.toNat / 16 ≤ 4095 then
    e.put32 (baseWord ||| BitVec.ofNat 32 (disp.toNat / 16) <<< 10 ||| inWord base <<< 5 |||
      inWord vreg)
  else
    (e.materializeAddress scratch base disp).put32
      (baseWord ||| inWord scratch <<< 5 ||| inWord vreg)

def loadQ (vreg base : RegNo) (disp : U32) : A64Emit := e.ldstQ 0x3DC00000 vreg base disp

def storeQ (base : RegNo) (disp : U32) (vreg : RegNo) : A64Emit := e.ldstQ 0x3D800000 vreg base disp

def movQQ (vdst vsrc : RegNo) : A64Emit :=
  e.put32 (0x4EA01C00#32 ||| inWord vsrc <<< 16 ||| inWord vsrc <<< 5 ||| inWord vdst)

def loadQAt (vreg base : RegNo) : A64Emit :=
  e.put32 (0x3DC00000#32 ||| inWord base <<< 5 ||| inWord vreg)

def storeQAt (base vreg : RegNo) : A64Emit :=
  e.put32 (0x3D800000#32 ||| inWord base <<< 5 ||| inWord vreg)

/-! ### Bit fields -/

def ubfm (sf : Bool) (dst src : RegNo) (immr imms : U32) : A64Emit :=
  e.put32 ((if sf then 0xD3400000#32 else 0x53000000#32) ||| immr <<< 16 ||| imms <<< 10 |||
    inWord src <<< 5 ||| inWord dst)

def bfiW (dst src : RegNo) (lsb width : U32) : A64Emit :=
  if width = 0 ∨ 32 < lsb + width then e.refuse
  else e.bitfield 1 dst src ((32 - lsb) &&& 31) (width - 1)

def ubfxW (dst src : RegNo) (lsb width : U32) : A64Emit :=
  if width = 0 ∨ 32 < lsb + width then e.refuse else e.ubfm false dst src lsb (lsb + width - 1)

def ubfxX (dst src : RegNo) (lsb width : U32) : A64Emit :=
  if width = 0 ∨ 64 < lsb + width then e.refuse else e.ubfm true dst src lsb (lsb + width - 1)

def lslXImm (dst src : RegNo) (count : U32) : A64Emit :=
  if count = 0 ∨ 63 < count then e.refuse else e.ubfm true dst src (64 - count) (63 - count)

def lslWWImm (dst src : RegNo) (count : U32) : A64Emit :=
  if count = 0 ∨ 31 < count then e.refuse else e.ubfm false dst src (32 - count) (31 - count)

def aluLsl (sf : Bool) (op : A64Alu) (dst a b : RegNo) (shift : U32) : A64Emit :=
  if (op ≠ .add ∧ op ≠ .orr) ∨ (if sf then 63 else 31) < shift then e.refuse
  else
    e.put32 (flagWord sf <<< 31 ||| (if op = .add then 0x0B000000#32 else 0x2A000000#32) |||
      inWord b <<< 16 ||| shift <<< 10 ||| inWord a <<< 5 ||| inWord dst)

def aluXXLsl (op : A64Alu) (dst a b : RegNo) (shift : U32) : A64Emit :=
  e.aluLsl true op dst a b shift

def aluWWLsl (op : A64Alu) (dst a b : RegNo) (shift : U32) : A64Emit :=
  e.aluLsl false op dst a b shift

def eorWWLsr (dst a b : RegNo) (shift : U32) : A64Emit :=
  if 31 < shift then e.refuse
  else
    e.put32 (0x4A400000#32 ||| inWord b <<< 16 ||| shift <<< 10 ||| inWord a <<< 5 ||| inWord dst)

def tstWBit0 (a : RegNo) : A64Emit := e.put32 (0x7200001F#32 ||| inWord a <<< 5)

def orrXBit (dst : RegNo) (bit : U32) : A64Emit :=
  if 63 < bit then e.refuse
  else
    e.put32 (0xB2400000#32 ||| ((64 - bit) &&& 63) <<< 16 ||| inWord dst <<< 5 ||| inWord dst)

/-! ### Branches -/

/-- `x86p_a64_emit_bcc`, `x86p_a64_emit_b` and `unbound`. -/
def unbound (word : U32) : A64Site × A64Emit :=
  let e' := e.put32 word
  (⟨e.len, e'.len⟩, { e' with sitesMade := e'.sitesMade + 1 })

def bcc (cc : BitVec 4) : A64Site × A64Emit := e.unbound (0x54000000#32 ||| inWord cc)

def b : A64Site × A64Emit := e.unbound 0x14000000

def cbzW (reg : RegNo) : A64Site × A64Emit := e.unbound (0x34000000#32 ||| inWord reg)

def cbnzW (reg : RegNo) : A64Site × A64Emit := e.unbound (0x35000000#32 ||| inWord reg)

def cbzX (reg : RegNo) : A64Site × A64Emit := e.unbound (0xB4000000#32 ||| inWord reg)

def cbnzX (reg : RegNo) : A64Site × A64Emit := e.unbound (0xB5000000#32 ||| inWord reg)

def testBit (base : U32) (reg : RegNo) (bit : U32) : A64Site × A64Emit :=
  let e := if 63 < bit then e.refuse else e
  e.unbound (base ||| ((bit >>> 5) &&& 1) <<< 31 ||| (bit &&& 31) <<< 19 ||| inWord reg)

def tbz (reg : RegNo) (bit : U32) : A64Site × A64Emit := e.testBit 0x36000000 reg bit

def tbnz (reg : RegNo) (bit : U32) : A64Site × A64Emit := e.testBit 0x37000000 reg bit

def bl : A64Site × A64Emit := e.unbound 0x94000000

def label : Nat × A64Emit := (e.len, { e with forward := none })

/-- The word of a site, with the distance in words in its field; nothing when it does not fit. -/
def retarget (word : U32) (off : Int) : Option U32 :=
  if word &&& 0x7C000000 = 0x14000000 then
    if off < -2 ^ 25 ∨ 2 ^ 25 ≤ off then none
    else some ((word &&& 0xFC000000) ||| (BitVec.ofInt 32 off &&& 0x03FFFFFF))
  else if word &&& 0x7E000000 = 0x36000000 then
    if off < -2 ^ 13 ∨ 2 ^ 13 ≤ off then none
    else some ((word &&& 0xFFF8001F#32) ||| (BitVec.ofInt 32 off &&& 0x3FFF) <<< 5)
  else if off < -2 ^ 18 ∨ 2 ^ 18 ≤ off then none
  else some ((word &&& 0xFF00001F#32) ||| (BitVec.ofInt 32 off &&& 0x7FFFF) <<< 5)

def bindTo (site : A64Site) (target : Nat) : A64Emit :=
  let e := if e.forward.map Forward.place = some target then { e with forward := none } else e
  if e.code.overflow ∨ site.start + 4 > e.len ∨ target > e.len then e.refuse
  else
    let delta : Int := (target : Int) - site.start
    if delta % 4 ≠ 0 then e.refuse
    else
      match retarget (e.code.buf (site.start / 4)) (delta / 4) with
      | none => e.refuse
      | some word =>
        { e with code := e.code.patch (site.start / 4) [word], sitesBound := e.sitesBound + 1 }

def bind (site : A64Site) : A64Emit := e.bindTo site e.len

def sitesAllBound : Prop := e.sitesMade = e.sitesBound

/-! ### Structure -/

def pushPair (a b : RegNo) : A64Emit :=
  e.put32 (0xA9800000#32 ||| (BitVec.ofInt 32 (-2) &&& 0x7F) <<< 15 ||| inWord b <<< 10 |||
    31#32 <<< 5 ||| inWord a)

def popPair (a b : RegNo) : A64Emit :=
  e.put32 (0xA8C00000#32 ||| (2#32 &&& 0x7F) <<< 15 ||| inWord b <<< 10 ||| 31#32 <<< 5 |||
    inWord a)

def subSpImm (imm : U32) : A64Emit := e.addSubImm true true 31 31 imm false

def addSpImm (imm : U32) : A64Emit := e.addSubImm true false 31 31 imm false

def ret : A64Emit := e.put32 (0xD65F0000#32 ||| inWord (30 : RegNo) <<< 5)

def blr (target : RegNo) : A64Emit := e.put32 (0xD63F0000#32 ||| inWord target <<< 5)

def br (target : RegNo) : A64Emit := e.put32 (0xD61F0000#32 ||| inWord target <<< 5)

end A64Emit

end X86Port.Arm64
