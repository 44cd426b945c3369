import X86Port.Lib.LittleEndian
import X86Port.Word

/-!
# AArch64 instructions

The instructions that `emit_arm64.c` uses, each as the instruction set defines it with all its
operands: data processing, loads and stores, and branches. Floating-point arithmetic is left out.

* `decode`: the instruction of a word.
* `A64Instr.exec`: what an instruction other than a branch does.
* `A64Instr.branch`: where a branch goes.
-/

namespace X86Port.Arm64

open Lib

abbrev RegNo := BitVec 5

/-- The host. General register 31 is the stack pointer. -/
structure A64State where
  gpr : RegNo → U64
  vec : RegNo → BitVec 128
  n : Bool
  z : Bool
  c : Bool
  v : Bool
  mem : U64 → U8

/-- The size of an operand with the `sf` bit. -/
def sizeOf : Bool → Nat
  | true => 64
  | false => 32

namespace A64State

/-- A register that is not a base: number 31 reads as zero. -/
def x (s : A64State) (r : RegNo) : U64 := if r = 31 then 0 else s.gpr r

def w (s : A64State) (r : RegNo) : U32 := (s.x r).setWidth 32

def read (s : A64State) (sf : Bool) (r : RegNo) : BitVec (sizeOf sf) := (s.x r).setWidth _

/-- A register that is a base: number 31 is the stack pointer. -/
def readSp (s : A64State) (sf : Bool) (r : RegNo) : BitVec (sizeOf sf) := (s.gpr r).setWidth _

def setSp (s : A64State) (r : RegNo) (v : U64) : A64State :=
  { s with gpr := Function.update s.gpr r v }

def setX (s : A64State) (r : RegNo) (v : U64) : A64State := if r = 31 then s else s.setSp r v

/-- A result fills the register with zeros above its size. -/
def write (s : A64State) {k : Nat} (r : RegNo) (v : BitVec k) : A64State := s.setX r (v.setWidth 64)

def writeSp (s : A64State) {k : Nat} (r : RegNo) (v : BitVec k) : A64State :=
  s.setSp r (v.setWidth 64)

def load (s : A64State) (addr : U64) (n : Nat) : BitVec (8 * n) := LittleEndian.load s.mem addr n

def store (s : A64State) (addr : U64) (n : Nat) (v : BitVec (8 * n)) : A64State :=
  { s with mem := LittleEndian.store s.mem addr n v }

def setVec (s : A64State) (r : RegNo) (v : BitVec 128) : A64State :=
  { s with vec := Function.update s.vec r v }

/-- `AddWithCarry`, its flags. -/
def sumFlags (s : A64State) {k : Nat} (p q : BitVec k) (carry : Bool) : A64State :=
  let r := p + q + BitVec.ofNat k carry.toNat
  { s with
    n := r.msb
    z := decide (r = 0)
    c := decide (2 ^ k ≤ p.toNat + q.toNat + carry.toNat)
    v := decide (p.toInt + q.toInt + carry.toNat ≠ r.toInt) }

def logicFlags (s : A64State) {k : Nat} (r : BitVec k) : A64State :=
  { s with n := r.msb, z := decide (r = 0), c := false, v := false }

/-- `ConditionHolds` -/
def holds (s : A64State) (cond : BitVec 4) : Bool :=
  let result := match cond.extractLsb' 1 3 with
    | 0 => s.z
    | 1 => s.c
    | 2 => s.n
    | 3 => s.v
    | 4 => s.c && !s.z
    | 5 => s.n == s.v
    | 6 => s.n == s.v && !s.z
    | _ => true
  if cond.getLsbD 0 = true ∧ cond ≠ 15 then !result else result

end A64State

/-! ## Instructions -/

/-- Named as the classes of the instruction set, with its names for the fields. -/
inductive A64Instr where
  | addSubImm (sf op s sh : Bool) (imm12 : BitVec 12) (rn rd : RegNo)
  | logicalImm (sf : Bool) (opc : BitVec 2) (n : Bool) (immr imms : BitVec 6) (rn rd : RegNo)
  | moveWide (sf : Bool) (opc hw : BitVec 2) (imm16 : BitVec 16) (rd : RegNo)
  | bitfield (sf : Bool) (opc : BitVec 2) (n : Bool) (immr imms : BitVec 6) (rn rd : RegNo)
  | logicalReg (sf : Bool) (opc shift : BitVec 2) (n : Bool) (rm : RegNo) (imm6 : BitVec 6)
      (rn rd : RegNo)
  | addSubReg (sf op s : Bool) (shift : BitVec 2) (rm : RegNo) (imm6 : BitVec 6) (rn rd : RegNo)
  | addSubExt (sf op s : Bool) (rm : RegNo) (option imm3 : BitVec 3) (rn rd : RegNo)
  | condSelect (sf op : Bool) (rm : RegNo) (cond : BitVec 4) (o2 : Bool) (rn rd : RegNo)
  | shiftVar (sf : Bool) (rm : RegNo) (op2 : BitVec 2) (rn rd : RegNo)
  | rev32 (rn rd : RegNo)
  | mulAdd (sf : Bool) (rm ra rn rd : RegNo)
  | loadStore (size : BitVec 2) (simd : Bool) (opc : BitVec 2) (imm12 : BitVec 12) (rn rt : RegNo)
  | pair (opc mode : BitVec 2) (l : Bool) (imm7 : BitVec 7) (rt2 rn rt : RegNo)
  | orrVec (rm rn rd : RegNo)
  | branch (link : Bool) (imm26 : BitVec 26)
  | branchCond (imm19 : BitVec 19) (cond : BitVec 4)
  | compareBranch (sf nonzero : Bool) (imm19 : BitVec 19) (rt : RegNo)
  | testBranch (bit : BitVec 6) (nonzero : Bool) (imm14 : BitVec 14) (rt : RegNo)
  | branchReg (opc : BitVec 2) (rn : RegNo)
deriving DecidableEq

/-! ### Words -/

@[simp] def rdOf (word : U32) : RegNo := word.extractLsb' 0 5

@[simp] def rnOf (word : U32) : RegNo := word.extractLsb' 5 5

@[simp] def rmOf (word : U32) : RegNo := word.extractLsb' 16 5

def decodeImmediate (word : U32) : Option A64Instr :=
  let op := word.extractLsb' 23 3
  if op = 2 then
    some (.addSubImm (word.getLsbD 31) (word.getLsbD 30) (word.getLsbD 29) (word.getLsbD 22)
      (word.extractLsb' 10 12) (rnOf word) (rdOf word))
  else if op = 4 then
    some (.logicalImm (word.getLsbD 31) (word.extractLsb' 29 2) (word.getLsbD 22)
      (word.extractLsb' 16 6) (word.extractLsb' 10 6) (rnOf word) (rdOf word))
  else if op = 5 then
    some (.moveWide (word.getLsbD 31) (word.extractLsb' 29 2) (word.extractLsb' 21 2)
      (word.extractLsb' 5 16) (rdOf word))
  else if op = 6 then
    some (.bitfield (word.getLsbD 31) (word.extractLsb' 29 2) (word.getLsbD 22)
      (word.extractLsb' 16 6) (word.extractLsb' 10 6) (rnOf word) (rdOf word))
  else none

def decodeRegister (word : U32) : Option A64Instr :=
  if word.extractLsb' 24 5 = 10 then
    some (.logicalReg (word.getLsbD 31) (word.extractLsb' 29 2) (word.extractLsb' 22 2)
      (word.getLsbD 21) (rmOf word) (word.extractLsb' 10 6) (rnOf word) (rdOf word))
  else if word.extractLsb' 24 5 = 11 then
    if word.getLsbD 21 = false then
      some (.addSubReg (word.getLsbD 31) (word.getLsbD 30) (word.getLsbD 29)
        (word.extractLsb' 22 2) (rmOf word) (word.extractLsb' 10 6) (rnOf word) (rdOf word))
    else if word.extractLsb' 22 2 = 0 then
      some (.addSubExt (word.getLsbD 31) (word.getLsbD 30) (word.getLsbD 29) (rmOf word)
        (word.extractLsb' 13 3) (word.extractLsb' 10 3) (rnOf word) (rdOf word))
    else none
  else if word.extractLsb' 21 8 = 0xD4 then
    if word.getLsbD 29 = false ∧ word.getLsbD 11 = false then
      some (.condSelect (word.getLsbD 31) (word.getLsbD 30) (rmOf word) (word.extractLsb' 12 4)
        (word.getLsbD 10) (rnOf word) (rdOf word))
    else none
  else if word.extractLsb' 21 10 = 0x0D6 then
    if word.extractLsb' 12 4 = 2 then
      some (.shiftVar (word.getLsbD 31) (rmOf word) (word.extractLsb' 10 2) (rnOf word)
        (rdOf word))
    else none
  else if word.extractLsb' 21 11 = 0x2D6 ∧ rmOf word = 0 ∧ word.extractLsb' 10 6 = 2 then
    some (.rev32 (rnOf word) (rdOf word))
  else if word.extractLsb' 21 10 = 0x0D8 ∧ word.getLsbD 15 = false then
    some (.mulAdd (word.getLsbD 31) (rmOf word) (word.extractLsb' 10 5) (rnOf word) (rdOf word))
  else none

def decodeMemory (word : U32) : Option A64Instr :=
  if word.extractLsb' 27 3 = 7 ∧ word.extractLsb' 24 2 = 1 then
    some (.loadStore (word.extractLsb' 30 2) (word.getLsbD 26) (word.extractLsb' 22 2)
      (word.extractLsb' 10 12) (rnOf word) (rdOf word))
  else if word.extractLsb' 25 5 = 0x14 then
    some (.pair (word.extractLsb' 30 2) (word.extractLsb' 23 2) (word.getLsbD 22)
      (word.extractLsb' 15 7) (word.extractLsb' 10 5) (rnOf word) (rdOf word))
  else none

def decodeBranch (word : U32) : Option A64Instr :=
  if word.extractLsb' 26 5 = 5 then
    some (.branch (word.getLsbD 31) (word.extractLsb' 0 26))
  else if word.extractLsb' 25 6 = 0x2A then
    if word.getLsbD 31 = false ∧ word.getLsbD 24 = false ∧ word.getLsbD 4 = false then
      some (.branchCond (word.extractLsb' 5 19) (word.extractLsb' 0 4))
    else none
  else if word.extractLsb' 25 6 = 0x1A then
    some (.compareBranch (word.getLsbD 31) (word.getLsbD 24) (word.extractLsb' 5 19) (rdOf word))
  else if word.extractLsb' 25 6 = 0x1B then
    some (.testBranch (word.extractLsb' 31 1 ++ word.extractLsb' 19 5) (word.getLsbD 24)
      (word.extractLsb' 5 14) (rdOf word))
  else if word.extractLsb' 23 9 = 0x1AC ∧ word.extractLsb' 10 11 = 0x7C0 ∧ rdOf word = 0 then
    some (.branchReg (word.extractLsb' 21 2) (rnOf word))
  else none

def decode (word : U32) : Option A64Instr :=
  if word.extractLsb' 25 1 = 0 ∧ word.extractLsb' 27 1 = 1 then decodeMemory word
  else if word.extractLsb' 26 3 = 4 then decodeImmediate word
  else if word.extractLsb' 26 3 = 5 then decodeBranch word
  else if word.extractLsb' 25 3 = 5 then decodeRegister word
  else if word.extractLsb' 21 11 = 0x275 ∧ word.extractLsb' 10 6 = 7 then
    some (.orrVec (rmOf word) (rnOf word) (rdOf word))
  else none

/-! ## What they do -/

/-- `ShiftReg` -/
def shiftBy {k : Nat} (shift : BitVec 2) (v : BitVec k) (n : Nat) : BitVec k :=
  if shift = 0 then v <<< n
  else if shift = 1 then v >>> n
  else if shift = 2 then v.sshiftRight n
  else v.rotateRight n

/-- `ExtendReg`, with the shift behind it. -/
def extendBy {k : Nat} (option : BitVec 3) (v : BitVec k) (n : Nat) : BitVec k :=
  let len := 8 * 2 ^ (option.extractLsb' 0 2).toNat
  let part := v.setWidth len
  (if option.getLsbD 2 then part.signExtend k else part.setWidth k) <<< n

def logicBy {k : Nat} (opc : BitVec 2) (p q : BitVec k) : BitVec k :=
  if opc = 1 then p ||| q else if opc = 2 then p ^^^ q else p &&& q

/-- `DecodeBitMasks`: a run of ones, rotated, in every element of a register. -/
def bitMask (n : Bool) (immr imms : BitVec 6) : Option U64 :=
  let len := Nat.log2 ((BitVec.ofBool n ++ ~~~imms).toNat)
  let levels := 2 ^ len - 1
  let s := imms.toNat &&& levels
  let r := immr.toNat &&& levels
  if len = 0 ∨ s = levels then none
  else
    let welem : BitVec (2 ^ len) := BitVec.ofNat _ (2 ^ (s + 1) - 1)
    let elem := (welem.rotateRight r).toNat
    some ((List.range (64 / 2 ^ len)).foldl
      (fun mask i => mask ||| (BitVec.ofNat 64 elem <<< (i * 2 ^ len))) 0)

/-- The bits from `immr` to `imms` at the bottom, or else those up to `imms` above it. -/
def fieldOf {k : Nat} (src : BitVec k) (immr imms : Nat) : BitVec k :=
  if immr ≤ imms then (src <<< (k - 1 - imms)) >>> (k - 1 - imms + immr)
  else ((src <<< (k - 1 - imms)) >>> (k - 1 - imms)) <<< (k - immr)

/-- The same with copies of the field's highest bit above it. -/
def signedFieldOf {k : Nat} (src : BitVec k) (immr imms : Nat) : BitVec k :=
  if immr ≤ imms then (src <<< (k - 1 - imms)).sshiftRight (k - 1 - imms + immr)
  else ((src <<< (k - 1 - imms)).sshiftRight (k - 1 - imms)) <<< (k - immr)

def bitfieldOf {k : Nat} (opc : BitVec 2) (dst src : BitVec k) (immr imms : Nat) :
    Option (BitVec k) :=
  if opc = 0 then some (signedFieldOf src immr imms)
  else if opc = 1 then
    let mask := fieldOf (BitVec.allOnes k) immr imms
    some (dst &&& ~~~mask ||| fieldOf src immr imms)
  else if opc = 2 then some (fieldOf src immr imms)
  else none

def swapBytes (v : U32) : U32 :=
  v.extractLsb' 0 8 ++ v.extractLsb' 8 8 ++ v.extractLsb' 16 8 ++ v.extractLsb' 24 8

namespace A64State

variable (s : A64State)

/-- Both kinds of addition and subtraction, for the register that takes the result. -/
def addSub {k : Nat} (op setFlags : Bool) (p q : BitVec k) (put : A64State → BitVec k → A64State) :
    A64State :=
  let q := if op then ~~~q else q
  let r := p + q + BitVec.ofNat k op.toNat
  put (if setFlags then s.sumFlags p q op else s) r

/-- A load or store, of a general or a vector register. -/
def access (size : BitVec 2) (simd : Bool) (opc : BitVec 2) (rt : RegNo) (addr : U64) :
    Option A64State :=
  if simd then
    if size = 0 ∧ opc = 2 then some (s.store addr 16 (s.vec rt))
    else if size = 0 ∧ opc = 3 then some (s.setVec rt (s.load addr 16))
    else none
  else if opc = 0 then some (s.store addr (2 ^ size.toNat) ((s.x rt).setWidth _))
  else if opc = 1 then some (s.write rt (s.load addr (2 ^ size.toNat)))
  else none

def pair (opc mode : BitVec 2) (l : Bool) (imm7 : BitVec 7) (rt2 rn rt : RegNo) :
    Option A64State :=
  let bytes := if opc = 0 then 4 else 8
  let moved := s.gpr rn + imm7.signExtend 64 * BitVec.ofNat 64 bytes
  let addr := if mode = 1 then s.gpr rn else moved
  let back := fun t : A64State => if mode = 2 then t else t.setSp rn moved
  if opc = 1 ∨ opc = 3 ∨ mode = 0 then none
  -- what is then stored or loaded is not defined
  else if mode ≠ 2 ∧ rn ≠ 31 ∧ (rn = rt ∨ rn = rt2) then none
  else if l then
    if rt = rt2 then none
    else
      some ((back s).write rt (s.load addr bytes)
        |>.write rt2 (s.load (addr + BitVec.ofNat 64 bytes) bytes))
  else
    some (back ((s.store addr bytes ((s.x rt).setWidth _)).store
      (addr + BitVec.ofNat 64 bytes) bytes ((s.x rt2).setWidth _)))

end A64State

/-- An instruction other than a branch; nothing for one that is not defined. -/
def A64Instr.exec : A64Instr → A64State → Option A64State
  | .addSubImm sf op setFlags sh imm12 rn rd, s =>
    let imm := imm12.setWidth (sizeOf sf) <<< (if sh then 12 else 0)
    some (s.addSub op setFlags (s.readSp sf rn) imm fun t r =>
      if setFlags then t.write rd r else t.writeSp rd r)
  | .logicalImm sf opc n immr imms rn rd, s =>
    if n = true ∧ sf = false then none
    else
      (bitMask n immr imms).map fun mask =>
        let r := logicBy opc (s.read sf rn) (mask.setWidth _)
        if opc = 3 then (s.logicFlags r).write rd r else s.writeSp rd r
  | .moveWide sf opc hw imm16 rd, s =>
    let imm : BitVec (sizeOf sf) := imm16.setWidth _ <<< (16 * hw.toNat)
    let hole : BitVec (sizeOf sf) := (0xFFFF#16).setWidth _ <<< (16 * hw.toNat)
    if sf = false ∧ 2 ≤ hw.toNat then none
    else if opc = 0 then some (s.write rd (~~~imm))
    else if opc = 2 then some (s.write rd imm)
    else if opc = 3 then some (s.write rd (s.read sf rd &&& ~~~hole ||| imm))
    else none
  | .bitfield sf opc n immr imms rn rd, s =>
    if n ≠ sf ∨ sizeOf sf ≤ immr.toNat ∨ sizeOf sf ≤ imms.toNat then none
    else (bitfieldOf opc (s.read sf rd) (s.read sf rn) immr.toNat imms.toNat).map (s.write rd)
  | .logicalReg sf opc shift n rm imm6 rn rd, s =>
    if sizeOf sf ≤ imm6.toNat then none
    else
      let q := shiftBy shift (s.read sf rm) imm6.toNat
      let r := logicBy opc (s.read sf rn) (if n then ~~~q else q)
      some ((if opc = 3 then s.logicFlags r else s).write rd r)
  | .addSubReg sf op setFlags shift rm imm6 rn rd, s =>
    if shift = 3 ∨ sizeOf sf ≤ imm6.toNat then none
    else
      some (s.addSub op setFlags (s.read sf rn) (shiftBy shift (s.read sf rm) imm6.toNat)
        fun t r => t.write rd r)
  | .addSubExt sf op setFlags rm option imm3 rn rd, s =>
    if 4 < imm3.toNat then none
    else
      some (s.addSub op setFlags (s.readSp sf rn) (extendBy option (s.read sf rm) imm3.toNat)
        fun t r => if setFlags then t.write rd r else t.writeSp rd r)
  | .condSelect sf op rm cond o2 rn rd, s =>
    let q := if op then ~~~(s.read sf rm) else s.read sf rm
    let q := if o2 then q + 1 else q
    some (s.write rd (if s.holds cond then s.read sf rn else q))
  | .shiftVar sf rm op2 rn rd, s =>
    some (s.write rd (shiftBy op2 (s.read sf rn) ((s.read sf rm).toNat % sizeOf sf)))
  | .rev32 rn rd, s => some (s.write rd (swapBytes (s.w rn)))
  | .mulAdd sf rm ra rn rd, s =>
    some (s.write rd (s.read sf ra + s.read sf rn * s.read sf rm))
  | .loadStore size simd opc imm12 rn rt, s =>
    s.access size simd opc rt
      (s.gpr rn + imm12.setWidth 64 <<< (if simd then 4 else size.toNat))
  | .pair opc mode l imm7 rt2 rn rt, s => s.pair opc mode l imm7 rt2 rn rt
  | .orrVec rm rn rd, s => some (s.setVec rd (s.vec rn ||| s.vec rm))
  | .branch _ _, _ | .branchCond _ _, _ | .compareBranch _ _ _ _, _ | .testBranch _ _ _ _, _
  | .branchReg _ _, _ => none

/-- Whether a branch inside the code is taken, and its distance in words. -/
def A64Instr.branchTo : A64Instr → A64State → Option (Bool × Int)
  | .branch _ imm26, _ => some (true, imm26.toInt)
  | .branchCond imm19 cond, s => some (s.holds cond, imm19.toInt)
  | .compareBranch sf nonzero imm19 rt, s =>
    some (decide (s.read sf rt = 0) != nonzero, imm19.toInt)
  | .testBranch bit nonzero imm14 rt, s =>
    some ((s.x rt).getLsbD bit.toNat == nonzero, imm14.toInt)
  | _, _ => none

/-- The branches that leave their return address. -/
def A64Instr.links : A64Instr → Bool
  | .branch link _ => link
  | _ => false

end X86Port.Arm64
