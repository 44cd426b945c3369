import X86Port.Cpu.Insn
import X86Port.Jit.Block
import X86Port.Memory.Mem
import X86Port.Wasm.CpuImage

/-!
# The guest machine as emitted code

`jit_wasm_state.c`: the pieces of a block's body that reach a guest register, the flag state,
guest memory or the way out. An emitting function of the source is the code it appends; what a
chained exit appends after the EIP is stored is a parameter of the block.
-/

namespace X86Port.Wasm

open Cpu (Reg Width FlagKind Operand widthMask)
open Jit (JitExit)
open Lib

/-! ## Locals and imports -/

/-- `X86pWasmLocal`. -/
inductive WasmLocal where
  | cpu
  | addr
  | a
  | b
  | r
  | carry
  | target
deriving DecidableEq

/-- The imports of the integer families. `chainNext` stands for the loads and stores with which
a chained exit decides whether to transfer. -/
inductive WasmImport where
  | alu
  | cond
  | flagCf
  | memOk
  | memLoad
  | memStore
  | doubleShift
  | bit
  | chainNext
  | chainCall
  | leafCall
  | leafSiteFill
deriving DecidableEq

abbrev Instr := StackCode.Instr WasmLocal WasmImport

abbrev Code := List Instr

/-! ## The plan of a block -/

/-- The mapping a block is translated against. -/
structure WasmPlan where
  base : U32
  lo : U32
  size : U32
  memoryContext : U32
  perms : U32
  pageShift : U32

/-- The address an exit leaves for, for the code of a chained exit. -/
inductive ExitTarget where
  | imm (eip : U32)
  | fromLocal (eip : WasmLocal)

/-- `X86pWasmState`; without a chain, `chainEmit` emits nothing. -/
structure WasmState where
  plan : WasmPlan
  lay : CpuLayout
  chainEmit : ExitTarget → Code

def exitCode : JitExit → U32
  | .blockEnd => 0
  | .unsupported => 1
  | .memoryFault => 2
  | .divideError => 3
  | .interrupt => 4
  | .protectionFault => 5
  | .boundRange => 6

namespace WasmState

variable (s : WasmState)

/-! ## Registers and flags -/

/-- The push of the `X86pCpu` address. -/
def cpu : Instr := .localGet .cpu

def flagsAddr : Code := [cpu, .const (BitVec.ofNat 32 flagsOffset), .op .add]

def loadW (offset : Nat) (w : Width) : Instr := .load w.bytes offset

def storeW (offset : Nat) (w : Width) : Instr := .store w.bytes offset

def loadReg (index : Reg) (w : Width) : Code := [cpu, loadW (regOffsetW index w) w]

def storeReg (index : Reg) (w : Width) (value : WasmLocal) : Code :=
  [cpu, .localGet value, storeW (regOffsetW index w) w]

/-- The tuple's operands and result come from their locals. -/
def storeFlags (kind : FlagKind) (w : Width) : Code :=
  [cpu, .localGet .a, .store 4 aOffset,
    cpu, .localGet .b, .store 4 bOffset,
    cpu, .localGet .r, .store 4 rOffset,
    cpu, .const ((kindCode kind).setWidth 32), .store 1 kindOffset,
    cpu, .const ((widthCode w).setWidth 32), .store 1 wOffset]

def storeCarry : Code := [cpu, .localGet .carry, .store 1 carryInOffset]

def storeDf (value : Bool) : Code := [cpu, .const (if value then 1 else 0), .store 1 s.lay.df]

/-! ## Exits -/

/-- The code behind the store of the EIP. -/
def leave (exit : JitExit) (target : ExitTarget) : Code :=
  (if exit = .blockEnd then s.chainEmit target else []) ++ ([.const (exitCode exit), .ret] : Code)

def exitImm (eip : U32) (exit : JitExit) : Code :=
  .localGet .cpu :: .const eip :: .store 4 eipOffset :: s.leave exit (.imm eip)

def exitLocal (eip : WasmLocal) (exit : JitExit) : Code :=
  .localGet .cpu :: .localGet eip :: .store 4 eipOffset :: s.leave exit (.fromLocal eip)

/-! ## Addresses -/

def indexShift (scale : Nat) : U32 :=
  if scale = 8 then 3 else if scale = 4 then 2 else if scale = 2 then 1 else 0

/-- The zero-extended index, scaled. -/
def scaledIndex (o : Operand) (index : Reg) : Code :=
  loadReg index .dword ++
  (if o.indexLowByte then ([.const 0xFF, .op .and] : Code) else []) ++
  (if indexShift o.scale ≠ 0 then ([.const (indexShift o.scale), .op .shl] : Code) else [])

/-- A zero stands in for the base and the index when neither is there. -/
def baseAndIndex (o : Operand) : Code :=
  match o.base, o.index with
  | some base, some index => loadReg base .dword ++ scaledIndex o index ++ ([.op .add] : Code)
  | some base, none => loadReg base .dword
  | none, some index => scaledIndex o index
  | none, none => [.const 0]

def addressParts (o : Operand) : Code :=
  baseAndIndex o ++ (if o.disp ≠ 0 then ([.const o.disp, .op .add] : Code) else [])

def address (o : Operand) : Code :=
  addressParts o ++
  (match o.seg with
    | .fs => [cpu, .load 4 s.lay.fsBase, .op .add]
    | .gs => [cpu, .load 4 s.lay.gsBase, .op .add]
    | _ => [])

/-! ## Guarded accesses -/

/-- The table's byte for the page of the first byte. -/
def firstPage : Code :=
  [.localGet .addr, .const s.plan.pageShift, .op .shrU, .load 1 s.plan.perms.toNat]

/-- The table's byte for the page of the last byte, taken together with the first's. -/
def lastPage (w : Nat) : Code :=
  [.localGet .addr, .const (BitVec.ofNat 32 (w - 1)), .op .add, .const s.plan.pageShift,
    .op .shrU, .load 1 s.plan.perms.toNat, .op .and]

def hasAccess (access : U32) : Code := [.const access, .op .and, .const access, .op .eq]

/-- One branch answers for both pages. -/
def permsPermitted (w : Nat) (access : U32) : Code :=
  if s.plan.perms = 0 then
    [.const 1]
  else
    s.firstPage ++ (if 1 < w then s.lastPage w else []) ++ hasAccess access

def guardPerms (insnEip : U32) (w : Nat) (access : U32) : Code :=
  if s.plan.perms = 0 then
    []
  else
    s.permsPermitted w access ++
    [.op .eqz, .ite (s.exitImm insnEip .memoryFault) []]

/-- The call of the checked import, for sparse memory. -/
def callMemOk (w : Nat) (access : U32) : Code :=
  [.const s.plan.memoryContext, .localGet .addr, .const (BitVec.ofNat 32 w), .const access,
    .call .memOk]

/-- The offset of the address local from `lo`, kept in that local and left on the stack. -/
def offsetFromLo : Code :=
  ([.localGet .addr] : Code) ++
  (if s.plan.lo ≠ 0 then ([.const s.plan.lo, .op .sub] : Code) else []) ++
  ([.localTee .addr] : Code)

/-- The offset becomes a linear address. -/
def toLinear : Code := [.localGet .addr, .const s.plan.base, .op .add, .localSet .addr]

/-- One unsigned comparison covers both ends of the mapping. -/
def guardBounds (insnEip : U32) (w : Nat) : Code :=
  [.const (s.plan.size - BitVec.ofNat 32 w), .op .gtU, .ite (s.exitImm insnEip .memoryFault) []]

def guardAddr (insnEip : U32) (w : Nat) (access : U32) : Code :=
  if s.plan.memoryContext ≠ 0 then
    s.callMemOk w access ++ ([.op .eqz, .ite (s.exitImm insnEip .memoryFault) []] : Code)
  -- a mapping narrower than the access has no address in bounds
  else if s.plan.size < BitVec.ofNat 32 w then
    s.exitImm insnEip .memoryFault
  else
    s.offsetFromLo ++ s.guardBounds insnEip w ++ s.guardPerms insnEip w access ++ s.toLinear

def guard (o : Operand) (insnEip : U32) (w : Nat) (access : U32) : Code :=
  s.address o ++ .localSet .addr :: s.guardAddr insnEip w access

/-- The verdict on an offset, which is a linear address once the bounds hold. -/
def checkBounds (w : Nat) (access : U32) : Code :=
  [.const (s.plan.size - BitVec.ofNat 32 w), .op .leU,
    .ite (s.permsPermitted w access ++ s.toLinear) [.const 0]]

/-- The same proof pushed as a value, for an address in its local. -/
def checkAddr (w : Nat) (access : U32) : Code :=
  if s.plan.memoryContext ≠ 0 then
    s.callMemOk w access
  else if s.plan.size < BitVec.ofNat 32 w then
    [.const 0]
  else
    s.offsetFromLo ++ s.checkBounds w access

def check (o : Operand) (w : Nat) (access : U32) : Code :=
  s.address o ++ .localSet .addr :: s.checkAddr w access

/-! ## Guest memory -/

def loadMem (w : Width) : Code :=
  if s.plan.memoryContext ≠ 0 then
    [.const s.plan.memoryContext, .localGet .addr, .const (BitVec.ofNat 32 w.bytes),
      .call .memLoad]
  else
    [.localGet .addr, loadW 0 w]

def storeMem (w : Width) (value : WasmLocal) : Code :=
  if s.plan.memoryContext ≠ 0 then
    [.const s.plan.memoryContext, .localGet .addr, .const (BitVec.ofNat 32 w.bytes),
      .localGet value, .call .memStore]
  else
    [.localGet .addr, .localGet value, storeW 0 w]

end WasmState

/-! ## Running a body -/

/-- What the imported functions answer and do to linear memory. -/
abbrev Imports := WasmImport → List U32 → LinearMem → Option (Option U32 × LinearMem)

def WasmImport.arity : WasmImport → Nat
  | .alu => 5
  | .cond => 2
  | .flagCf => 1
  | .memOk => 4
  | .memLoad => 3
  | .memStore => 4
  | .doubleShift => 6
  | .bit => 4
  | .chainNext => 1
  | .chainCall => 2
  | .leafCall => 2
  | .leafSiteFill => 2

def wasmEnv (imports : Imports) : StackCode.Env LinearMem WasmImport where
  load := LinearMem.load
  store := LinearMem.store
  arity := WasmImport.arity
  call := imports

/-- `x86p_wasm_plan_from_mem`, for a mapping and a table at the given addresses. -/
def planFromMem (m : Memory.Mem) (memAt permsAt : U32) : WasmPlan where
  base := BitVec.ofNat 32 m.host
  lo := m.lo
  size := m.size
  memoryContext := if m.sparse.isSome then memAt else 0
  perms := if m.sparse.isSome ∨ m.perms = none then 0 else permsAt
  pageShift := match m.perms with
    | some t => BitVec.ofNat 32 t.pageShift
    | none => 0

end X86Port.Wasm
