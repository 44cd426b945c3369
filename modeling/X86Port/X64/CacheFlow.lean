import Mathlib.Data.Finset.Card
import X86Port.X64.GprCache

/-!
# Paths through a block and the register cache

What a block emits as a sequence of operations, and every way its code can be run: a jump leaves
for the place where its site is bound, a helper writes what it likes to the guest CPU.

* `step_keeps`: one operation, along whatever path reaches it.
* `run_spill`: R12 around the helper call of a read-modify-write operand.
* `cache_coherent`: every path through every sequence.
-/

namespace X86Port.X64

open Cpu (Reg Width X86Cpu regRead widthMask)
open Wasm (LinearMem image regOffset)

/-! ## What an instruction leaves alone -/

def HostInsn.writes : HostInsn → HostReg → Bool
  | .load _ dst _ _, r | .mov32 dst _, r | .movImm32 dst _, r | .mov64 dst _, r
  | .movImm64 dst _, r | .lea64 dst _ _, r | .shiftImm _ dst _, r | .alu32 _ dst _, r
  | .aluImm32 _ dst _, r | .aluMem32 _ dst _ _, r | .aluImm64 _ dst _, r => r = dst
  | .store .., _ | .storeImm .., _ | .store64 .., _ => false
  | .push _, r => r = .rsp
  | .pop dst, r => r = .rsp || r = dst

def HostInsn.storesMem : HostInsn → Bool
  | .store .. | .storeImm .. | .store64 .. | .push _ => true
  | _ => false

theorem exec_keeps {i : HostInsn} {s s' : HostState} (h : i.exec s = some s') {r : HostReg}
    (hr : i.writes r = false) : s'.reg r = s.reg r := by
  cases i <;> simp only [HostInsn.exec, Option.map_eq_some_iff, Option.some.injEq] at h <;>
    simp only [HostInsn.writes, decide_eq_false_iff_not, Bool.or_eq_false_iff] at hr
  case load => obtain ⟨v, -, rfl⟩ := h; exact s.setLow_ne hr v
  case aluMem32 => obtain ⟨v, -, rfl⟩ := h; exact s.setLow_ne hr _
  case store | storeImm | store64 => obtain ⟨m, -, rfl⟩ := h; rfl
  case push => obtain ⟨m, -, rfl⟩ := h; exact s.set_ne hr _
  case pop =>
    obtain ⟨v, -, rfl⟩ := h
    exact ((s.set .rsp _).set_ne hr.2 v).trans (s.set_ne hr.1 _)
  case mov32 | movImm32 | shiftImm | alu32 | aluImm32 => subst h; exact s.setLow_ne hr _
  case mov64 | movImm64 | lea64 | aluImm64 => subst h; exact s.set_ne hr _

theorem exec_keeps_mem {i : HostInsn} {s s' : HostState} (h : i.exec s = some s')
    (hi : i.storesMem = false) : s'.mem = s.mem := by
  cases i <;> simp only [HostInsn.exec, Option.map_eq_some_iff, Option.some.injEq] at h
  case store | storeImm | store64 | push => cases hi
  case load | aluMem32 | pop => obtain ⟨v, -, rfl⟩ := h; rfl
  all_goals subst h; rfl

theorem run_keeps {code : HostCode} {s s' : HostState} (h : run code s = some s') {r : HostReg}
    (hr : ∀ i ∈ code, i.writes r = false) : s'.reg r = s.reg r := by
  induction code generalizing s with
  | nil =>
    cases h
    rfl
  | cons i code ih =>
    rw [run_cons] at h
    obtain ⟨s₁, hi, hrest⟩ := Option.bind_eq_some_iff.mp h
    rw [ih hrest fun j hj => hr j (List.mem_cons_of_mem _ hj),
      exec_keeps hi (hr i List.mem_cons_self)]

theorem run_keeps_mem {code : HostCode} {s s' : HostState} (h : run code s = some s')
    (hcode : ∀ i ∈ code, i.storesMem = false) : s'.mem = s.mem := by
  induction code generalizing s with
  | nil =>
    cases h
    rfl
  | cons i code ih =>
    rw [run_cons] at h
    obtain ⟨s₁, hi, hrest⟩ := Option.bind_eq_some_iff.mp h
    rw [ih hrest fun j hj => hcode j (List.mem_cons_of_mem _ hj),
      exec_keeps_mem hi (hcode i List.mem_cons_self)]

/-! ## Memory beside the guest CPU -/

/-- The bytes of the guest CPU. -/
def CpuHome.Has (H : CpuHome) (x : Nat) : Prop :=
  H.cpu.toNat ≤ x ∧ x < H.cpu.toNat + (H.lay.gsBase + 4)

section

variable {H : CpuHome} {cpu : X86Cpu} {rest : LinearMem}

theorem image_beside {x : Nat} (h : ¬ H.Has x) : image H.lay H.cpu.toNat cpu rest x = rest x := by
  have hflags := H.lay.flags_lt_df
  have hfs := H.lay.df_lt_fsBase
  have hgs := H.lay.fsBase_lt_gsBase
  refine Wasm.image_of_none fun o ho => ?_
  have hfar : H.lay.gsBase + 4 ≤ o := by
    by_contra hlt
    exact h ⟨by omega, by omega⟩
  unfold Wasm.cpuByte
  rw [if_neg (by omega), if_neg (by omega), if_neg (by omega), if_neg (by omega),
    if_neg (by omega), if_neg (by omega), if_neg (by omega), if_neg (by omega),
    if_neg (by omega), if_neg (by omega), if_neg (by omega)]

/-- A store beside the guest CPU. -/
theorem image_store {a n : Nat} (v : U32) (h : ∀ i < n, ¬ H.Has (a + i)) :
    (image H.lay H.cpu.toNat cpu rest).store n a v =
      (rest.store n a v).map (image H.lay H.cpu.toNat cpu) := by
  have hbytes : (∀ i < n, (image H.lay H.cpu.toNat cpu rest (a + i)).isSome) ↔
      ∀ i < n, (rest (a + i)).isSome :=
    forall₂_congr fun i hi => by rw [image_beside (h i hi)]
  unfold LinearMem.store
  rw [if_congr hbytes rfl rfl]
  split_ifs
  · refine congrArg some (funext fun x => ?_)
    by_cases hx : a ≤ x ∧ x < a + n
    · have hbeside := h (x - a) (by omega)
      rw [Nat.add_sub_of_le hx.1] at hbeside
      rw [if_pos hx, image_beside hbeside, if_pos hx]
    · unfold image
      simp only [if_neg hx]
  · rfl

theorem image_bytes {a n : Nat} (h : ∀ i < n, ¬ H.Has (a + i)) :
    (image H.lay H.cpu.toNat cpu rest).bytes a n = rest.bytes a n := by
  induction n generalizing a with
  | zero => rfl
  | succ n ih =>
    have htail : ∀ i < n, ¬ H.Has (a + 1 + i) := fun i hi => by
      have := h (i + 1) (by omega)
      rwa [show a + (i + 1) = a + 1 + i by omega] at this
    have hhead : ¬ H.Has a := h 0 (Nat.succ_pos n)
    rw [LinearMem.bytes, LinearMem.bytes, ih htail, image_beside hhead]

theorem image_load {a n : Nat} (h : ∀ i < n, ¬ H.Has (a + i)) :
    (image H.lay H.cpu.toNat cpu rest).load n a = rest.load n a := by
  rw [LinearMem.load, LinearMem.load, image_bytes h]

theorem image_store64 {a : Nat} (v : U64) (h : ∀ i < 8, ¬ H.Has (a + i)) :
    store64 (image H.lay H.cpu.toNat cpu rest) a v =
      (store64 rest a v).map (image H.lay H.cpu.toNat cpu) := by
  have hhigh : ∀ i < 4, ¬ H.Has (a + 4 + i) := fun i hi => by
    rw [Nat.add_assoc]
    exact h (4 + i) (by omega)
  unfold store64
  rw [image_store _ fun i hi => h i (by omega), Option.bind_map, Option.map_bind]
  exact congrArg _ (funext fun m => image_store _ hhigh)

theorem image_load64 {a : Nat} (h : ∀ i < 8, ¬ H.Has (a + i)) :
    load64 (image H.lay H.cpu.toNat cpu rest) a = load64 rest a := by
  have hhigh : ∀ i < 4, ¬ H.Has (a + 4 + i) := fun i hi => by
    rw [Nat.add_assoc]
    exact h (4 + i) (by omega)
  unfold load64
  rw [image_load fun i hi => h i (by omega), image_load hhigh]

end

/-! ## A saved register -/

theorem store_some {m m' : LinearMem} {n a : Nat} {v : U32} (h : m.store n a v = some m') :
    m' = fun x => if a ≤ x ∧ x < a + n then some (Wasm.byteOf v (x - a)) else m x := by
  unfold LinearMem.store at h
  split_ifs at h
  exact (Option.some_inj.mp h).symm

theorem store64_some {m m' : LinearMem} {a : Nat} {v : U64} (h : store64 m a v = some m') :
    load64 m' a = some v ∧ ∀ x, ¬ (a ≤ x ∧ x < a + 8) → m' x = m x := by
  obtain ⟨m₁, hlow, hhigh⟩ := Option.bind_eq_some_iff.mp h
  obtain rfl := store_some hlow
  obtain rfl := store_some hhigh
  refine ⟨?_, fun x hx => ?_⟩
  · have hhead : ∀ v v' : U32, LinearMem.load (fun x =>
        if a + 4 ≤ x ∧ x < a + 4 + 4 then some (Wasm.byteOf v' (x - (a + 4)))
        else if a ≤ x ∧ x < a + 4 then some (Wasm.byteOf v (x - a)) else m x) 4 a = some v :=
      fun v v' => Wasm.load_dword fun i hi => by
        rw [if_neg (by omega), if_pos (by omega), Nat.add_sub_cancel_left]
    have htail : ∀ v v' : U32, LinearMem.load (fun x =>
        if a + 4 ≤ x ∧ x < a + 4 + 4 then some (Wasm.byteOf v' (x - (a + 4)))
        else if a ≤ x ∧ x < a + 4 then some (Wasm.byteOf v (x - a)) else m x) 4 (a + 4) =
          some v' :=
      fun v v' => Wasm.load_dword fun i hi => by
        rw [if_pos (by omega), Nat.add_sub_cancel_left]
    rw [load64, hhead, htail, Option.bind_some, Option.map_some]
    refine congrArg some (BitVec.eq_of_getLsbD_eq fun i hi => ?_)
    rw [BitVec.getLsbD_append, BitVec.getLsbD_setWidth, BitVec.getLsbD_setWidth,
      BitVec.getLsbD_ushiftRight]
    by_cases hlt : i < 32
    · simp [hlt]
    · rw [if_neg hlt, Nat.add_sub_of_le (by omega), decide_eq_true (by omega), Bool.true_and]
  · exact (if_neg (by omega)).trans (if_neg (by omega))

theorem load64_congr {m m' : LinearMem} {a : Nat} (h : ∀ x, a ≤ x → x < a + 8 → m' x = m x) :
    load64 m' a = load64 m a := by
  have hbytes : ∀ n b, a ≤ b → b + n ≤ a + 8 → m'.bytes b n = m.bytes b n := by
    intro n
    induction n with
    | zero => exact fun _ _ _ => rfl
    | succ n ih =>
      intro b hlo hhi
      rw [LinearMem.bytes, LinearMem.bytes, h b hlo (by omega), ih (b + 1) (by omega) (by omega)]
  unfold load64 LinearMem.load
  rw [hbytes 4 a le_rfl (by omega), hbytes 4 (a + 4) (by omega) (by omega)]

/-! ## A helper call -/

inductive HostAbi where
  | systemV
  | win64
deriving DecidableEq

namespace HostAbi

def arg : HostAbi → Nat → HostReg
  | .systemV, 0 => .rdi
  | .systemV, 1 => .rsi
  | .systemV, 2 => .rdx
  | .systemV, 3 => .rcx
  | .systemV, 4 => .r8
  | .systemV, _ => .r9
  | .win64, 0 => .rcx
  | .win64, 1 => .rdx
  | .win64, 2 => .r8
  | .win64, _ => .r9

def callFrameBytes : HostAbi → Nat
  | .systemV => 0
  | .win64 => 48

def stackArgOffset (index : Nat) : Nat := 32 + (index - 4) * 8

def emitArg64Reg (abi : HostAbi) (index : Nat) (value : HostReg) : HostCode :=
  if abi ≠ .win64 ∨ index < 4 then [.mov64 (abi.arg index) value]
  else [.store64 .rsp (fieldDisp (stackArgOffset index)) value]

/-- The bytes above RSP that belong to the function that is called: the home area and the one
argument slot of Win64. -/
def calleeBytes : HostAbi → Nat
  | .systemV => 0
  | .win64 => 40

end HostAbi

/-- Where the block runs: its guest CPU, the stack it was entered on with the block's RSP, and
the host bytes of guest memory. -/
structure HostEnv where
  home : CpuHome
  abi : HostAbi
  rsp : U64
  stackTop : Nat
  guest : Nat → Prop
  room : 128 ≤ rsp.toNat
  below : rsp.toNat ≤ stackTop
  stack_cpu : ∀ x, rsp.toNat - 128 ≤ x → x < stackTop → ¬ home.Has x
  guest_cpu : ∀ x, guest x → ¬ home.Has x
  guest_stack : ∀ x, guest x → x < rsp.toNat - 128 ∨ stackTop ≤ x

/-- What a C function promises its caller: the nonvolatile registers, and the frames above the
bytes that are its own. It may write any guest register. -/
structure Called (E : HostEnv) (s s' : HostState) (cpu' : X86Cpu) (rest rest' : LinearMem) :
    Prop where
  kept : ∀ r, r = .rbx ∨ r = .rsp ∨ r = .rbp ∨ r = .r12 ∨ r = .r13 ∨ r = .r14 ∨ r = .r15 →
    s'.reg r = s.reg r
  holds : HoldsCpu E.home cpu' rest' s'
  frames : ∀ x, (s.reg .rsp).toNat + E.abi.calleeBytes ≤ x → x < E.stackTop → rest' x = rest x

inductive AluSource where
  | imm (value : U32)
  | reg (reg : Reg) (w : Width)

/-- The loads of the first operand through R12 and of the second, the operation, the width and
the flags' address. -/
def spillArgs (abi : HostAbi) (alu : U32) (w : Width) (src : AluSource) : HostCode :=
  ([.load w (abi.arg 1) .r12 0] : HostCode) ++
  (match src with
    | .imm value => ([.movImm32 (abi.arg 2) (value &&& widthMask w)] : HostCode)
    | .reg reg sw => [.load sw (abi.arg 2) .rbx (regOffW reg sw)]) ++
  ([.movImm32 (abi.arg 0) alu, .movImm32 (abi.arg 3) (BitVec.ofNat 32 w.bytes),
    .lea64 .rax .rbx (fieldDisp Wasm.flagsOffset)] : HostCode)

/-- The part of `emit_alu_helper` from the save of R12 to the call, for a destination in memory
whose host pointer is in R11. -/
def spillBefore (abi : HostAbi) (alu : U32) (w : Width) (src : AluSource) (helper : U64) :
    HostCode :=
  ([.push .r12, .aluImm64 .sub .rsp (BitVec.ofNat 8 (8 + abi.callFrameBytes)),
    .mov64 .r12 .r11] : HostCode) ++
  spillArgs abi alu w src ++ abi.emitArg64Reg 4 .rax ++ ([.movImm64 .rax helper] : HostCode)

/-- And from the call to its restore. -/
def spillAfter (abi : HostAbi) (w : Width) (writesDest : Bool) : HostCode :=
  (if writesDest then ([.store w .r12 0 .rax] : HostCode) else []) ++
  ([.aluImm64 .add .rsp (BitVec.ofNat 8 (8 + abi.callFrameBytes)), .pop .r12] : HostCode)

/-! ## Operations and paths -/

inductive Op where
  | load (dst : HostReg) (reg : Reg) (w : Width)
  | store (reg : Reg) (src : HostReg) (w : Width)
  | storeImm (reg : Reg) (imm : U32) (w : Width)
  | forget
  | other
  | call
  | spillCall (alu : U32) (w : Width) (src : AluSource) (helper : U64) (writesDest : Bool)
  | jcc (site : Nat)
  | jmp (site : Nat)
  | bind (site : Nat)

/-- What the translator knows after an operation. -/
def Op.after (c : BlockCtx) : Op → BlockCtx
  | .load dst reg w => (gprLoad c dst reg w).1
  | .store reg src w => (gprStore c reg src w).1
  | .storeImm reg imm w => (gprStoreImm c reg imm w).1
  | .forget => gprForget c
  | .call | .spillCall .. => { c with calls := c.calls + 1 }
  | .bind _ => { c with sitesBound := c.sitesBound + 1 }
  | .other | .jcc _ | .jmp _ => c

/-- Emitted code computes in scratch registers. -/
def Op.Legal : Op → Prop
  | .load dst _ _ => IsScratch dst
  | _ => True

/-- A path is at the point that is being emitted, or on its way to a site. -/
inductive Place where
  | here
  | waiting (site : Nat)
deriving DecidableEq

/-- A path, with the guest CPU the architecture has there. -/
structure Flow where
  place : Place
  host : HostState
  cpu : X86Cpu

/-- Code that touches neither the guest registers nor what the block keeps: the flags, guest
memory and scratch registers may change. -/
structure Other (E : HostEnv) (s s' : HostState) (cpu cpu' : X86Cpu) : Prop where
  kept : ∀ r, IsCache r ∨ r = .rbx ∨ r = .rsp → s'.reg r = s.reg r
  reg : cpu'.reg = cpu.reg
  holds : ∃ rest', HoldsCpu E.home cpu' rest' s'

inductive Step (E : HostEnv) (c : BlockCtx) : Op → Flow → Flow → Prop where
  | load {dst reg w s s' cpu} (h : run (gprLoad c dst reg w).2 s = some s') :
    Step E c (.load dst reg w) ⟨.here, s, cpu⟩ ⟨.here, s', cpu⟩
  | store {reg src w s s' cpu} (h : run (gprStore c reg src w).2 s = some s') :
    Step E c (.store reg src w) ⟨.here, s, cpu⟩ ⟨.here, s', written cpu reg w (s.low src)⟩
  | storeImm {reg imm w s s' cpu} (h : run (gprStoreImm c reg imm w).2 s = some s') :
    Step E c (.storeImm reg imm w) ⟨.here, s, cpu⟩ ⟨.here, s', written cpu reg w imm⟩
  | forget {s cpu} : Step E c .forget ⟨.here, s, cpu⟩ ⟨.here, s, cpu⟩
  | other {s s' cpu cpu'} (h : Other E s s' cpu cpu') :
    Step E c .other ⟨.here, s, cpu⟩ ⟨.here, s', cpu'⟩
  | call {s s' cpu cpu' rest rest'} (hs : HoldsCpu E.home cpu rest s)
    (h : Called E s s' cpu' rest rest') : Step E c .call ⟨.here, s, cpu⟩ ⟨.here, s', cpu'⟩
  | spillCall {alu w src helper writesDest s s₁ s₂ s' cpu cpu' rest rest'}
    (hguest : ∀ i < w.bytes, E.guest ((s.reg .r11).toNat + i))
    (hbefore : run (spillBefore E.abi alu w src helper) s = some s₁)
    (hs : HoldsCpu E.home cpu rest s₁) (h : Called E s₁ s₂ cpu' rest rest')
    (hafter : run (spillAfter E.abi w writesDest) s₂ = some s') :
    Step E c (.spillCall alu w src helper writesDest) ⟨.here, s, cpu⟩ ⟨.here, s', cpu'⟩
  | jccTaken {site s cpu} : Step E c (.jcc site) ⟨.here, s, cpu⟩ ⟨.waiting site, s, cpu⟩
  | jccNot {site s cpu} : Step E c (.jcc site) ⟨.here, s, cpu⟩ ⟨.here, s, cpu⟩
  | jmp {site s cpu} : Step E c (.jmp site) ⟨.here, s, cpu⟩ ⟨.waiting site, s, cpu⟩
  | joined {site s cpu} : Step E c (.bind site) ⟨.waiting site, s, cpu⟩ ⟨.here, s, cpu⟩
  | bind {site s cpu} : Step E c (.bind site) ⟨.here, s, cpu⟩ ⟨.here, s, cpu⟩
  | away {op site s cpu} (h : op ≠ .bind site) :
    Step E c op ⟨.waiting site, s, cpu⟩ ⟨.waiting site, s, cpu⟩

def afterAll (c : BlockCtx) : List Op → BlockCtx := List.foldl Op.after c

/-- The paths through a sequence of operations. -/
inductive Runs (E : HostEnv) : BlockCtx → List Op → Flow → Flow → Prop where
  | nil {c f} : Runs E c [] f f
  | cons {c op ops f g f'} (h : Step E c op f g) (hrest : Runs E (op.after c) ops g f') :
    Runs E c (op :: ops) f f'

/-! ## The spill of R12 -/

section

variable {E : HostEnv} {s s' : HostState} {cpu : X86Cpu} {rest : LinearMem}

/-- Bytes of the stack around the block's RSP are not the guest CPU's. -/
theorem HostEnv.stack_beside (E : HostEnv) {a n : Nat} (hlo : E.rsp.toNat - 128 ≤ a)
    (hhi : a + n ≤ E.stackTop) : ∀ i < n, ¬ E.home.Has (a + i) :=
  fun i hi => E.stack_cpu (a + i) (by omega) (by omega)

theorem HostEnv.guest_beside (E : HostEnv) {a n : Nat} (h : ∀ i < n, E.guest (a + i)) :
    ∀ i < n, ¬ E.home.Has (a + i) := fun i hi => E.guest_cpu _ (h i hi)

theorem HoldsCpu.unique {H : CpuHome} {rest' : LinearMem} (h : HoldsCpu H cpu rest s)
    (h' : HoldsCpu H cpu rest' s) {x : Nat} (hx : ¬ H.Has x) : rest' x = rest x := by
  have heq : image H.lay H.cpu.toNat cpu rest' x = image H.lay H.cpu.toNat cpu rest x := by
    rw [← h.mem, ← h'.mem]
  rwa [image_beside hx, image_beside hx] at heq

theorem frame_signExtend (abi : HostAbi) :
    (BitVec.ofNat 8 (8 + abi.callFrameBytes)).signExtend 64 =
      BitVec.ofNat 64 (8 + abi.callFrameBytes) := by
  cases abi <;> decide

/-- The code between the save and the call, without the store of the last argument. -/
theorem run_emitArg64Reg (abi : HostAbi) (h : run (abi.emitArg64Reg 4 .rax) s = some s')
    (hs : HoldsCpu E.home cpu rest s) (hlo : E.rsp.toNat - 64 ≤ (s.reg .rsp).toNat)
    (hhi : (s.reg .rsp).toNat + abi.calleeBytes ≤ E.rsp.toNat - 8) :
    ∃ rest', HoldsCpu E.home cpu rest' s' ∧
      (∀ x, E.rsp.toNat - 8 ≤ x → rest' x = rest x) ∧
      ∀ r, r ≠ .r8 → s'.reg r = s.reg r := by
  have hbelow := E.below
  have htop := E.rsp.isLt
  cases abi with
  | systemV =>
    cases h
    exact ⟨rest, ⟨(s.set_ne (by decide) _).trans hs.rbx, hs.mem⟩, fun _ _ => rfl,
      fun r hr => s.set_ne hr _⟩
  | win64 =>
    rw [HostAbi.calleeBytes] at hhi
    have haddr : s.addr .rsp (fieldDisp (HostAbi.stackArgOffset 4)) = (s.reg .rsp).toNat + 32 := by
      have hdisp : (fieldDisp (HostAbi.stackArgOffset 4)).signExtend 64 = 32#64 := by decide
      rw [HostState.addr, hdisp]
      bv_omega
    have hstore : ((store64 s.mem ((s.reg .rsp).toNat + 32) (s.reg .rax)).map s.withMem).bind
        (run []) = some s' := by
      rw [← haddr]
      exact h
    have hbeside := E.stack_beside (a := (s.reg .rsp).toNat + 32) (n := 8) (by omega) (by omega)
    rw [hs.mem, image_store64 _ hbeside] at hstore
    obtain ⟨s₁, hs₁, hlast⟩ := Option.bind_eq_some_iff.mp hstore
    obtain ⟨m, hm, rfl⟩ := Option.map_eq_some_iff.mp hs₁
    obtain ⟨rest', hrest, rfl⟩ := Option.map_eq_some_iff.mp hm
    cases hlast
    refine ⟨rest', ⟨hs.rbx, rfl⟩, fun x hx => ?_, fun _ _ => rfl⟩
    exact (store64_some hrest).2 x (by omega)

theorem spillArgs_keeps (abi : HostAbi) (alu : U32) (w : Width) (src : AluSource) {r : HostReg}
    (hr : IsCache r ∨ r = .rbx ∨ r = .rsp) : ∀ i ∈ spillArgs abi alu w src, i.writes r = false := by
  rcases hr with (rfl | rfl | rfl) | rfl | rfl <;> cases abi <;> cases src <;>
    simp [spillArgs, HostAbi.arg, HostInsn.writes]

theorem spillArgs_storesMem (abi : HostAbi) (alu : U32) (w : Width) (src : AluSource) :
    ∀ i ∈ spillArgs abi alu w src, i.storesMem = false := by
  cases src <;> simp [spillArgs, HostInsn.storesMem]

/-- Before the call R12 is on the stack, out of the reach of the function that is called. -/
theorem run_spillBefore {alu : U32} {w : Width} {src : AluSource} {helper : U64}
    (hs : HoldsCpu E.home cpu rest s) (hrsp : s.reg .rsp = E.rsp)
    (h : run (spillBefore E.abi alu w src helper) s = some s') :
    ∃ rest', HoldsCpu E.home cpu rest' s' ∧
      load64 rest' (E.rsp.toNat - 8) = some (s.reg .r12) ∧
      s'.reg .rsp = E.rsp - 8 - BitVec.ofNat 64 (8 + E.abi.callFrameBytes) ∧
      s'.reg .r12 = s.reg .r11 ∧ s'.reg .r13 = s.reg .r13 ∧ s'.reg .rbp = s.reg .rbp := by
  have hroom := E.room
  have hbelow := E.below
  have htop : (E.rsp - 8).toNat = E.rsp.toNat - 8 := by bv_omega
  rw [spillBefore, run_append, run_append, run_append] at h
  obtain ⟨s₃, h₃, hlast⟩ := Option.bind_eq_some_iff.mp h
  obtain ⟨s₂, h₂, harg⟩ := Option.bind_eq_some_iff.mp h₃
  obtain ⟨s₁, h₁, hargs⟩ := Option.bind_eq_some_iff.mp h₂
  -- the save, the frame and the host pointer
  obtain ⟨sp, hpush, hframe⟩ := Option.bind_eq_some_iff.mp h₁
  have hsave : ((store64 s.mem (E.rsp.toNat - 8) (s.reg .r12)).map
      (s.set .rsp (E.rsp - 8)).withMem) = some sp := by
    rw [← htop, ← hrsp]
    exact hpush
  rw [hs.mem, image_store64 _ (E.stack_beside (by omega) (by omega))] at hsave
  obtain ⟨m, hm, rfl⟩ := Option.map_eq_some_iff.mp hsave
  obtain ⟨rest₁, hrest₁, rfl⟩ := Option.map_eq_some_iff.mp hm
  cases hframe
  -- the arguments
  have hkeep : ∀ r, IsCache r ∨ r = .rbx ∨ r = .rsp → s₂.reg r = _ := fun r hr =>
    run_keeps hargs (spillArgs_keeps _ _ _ _ hr)
  have hmem := run_keeps_mem hargs (spillArgs_storesMem _ _ _ _)
  have hrsp₂ : s₂.reg .rsp = E.rsp - 8 - BitVec.ofNat 64 (8 + E.abi.callFrameBytes) := by
    rw [hkeep .rsp (.inr (.inr rfl)), ← frame_signExtend]
    rfl
  have hholds : HoldsCpu E.home cpu rest₁ s₂ := by
    refine ⟨?_, hmem⟩
    rw [hkeep .rbx (.inr (.inl rfl))]
    exact hs.rbx
  have hlow : (s₂.reg .rsp).toNat = E.rsp.toNat - 16 - E.abi.callFrameBytes := by
    rw [hrsp₂]
    cases E.abi <;> rw [HostAbi.callFrameBytes] <;> bv_omega
  have hcallee : E.abi.calleeBytes ≤ 8 + E.abi.callFrameBytes ∧ E.abi.callFrameBytes ≤ 48 := by
    cases E.abi <;> decide
  obtain ⟨rest₂, hs₃, hrest₂, hkeep₃⟩ := run_emitArg64Reg E.abi harg hholds (by omega) (by omega)
  cases hlast
  have hregs : ∀ r, r ≠ .rax → r ≠ .r8 → (s₃.set .rax helper).reg r = s₂.reg r :=
    fun r hrax hr8 => (s₃.set_ne hrax helper).trans (hkeep₃ r hr8)
  refine ⟨rest₂, ⟨(s₃.set_ne (by decide) helper).trans hs₃.rbx, hs₃.mem⟩, ?_, ?_, ?_, ?_, ?_⟩
  · rw [load64_congr fun x hx _ => hrest₂ x hx]
    exact (store64_some hrest₁).1
  · rw [hregs .rsp (by decide) (by decide), hrsp₂]
  · rw [hregs .r12 (by decide) (by decide), hkeep .r12 (.inl (by decide))]
    rfl
  · rw [hregs .r13 (by decide) (by decide), hkeep .r13 (.inl (by decide))]
    rfl
  · rw [hregs .rbp (by decide) (by decide), hkeep .rbp (.inl (by decide))]
    rfl

/-- After the call the result is stored and R12 is taken back. -/
theorem run_spillAfter {w : Width} {writesDest : Bool} {saved : U64}
    (hs : HoldsCpu E.home cpu rest s)
    (hsaved : load64 rest (E.rsp.toNat - 8) = some saved)
    (hrsp : s.reg .rsp = E.rsp - 8 - BitVec.ofNat 64 (8 + E.abi.callFrameBytes))
    (hguest : ∀ i < w.bytes, E.guest ((s.reg .r12).toNat + i))
    (h : run (spillAfter E.abi w writesDest) s = some s') :
    ∃ rest', HoldsCpu E.home cpu rest' s' ∧ s'.reg .rsp = E.rsp ∧ s'.reg .r12 = saved ∧
      s'.reg .r13 = s.reg .r13 ∧ s'.reg .rbp = s.reg .rbp := by
  have hroom := E.room
  have hbelow := E.below
  have htop : (E.rsp - 8).toNat = E.rsp.toNat - 8 := by bv_omega
  rw [spillAfter, run_append] at h
  obtain ⟨s₁, hstore, hrestore⟩ := Option.bind_eq_some_iff.mp h
  -- the store goes to guest memory
  have hstored : ∃ rest₁, HoldsCpu E.home cpu rest₁ s₁ ∧ s₁.reg = s.reg ∧
      load64 rest₁ (E.rsp.toNat - 8) = some saved := by
    cases writesDest with
    | false =>
      cases hstore
      exact ⟨rest, hs, rfl, hsaved⟩
    | true =>
      have haddr : s.addr .r12 0 = (s.reg .r12).toNat := by
        rw [HostState.addr, show (0 : U32).signExtend 64 = 0 from rfl, add_zero]
      have hwrite : ((s.mem.store w.bytes (s.reg .r12).toNat (s.low .rax)).map s.withMem).bind
          (run []) = some s₁ := by
        rw [← haddr]
        exact hstore
      rw [hs.mem, image_store _ (E.guest_beside hguest)] at hwrite
      obtain ⟨s₀, hs₀, hlast⟩ := Option.bind_eq_some_iff.mp hwrite
      obtain ⟨m, hm, rfl⟩ := Option.map_eq_some_iff.mp hs₀
      obtain ⟨rest₁, hrest₁, rfl⟩ := Option.map_eq_some_iff.mp hm
      cases hlast
      refine ⟨rest₁, ⟨hs.rbx, rfl⟩, rfl, ?_⟩
      rw [load64_congr (m := rest) fun x hlo hhi => ?_]
      · exact hsaved
      · rw [store_some hrest₁]
        refine if_neg fun hin => ?_
        have hg := hguest (x - (s.reg .r12).toNat) (by omega)
        rw [Nat.add_sub_of_le hin.1] at hg
        have := E.guest_stack x hg
        omega
  obtain ⟨rest₁, hs₁, hregs, hsaved₁⟩ := hstored
  -- the frame goes and the saved register comes back
  have hup : s₁.reg .rsp + BitVec.ofNat 64 (8 + E.abi.callFrameBytes) = E.rsp - 8 := by
    rw [hregs, hrsp, sub_add_cancel]
  have hpop : (load64 s₁.mem (E.rsp - 8).toNat).map (fun v =>
      ((s₁.set .rsp (E.rsp - 8)).set .rsp (E.rsp - 8 + 8)).set .r12 v) = some s' := by
    rw [← hup, ← frame_signExtend]
    obtain ⟨s₀, hs₀, hlast⟩ := Option.bind_eq_some_iff.mp hrestore
    cases hs₀
    obtain ⟨s₀', hs₀', hlast'⟩ := Option.bind_eq_some_iff.mp hlast
    cases hlast'
    exact hs₀'
  rw [htop, hs₁.mem, image_load64 (E.stack_beside (by omega) (by omega)), hsaved₁] at hpop
  cases hpop
  refine ⟨rest₁, ⟨?_, hs₁.mem⟩, ?_, HostState.set_self _ _ _, ?_, ?_⟩
  · exact hs₁.rbx
  · exact sub_add_cancel E.rsp 8
  · exact congrFun hregs .r13
  · exact congrFun hregs .rbp

/-- The helper call of a read-modify-write operand keeps every register of the cache. -/
theorem run_spill {alu : U32} {w : Width} {src : AluSource} {helper : U64} {writesDest : Bool}
    {s₁ s₂ : HostState} {cpu' : X86Cpu} {rest₁ rest₂ : LinearMem}
    (hs : HoldsCpu E.home cpu rest s) (hrsp : s.reg .rsp = E.rsp)
    (hguest : ∀ i < w.bytes, E.guest ((s.reg .r11).toNat + i))
    (hbefore : run (spillBefore E.abi alu w src helper) s = some s₁)
    (hs₁ : HoldsCpu E.home cpu rest₁ s₁) (hcalled : Called E s₁ s₂ cpu' rest₁ rest₂)
    (hafter : run (spillAfter E.abi w writesDest) s₂ = some s') :
    (∃ rest', HoldsCpu E.home cpu' rest' s') ∧ s'.reg .rsp = E.rsp ∧
      ∀ r, IsCache r → s'.reg r = s.reg r := by
  have hroom := E.room
  have hbelow := E.below
  obtain ⟨rest₁', hs₁', hsaved, hrsp₁, hr12, hr13, hrbp⟩ := run_spillBefore hs hrsp hbefore
  have hlow : (s₁.reg .rsp).toNat = E.rsp.toNat - 16 - E.abi.callFrameBytes ∧
      E.abi.calleeBytes ≤ 8 + E.abi.callFrameBytes ∧ E.abi.callFrameBytes ≤ 48 := by
    rw [hrsp₁]
    cases E.abi <;> rw [HostAbi.callFrameBytes, HostAbi.calleeBytes] <;> refine ⟨?_, ?_⟩ <;> bv_omega
  have hkept : ∀ x, E.rsp.toNat - 8 ≤ x → x < E.rsp.toNat - 8 + 8 → rest₂ x = rest₁' x := by
    intro x hlo hhi
    rw [hcalled.frames x (by omega) (by omega)]
    exact hs₁'.unique hs₁ (E.stack_cpu x (by omega) (by omega))
  have hsaved₂ := (load64_congr hkept).trans hsaved
  have hrsp₂ : s₂.reg .rsp = E.rsp - 8 - BitVec.ofNat 64 (8 + E.abi.callFrameBytes) :=
    (hcalled.kept .rsp (by decide)).trans hrsp₁
  have hr12₂ : s₂.reg .r12 = s.reg .r11 := (hcalled.kept .r12 (by decide)).trans hr12
  obtain ⟨rest', hs', hrsp', hr12', hr13', hrbp'⟩ := run_spillAfter hcalled.holds hsaved₂ hrsp₂
    (by rwa [hr12₂]) hafter
  refine ⟨⟨rest', hs'⟩, hrsp', ?_⟩
  rintro r (rfl | rfl | rfl)
  · exact hr12'
  · rw [hr13', hcalled.kept .r13 (by decide), hr13]
  · rw [hrbp', hcalled.kept .rbp (by decide), hrbp]

end

/-! ## One operation -/

/-- What holds of a path wherever it is. -/
structure FlowInv (E : HostEnv) (c : BlockCtx) (f : Flow) : Prop where
  slots : Slots c
  rsp : f.host.reg .rsp = E.rsp
  holds : ∃ rest, HoldsCpu E.home f.cpu rest f.host
  trusted : f.place = .here → Trusted c f.cpu f.host

section

variable {E : HostEnv} {c : BlockCtx} {f g : Flow} {op : Op}

theorem FlowInv.coherent (h : FlowInv E c f) (hhere : f.place = .here) :
    ∃ rest, Coherent E.home f.cpu rest c f.host :=
  h.holds.imp fun _ hholds => ⟨h.slots, h.trusted hhere, hholds⟩

theorem flowInv_of_coherent {s : HostState} {cpu : X86Cpu} {rest : LinearMem}
    (h : Coherent E.home cpu rest c s) (hrsp : s.reg .rsp = E.rsp) :
    FlowInv E c ⟨.here, s, cpu⟩ :=
  ⟨h.slots, hrsp, ⟨rest, h.holds⟩, fun _ => h.trusted⟩

theorem later_call (c : BlockCtx) : Later c { c with calls := c.calls + 1 } :=
  ⟨rfl, rfl, rfl, rfl, Nat.add_lt_add_right (Nat.lt_succ_self _) _⟩

theorem later_bind (c : BlockCtx) : Later c { c with sitesBound := c.sitesBound + 1 } :=
  ⟨rfl, rfl, rfl, rfl, Nat.lt_succ_self _⟩

theorem slots_after (h : Slots c) (op : Op) : Slots (op.after c) := by
  cases op with
  | load dst reg w => exact slots_gprLoad h dst reg w
  | store reg src w => exact slots_gprWrite h reg w _ _
  | storeImm reg imm w => exact slots_gprWrite h reg w _ _
  | forget => exact slots_gprForget h
  | call | spillCall => exact (later_call c).slots h
  | bind => exact (later_bind c).slots h
  | other | jcc | jmp => exact h

/-- An operation keeps the invariant, along every path that reaches it. -/
theorem step_keeps (h : FlowInv E c f) (hlegal : op.Legal) (hstep : Step E c op f g) :
    FlowInv E (op.after c) g := by
  have hcache : ¬ IsCache .rsp := by decide
  cases hstep with
  | @load dst reg w s s' cpu hrun =>
    obtain ⟨rest, hc⟩ := h.coherent rfl
    obtain ⟨s₁, hrun₁, -, hc₁, hkeep⟩ := run_gprLoad hc hlegal reg w
    obtain rfl := Option.some_inj.mp (hrun.symm.trans hrun₁)
    exact flowInv_of_coherent hc₁ ((hkeep .rsp hlegal.2.2.symm hcache).trans h.rsp)
  | @store reg src w s s' cpu hrun =>
    obtain ⟨rest, hc⟩ := h.coherent rfl
    obtain ⟨s₁, hrun₁, hc₁, hkeep⟩ := run_gprStore hc reg src w
    obtain rfl := Option.some_inj.mp (hrun.symm.trans hrun₁)
    exact flowInv_of_coherent hc₁ ((hkeep .rsp hcache).trans h.rsp)
  | @storeImm reg imm w s s' cpu hrun =>
    obtain ⟨rest, hc⟩ := h.coherent rfl
    obtain ⟨s₁, hrun₁, hc₁, hkeep⟩ := run_gprStoreImm hc reg imm w
    obtain rfl := Option.some_inj.mp (hrun.symm.trans hrun₁)
    exact flowInv_of_coherent hc₁ ((hkeep .rsp hcache).trans h.rsp)
  | forget =>
    obtain ⟨rest, hc⟩ := h.coherent rfl
    exact flowInv_of_coherent hc.forget h.rsp
  | other hother =>
    obtain ⟨rest', hholds⟩ := hother.holds
    refine ⟨h.slots, (hother.kept .rsp (.inr (.inr rfl))).trans h.rsp, ⟨rest', hholds⟩, fun _ => ?_⟩
    refine (h.trusted rfl).mono id fun q hq => .inl ⟨hq, ?_, congrFun hother.reg q⟩
    exact congrArg _ (hother.kept _ (.inl (isCache_gprCacheReg _)))
  | call hs hcalled =>
    have hrsp := (hcalled.kept .rsp (.inr (.inl rfl))).trans h.rsp
    exact flowInv_of_coherent ((later_call c).coherent h.slots hcalled.holds) hrsp
  | spillCall hguest hbefore hs hcalled hafter =>
    obtain ⟨rest, hholds⟩ := h.holds
    obtain ⟨⟨rest', hholds'⟩, hrsp, -⟩ := run_spill hholds h.rsp hguest hbefore hs hcalled hafter
    exact flowInv_of_coherent ((later_call c).coherent h.slots hholds') hrsp
  | jccTaken | jmp => exact ⟨h.slots, h.rsp, h.holds, fun hhere => by cases hhere⟩
  | jccNot => exact h
  | joined | bind =>
    obtain ⟨rest, hholds⟩ := h.holds
    exact flowInv_of_coherent ((later_bind c).coherent h.slots hholds) h.rsp
  | away hne =>
    exact ⟨slots_after h.slots op, h.rsp, h.holds, fun hhere => by cases hhere⟩

theorem runs_keep {ops : List Op} (h : FlowInv E c f) (hlegal : ∀ op ∈ ops, op.Legal)
    (hrun : Runs E c ops f g) : FlowInv E (afterAll c ops) g := by
  induction hrun with
  | nil => exact h
  | @cons c op ops f g f' hstep _ ih =>
    refine ih (step_keeps h (hlegal op List.mem_cons_self) hstep) fun op' hop' => ?_
    exact hlegal op' (List.mem_cons_of_mem _ hop')

end

/-! ## Every path -/

/-- What the cache promises of a path. -/
structure CacheHolds (E : HostEnv) (c : BlockCtx) (f : Flow) : Prop where
  memory : ∀ r, f.host.mem.load 4 (E.home.cpu.toNat + regOffset r) = some (f.cpu.reg r)
  few : (Finset.univ.filter fun r => c.gprSlot r ≠ 0).card ≤ 3
  once : ∀ r q, c.gprSlot r ≠ 0 → c.gprSlot q ≠ 0 → hostOf c r = hostOf c q → r = q
  agree : f.place = .here → c.gprEpoch = blockFlowEpoch c → ∀ r, c.gprLive r = true →
    f.host.low (hostOf c r) = f.cpu.reg r
  load : f.place = .here → ∀ dst reg w, IsScratch dst →
    ∃ s', run (gprLoad c dst reg w).2 f.host = some s' ∧
      s'.reg dst = (regRead f.cpu.toCpuState reg w).setWidth 64
  spill : ∀ alu w src helper writesDest g, f.place = .here →
    Step E c (.spillCall alu w src helper writesDest) f g →
    ∀ r, IsCache r → g.host.reg r = f.host.reg r

/-- Three host registers at most are given out. -/
theorem Slots.card_le {c : BlockCtx} (h : Slots c) :
    (Finset.univ.filter fun r => c.gprSlot r ≠ 0).card ≤ 3 := by
  have hmaps : ∀ r ∈ Finset.univ.filter fun r => c.gprSlot r ≠ 0,
      c.gprSlot r - 1 ∈ Finset.range 3 := fun r hr => by
    have hslot := (Finset.mem_filter.mp hr).2
    have hsmall := h.small r
    exact Finset.mem_range.mpr (by omega)
  refine (Finset.card_le_card_of_injOn (fun r => c.gprSlot r - 1) hmaps fun r hr q hq heq => ?_).trans
    (Finset.card_range 3).le
  have hr' := (Finset.mem_filter.mp hr).2
  have hq' := (Finset.mem_filter.mp hq).2
  exact h.once r q hr' (by simp only at heq; omega)

theorem FlowInv.cacheHolds {E : HostEnv} {c : BlockCtx} {f : Flow} (h : FlowInv E c f) :
    CacheHolds E c f := by
  obtain ⟨rest, hholds⟩ := h.holds
  refine ⟨fun r => ?_, h.slots.card_le, fun r q hr hq heq => h.slots.hostOf_inj hr hq heq,
    h.trusted, fun hhere dst reg w hdst => ?_, ?_⟩
  · rw [hholds.mem]
    exact Wasm.load_reg r .dword
  · obtain ⟨s', hrun, hvalue, -⟩ := run_gprLoad ⟨h.slots, h.trusted hhere, hholds⟩ hdst reg w
    exact ⟨s', hrun, hvalue⟩
  · intro alu w src helper writesDest g hhere hstep
    cases hstep with
    | spillCall hguest hbefore hs hcalled hafter =>
      exact (run_spill hholds h.rsp hguest hbefore hs hcalled hafter).2.2
    | away => cases hhere

/-- How a block is entered. -/
structure Entry (E : HostEnv) (f : Flow) : Prop where
  place : f.place = .here
  rsp : f.host.reg .rsp = E.rsp
  holds : ∃ rest, HoldsCpu E.home f.cpu rest f.host

theorem Entry.flowInv {E : HostEnv} {f : Flow} (h : Entry E f) : FlowInv E .start f :=
  ⟨slots_start, h.rsp, h.holds, fun _ _ _ hr => Bool.noConfusion hr⟩

/-- **The register cache is coherent** on every path through every sequence of operations. -/
theorem cache_coherent (E : HostEnv) (ops : List Op) (hlegal : ∀ op ∈ ops, op.Legal) (f g : Flow)
    (hentry : Entry E f) (hrun : Runs E .start ops f g) :
    CacheHolds E (afterAll .start ops) g :=
  (runs_keep hentry.flowInv hlegal hrun).cacheHolds

/-! ### A helper that writes a register -/

theorem flags_before_df : 51 < 52 := by decide

theorem df_before_fsBase : 52 < 56 := by decide

theorem fsBase_before_gsBase : 56 + 4 ≤ 60 := by decide

def blockHome : CpuHome :=
  ⟨⟨52, 56, 60, flags_before_df, df_before_fsBase, fsBase_before_gsBase⟩, 0x1000, by decide,
    by decide⟩

def blockEnv : HostEnv where
  home := blockHome
  abi := .systemV
  rsp := 0x10000
  stackTop := 0x10100
  guest x := 0x20000 ≤ x
  room := by decide
  below := by decide
  stack_cpu x hlo _ := fun h => by
    have hhi := h.2
    have hcpu : blockHome.cpu.toNat + (blockHome.lay.gsBase + 4) = 0x1040 := rfl
    have hfar : 0xFF80 ≤ x := hlo
    omega
  guest_cpu x hlo := fun h => by
    have hhi := h.2
    have hcpu : blockHome.cpu.toNat + (blockHome.lay.gsBase + 4) = 0x1040 := rfl
    omega
  guest_stack x hlo := .inr (by omega)

/-- Every register holds one value. -/
def blockCpu (v : U32) : X86Cpu := ⟨⟨fun _ => v, false, ⟨0, 0, 0, .none, .dword, 0⟩⟩, 0, 0, 0⟩

def blockHost : HostState :=
  ⟨fun r => if r = .rbx then 0x1000 else if r = .rsp then 0x10000 else 0,
    image blockHome.lay blockHome.cpu.toNat (blockCpu 0) fun _ => none⟩

def blockEntry : Flow := ⟨.here, blockHost, blockCpu 0⟩

theorem entry_block : Entry blockEnv blockEntry := ⟨rfl, rfl, ⟨fun _ => none, rfl, rfl⟩⟩

/-- EAX is loaded, and a helper sets every register to one. -/
def loadThenCall : List Op := [.load .rax Cpu.eax .dword, .call]

theorem legal_loadThenCall : ∀ op ∈ loadThenCall, op.Legal := by
  intro op hop
  rcases List.mem_cons.mp hop with rfl | hop
  · exact (by decide : IsScratch .rax)
  · obtain rfl := List.mem_singleton.mp hop
    trivial

theorem runs_loadThenCall :
    ∃ g, Runs blockEnv .start loadThenCall blockEntry g ∧ g.place = .here ∧
      g.host.low .r12 = 0 ∧ g.cpu = blockCpu 1 := by
  have hstart : Coherent blockEnv.home (blockCpu 0) (fun _ => none) .start blockHost :=
    ⟨slots_start, fun _ _ hr => Bool.noConfusion hr, rfl, rfl⟩
  obtain ⟨s, hload, -, hs, -⟩ := run_gprLoad hstart (by decide : IsScratch .rax) Cpu.eax .dword
  have hcalled : Called blockEnv s
      (s.withMem (image blockHome.lay blockHome.cpu.toNat (blockCpu 1) fun _ => none))
      (blockCpu 1) (fun _ => none) fun _ => none :=
    ⟨fun _ _ => rfl, ⟨hs.holds.rbx, rfl⟩, fun _ _ _ => rfl⟩
  exact ⟨_, .cons (.load hload) (.cons (.call hs.holds hcalled) .nil), rfl,
    hs.trusted rfl Cpu.eax rfl, rfl⟩

/-- The bit of a register stays set after the call, until the next operation on the cache. -/
theorem live_disagrees :
    ¬ ∀ ops : List Op, (∀ op ∈ ops, op.Legal) → ∀ f g : Flow, Entry blockEnv f →
      Runs blockEnv .start ops f g → g.place = .here →
      ∀ r, (afterAll .start ops).gprLive r = true →
        g.host.low (hostOf (afterAll .start ops) r) = g.cpu.reg r := by
  intro h
  obtain ⟨g, hrun, hhere, hr12, hcpu⟩ := runs_loadThenCall
  have hagree := h loadThenCall legal_loadThenCall blockEntry g entry_block hrun hhere Cpu.eax rfl
  have hhost : hostOf (afterAll .start loadThenCall) Cpu.eax = .r12 := rfl
  rw [hhost, hr12, hcpu] at hagree
  exact absurd hagree (by decide)

/-! ### A path around a spill -/

/-- Every byte of memory is there. -/
def Present (m : LinearMem) : Prop := ∀ x, (m x).isSome

theorem present_image {lay : Wasm.CpuLayout} {a : Nat} {c : X86Cpu} {rest : LinearMem}
    (h : Present rest) : Present (image lay a c rest) := by
  intro x
  rw [image, Option.isSome_or, h x, Bool.or_true]

theorem load_present {m : LinearMem} (h : Present m) (n a : Nat) : ∃ v, m.load n a = some v := by
  have hbytes := Wasm.bytes_eq (m := m) (f := fun x => (m x).getD 0) (a := a) (n := n) fun i _ =>
    (Option.getD_of_ne_none (Option.isSome_iff_ne_none.mp (h (a + i))) 0).symm
  exact ⟨_, by rw [LinearMem.load, hbytes, Option.map_some]⟩

theorem store_present {m : LinearMem} (h : Present m) (n a : Nat) (v : U32) :
    ∃ m', m.store n a v = some m' ∧ Present m' := by
  refine ⟨_, if_pos fun i _ => h _, fun x => ?_⟩
  split_ifs
  · rfl
  · exact h x

theorem store64_present {m : LinearMem} (h : Present m) (a : Nat) (v : U64) :
    ∃ m', store64 m a v = some m' ∧ Present m' := by
  obtain ⟨m₁, hlow, h₁⟩ := store_present h 4 a (v.setWidth 32)
  obtain ⟨m₂, hhigh, h₂⟩ := store_present h₁ 4 (a + 4) ((v >>> 32).setWidth 32)
  exact ⟨m₂, by rw [store64, hlow, Option.bind_some, hhigh], h₂⟩

/-- Where every byte is there, no instruction stops. -/
theorem exec_present (i : HostInsn) {s : HostState} (h : Present s.mem) :
    ∃ s', i.exec s = some s' ∧ Present s'.mem := by
  have hload (n a : Nat) (f : U32 → HostState) (hf : ∀ v, (f v).mem = s.mem) :
      ∃ s', (s.mem.load n a).map f = some s' ∧ Present s'.mem := by
    obtain ⟨v, hv⟩ := load_present h n a
    exact ⟨f v, by rw [hv, Option.map_some], by rw [hf]; exact h⟩
  have hstore (n a : Nat) (v : U32) :
      ∃ s', (s.mem.store n a v).map s.withMem = some s' ∧ Present s'.mem := by
    obtain ⟨m, hm, hpresent⟩ := store_present h n a v
    exact ⟨s.withMem m, by rw [hm, Option.map_some], hpresent⟩
  cases i with
  | load | aluMem32 => exact hload _ _ _ fun _ => rfl
  | store | storeImm => exact hstore _ _ _
  | store64 base disp src =>
    obtain ⟨m, hm, hpresent⟩ := store64_present h (s.addr base disp) (s.reg src)
    exact ⟨s.withMem m, by rw [HostInsn.exec, hm, Option.map_some], hpresent⟩
  | push src =>
    obtain ⟨m, hm, hpresent⟩ := store64_present h (s.reg .rsp - 8).toNat (s.reg src)
    exact ⟨_, by rw [HostInsn.exec, hm, Option.map_some], hpresent⟩
  | pop dst =>
    obtain ⟨low, hlow⟩ := load_present h 4 (s.reg .rsp).toNat
    obtain ⟨high, hhigh⟩ := load_present h 4 ((s.reg .rsp).toNat + 4)
    have hword : load64 s.mem (s.reg .rsp).toNat = some (high ++ low) := by
      rw [load64, hlow, Option.bind_some, hhigh, Option.map_some]
    exact ⟨((s.set .rsp (s.reg .rsp + 8)).set dst (high ++ low)),
      by rw [HostInsn.exec, hword, Option.map_some], h⟩
  | _ => exact ⟨_, rfl, h⟩

theorem run_present (code : HostCode) {s : HostState} (h : Present s.mem) :
    ∃ s', run code s = some s' ∧ Present s'.mem := by
  induction code generalizing s with
  | nil => exact ⟨s, rfl, h⟩
  | cons i code ih =>
    obtain ⟨s₁, hi, h₁⟩ := exec_present i h
    obtain ⟨s₂, hrest, h₂⟩ := ih h₁
    exact ⟨s₂, by rw [run_cons, hi, Option.bind_some, hrest], h₂⟩

/-- EAX is loaded, AH written and a read-modify-write done in memory, or both jumped over; behind
the join EAX is loaded again, before and after a helper that sets every register to one. -/
def spillOrSkip : List Op :=
  [.load .rax Cpu.eax .dword, .jcc 0, .storeImm 4 0x12 .byte,
    .spillCall 0 .dword (.imm 1) 0x1234 true, .bind 0, .load .rcx Cpu.eax .dword, .call,
    .load .rdx Cpu.eax .dword]

theorem legal_spillOrSkip : ∀ op ∈ spillOrSkip, op.Legal := by
  intro op hop
  simp only [spillOrSkip, List.mem_cons, List.not_mem_nil, or_false] at hop
  rcases hop with rfl | rfl | rfl | rfl | rfl | rfl | rfl | rfl <;> trivial

/-- R11 points to guest memory. -/
def spillHost : HostState :=
  ⟨fun r => if r = .rbx then 0x1000 else if r = .rsp then 0x10000 else
    if r = .r11 then 0x20000 else 0,
    image blockHome.lay blockHome.cpu.toNat (blockCpu 0) fun _ => some 0⟩

def spillEntry : Flow := ⟨.here, spillHost, blockCpu 0⟩

theorem entry_spill : Entry blockEnv spillEntry := ⟨rfl, rfl, ⟨fun _ => some 0, rfl, rfl⟩⟩

/-- A helper that sets every register to one, from wherever it is called. -/
theorem call_ones {c : BlockCtx} {f : Flow} (h : FlowInv blockEnv c f) (hhere : f.place = .here) :
    ∃ g, Step blockEnv c .call f g ∧ g.place = .here ∧ g.cpu = blockCpu 1 ∧
      g.host.reg = f.host.reg := by
  obtain ⟨rest, hs⟩ := h.holds
  obtain ⟨place, s, cpu⟩ := f
  obtain rfl : place = .here := hhere
  exact ⟨⟨.here, s.withMem (image blockHome.lay blockHome.cpu.toNat (blockCpu 1) rest),
    blockCpu 1⟩, .call hs ⟨fun _ _ => rfl, ⟨hs.rbx, rfl⟩, fun _ _ _ => rfl⟩, rfl, rfl, rfl⟩

theorem load_step {c : BlockCtx} {f : Flow} (h : FlowInv blockEnv c f) (hhere : f.place = .here)
    {dst : HostReg} (hdst : IsScratch dst) (reg : Reg) (w : Width) :
    ∃ g, Step blockEnv c (.load dst reg w) f g ∧ g.place = .here ∧ g.cpu = f.cpu ∧
      g.host.reg dst = (regRead f.cpu.toCpuState reg w).setWidth 64 ∧
      ∀ x, x ≠ dst → ¬ IsCache x → g.host.reg x = f.host.reg x := by
  obtain ⟨rest, hc⟩ := h.coherent hhere
  obtain ⟨place, s, cpu⟩ := f
  obtain rfl : place = .here := hhere
  obtain ⟨s', hrun, hvalue, -, hkeep⟩ := run_gprLoad hc hdst reg w
  exact ⟨⟨.here, s', cpu⟩, .load hrun, rfl, rfl, hvalue, hkeep⟩

/-- The end of both paths. -/
theorem join_step {c : BlockCtx} {f : Flow} (h : FlowInv blockEnv c f) (hhere : f.place = .here) :
    ∃ g, Runs blockEnv c [.load .rcx Cpu.eax .dword, .call, .load .rdx Cpu.eax .dword] f g ∧
      g.host.reg .rcx = (f.cpu.reg Cpu.eax).setWidth 64 ∧ g.host.reg .rdx = 1 := by
  obtain ⟨f₁, hload, hhere₁, -, hrcx, -⟩ :=
    load_step h hhere (by decide : IsScratch .rcx) Cpu.eax .dword
  have h₁ := step_keeps h (by exact (by decide : IsScratch .rcx)) hload
  obtain ⟨f₂, hcall, hhere₂, hcpu, hregs⟩ := call_ones h₁ hhere₁
  have h₂ := step_keeps h₁ (show Op.Legal .call from trivial) hcall
  obtain ⟨f₃, hload', -, -, hrdx, hkeep⟩ :=
    load_step h₂ hhere₂ (by decide : IsScratch .rdx) Cpu.eax .dword
  refine ⟨f₃, .cons hload (.cons hcall (.cons hload' .nil)), ?_, ?_⟩
  · rw [hkeep .rcx (by decide) (by decide), hregs, hrcx]
    rfl
  · rw [hrdx, hcpu]
    rfl

/-- A read-modify-write by a helper that changes no register. -/
theorem spill_step {c : BlockCtx} {f : Flow} (h : FlowInv blockEnv c f) (hhere : f.place = .here)
    (hpresent : Present f.host.mem) (hr11 : f.host.reg .r11 = 0x20000) :
    ∃ g, Step blockEnv c (.spillCall 0 .dword (.imm 1) 0x1234 true) f g ∧ g.place = .here ∧
      g.cpu = f.cpu := by
  obtain ⟨rest, hs⟩ := h.holds
  have hrsp := h.rsp
  obtain ⟨place, s, cpu⟩ := f
  obtain rfl : place = .here := hhere
  obtain ⟨s₁, hbefore, h₁⟩ :=
    run_present (spillBefore blockEnv.abi 0 .dword (.imm 1) 0x1234) hpresent
  obtain ⟨s₂, hafter, -⟩ := run_present (spillAfter blockEnv.abi .dword true) h₁
  obtain ⟨rest', hs₁, -⟩ := run_spillBefore hs hrsp hbefore
  have hguest : ∀ i < Width.bytes .dword, blockEnv.guest ((s.reg .r11).toNat + i) := by
    intro i _
    change 0x20000 ≤ (s.reg .r11).toNat + i
    rw [show s.reg .r11 = 0x20000 from hr11]
    exact Nat.le_add_right _ _
  exact ⟨⟨.here, s₂, cpu⟩, .spillCall hguest hbefore hs₁ ⟨fun _ _ => rfl, hs₁, fun _ _ _ => rfl⟩
    hafter, rfl, rfl⟩

theorem cache_coherent_spillOrSkip :
    ∃ g g', Runs blockEnv .start spillOrSkip spillEntry g ∧
      Runs blockEnv .start spillOrSkip spillEntry g' ∧
      CacheHolds blockEnv (afterAll .start spillOrSkip) g ∧
      CacheHolds blockEnv (afterAll .start spillOrSkip) g' ∧
      g.host.reg .rcx = 0x1200 ∧ g'.host.reg .rcx = 0 ∧
      g.host.reg .rdx = 1 ∧ g'.host.reg .rdx = 1 := by
  have h := entry_spill.flowInv
  have hc : Coherent blockHome (blockCpu 0) (fun _ => some 0) .start spillHost :=
    ⟨slots_start, fun _ _ hr => Bool.noConfusion hr, rfl, rfl⟩
  obtain ⟨s₁, hrun₁, -, hc₁, hkeep₁⟩ := run_gprLoad hc (by decide : IsScratch .rax) Cpu.eax .dword
  have hload : Step blockEnv .start (.load .rax Cpu.eax .dword) spillEntry
      ⟨.here, s₁, blockCpu 0⟩ := .load hrun₁
  have h₁ := step_keeps h (by exact (by decide : IsScratch .rax)) hload
  -- the path that falls through
  obtain ⟨s₂, hrun₂, hc₂, hkeep₂⟩ := run_gprStoreImm hc₁ 4 0x12 .byte
  have hstore : Step blockEnv _ (.storeImm 4 0x12 .byte) ⟨.here, s₁, blockCpu 0⟩
      ⟨.here, s₂, written (blockCpu 0) 4 .byte 0x12⟩ := .storeImm hrun₂
  have h₂ := step_keeps h₁ (show Op.Legal (.storeImm 4 0x12 .byte) from trivial) hstore
  have hpresent : Present s₂.mem := hc₂.holds.mem ▸ present_image fun _ => rfl
  obtain ⟨⟨place, s₃, cpu⟩, hspill, rfl, rfl⟩ := spill_step h₂ rfl hpresent
    ((hkeep₂ .r11 (by decide)).trans (hkeep₁ .r11 (by decide) (by decide)))
  have h₃ := step_keeps h₂ (show Op.Legal (.spillCall ..) from trivial) hspill
  have h₄ := step_keeps h₃ (show Op.Legal (.bind 0) from trivial) .bind
  obtain ⟨g, hend, hrcx, hrdx⟩ := join_step h₄ rfl
  have hrun : Runs blockEnv .start spillOrSkip spillEntry g :=
    .cons hload (.cons .jccNot (.cons hstore (.cons hspill (.cons .bind hend))))
  -- the path that jumps
  have hwait := step_keeps h₁ (show Op.Legal (.jcc 0) from trivial) .jccTaken
  have hwait₂ := step_keeps hwait (show Op.Legal (.storeImm 4 0x12 .byte) from trivial)
    (.away nofun)
  have hwait₃ := step_keeps hwait₂
    (show Op.Legal (.spillCall 0 .dword (.imm 1) 0x1234 true) from trivial) (.away nofun)
  have hjoin := step_keeps hwait₃ (show Op.Legal (.bind 0) from trivial) .joined
  obtain ⟨g', hend', hrcx', hrdx'⟩ := join_step hjoin rfl
  have hrun' : Runs blockEnv .start spillOrSkip spillEntry g' :=
    .cons hload (.cons .jccTaken (.cons (.away nofun) (.cons (.away nofun) (.cons .joined hend'))))
  exact ⟨g, g', hrun, hrun',
    cache_coherent blockEnv spillOrSkip legal_spillOrSkip spillEntry g entry_spill hrun,
    cache_coherent blockEnv spillOrSkip legal_spillOrSkip spillEntry g' entry_spill hrun',
    hrcx, hrcx', hrdx, hrdx'⟩

end X86Port.X64
