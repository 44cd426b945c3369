import X86Port.Cpu.ByteMemory
import X86Port.Cpu.RegParts

/-!
# The locked exchanges

XADD, CMPXCHG and CMPXCHG8B as the interpreter executes them, and as the functions of `cpu.c`
that translated code calls on a pointer to the destination. A host atomic is one step here.

* `Xadded`, `Compared`, `QuadCompared`: what an exchange leaves.
* `exchange_exact`: the interpreter leaves that, changes nothing where an access is refused, and
  the pointers leave the same.
-/

namespace X86Port.Cpu

open Lib Lib.Places
open Memory (Mem Host memRead memWrite valueOf bytesOf readBytes writeBytes)

/-! ## The functions of `cpu.c` -/

/-- Where a destination pointer points: into the host's memory, or at a register of the CPU. -/
inductive Pointer where
  | host (at_ : Nat)
  | reg (index : Reg)

def Pointer.load (s : Ctx Host) (w : Width) : Pointer → U32
  | .host p => valueOf (Bytes.load s.mem.bytes p w.bytes)
  | .reg r => regRead s.cpu.toCpuState r w

def Pointer.store (s : Ctx Host) (w : Width) (v : U32) : Pointer → Ctx Host
  | .host p => { s with mem := s.mem.store p (bytesOf w.bytes v) }
  | .reg r => s.withRegs (regWrite s.cpu.toCpuState r w v)

/-- `atomic_fetch_add_w`. -/
def atomicFetchAdd (d : Pointer) (addend : U32) (w : Width) (s : Ctx Host) : U32 × Ctx Host :=
  let old := d.load s w
  (old, d.store s w (old + addend))

/-- `atomic_compare_exchange_w`. -/
def atomicCompareExchange (d : Pointer) (expected desired : U32) (w : Width) (s : Ctx Host) :
    U32 × Ctx Host :=
  let seen := d.load s w
  (seen, if seen = expected &&& widthMask w then d.store s w desired else s)

def cpuXadd (d : Pointer) (source : Reg) (w : Width) (s : Ctx Host) : Option (Ctx Host) :=
  let addend := regRead s.cpu.toCpuState source w
  let (old, s) := atomicFetchAdd d addend w s
  (alu .add old addend w s.cpu.flags).map fun (_, f) =>
    let s := s.withFlags f
    s.withRegs (regWrite s.cpu.toCpuState source w old)

def cpuCmpxchg (d : Pointer) (source : Reg) (w : Width) (s : Ctx Host) : Option (Ctx Host) :=
  let accumulator := regRead s.cpu.toCpuState eax w
  let desired := regRead s.cpu.toCpuState source w
  let (old, s) := atomicCompareExchange d accumulator desired w s
  (alu .cmp accumulator old w s.cpu.flags).map fun (_, f) =>
    let s := s.withFlags f
    if old ≠ accumulator then s.withRegs (regWrite s.cpu.toCpuState eax w old) else s

/-- The CPU and the quadword behind the destination. -/
def cpuCmpxchg8b (c : X86Cpu) (destination : BitVec 64) : X86Cpu × BitVec 64 :=
  let seen := c.reg edx ++ c.reg eax
  let desired := c.reg ecx ++ c.reg ebx
  let flags := eflags c.flags &&& ~~~flagZF
  if destination = seen then
    ({ c with flags := flagsSetExplicit (flags ||| flagZF) }, desired)
  else
    let c := { c with toCpuState := c.toCpuState.setReg eax (destination.setWidth 32) }
    let c := { c with toCpuState := c.toCpuState.setReg edx ((destination >>> 32).setWidth 32) }
    ({ c with flags := flagsSetExplicit flags }, destination)

/-- A quadword of the host, whose low half comes first. -/
def quadOf (bytes : List U8) : BitVec 64 := valueOf (bytes.drop 4) ++ valueOf (bytes.take 4)

def bytesOfQuad (q : BitVec 64) : List U8 :=
  bytesOf 4 (q.setWidth 32) ++ bytesOf 4 ((q >>> 32).setWidth 32)

/-- `x86p_cpu_cmpxchg8b` on a pointer into the host's memory. -/
def cpuCmpxchg8bAt (p : Nat) (s : Ctx Host) : Ctx Host :=
  let (cpu, quad) := cpuCmpxchg8b s.cpu (quadOf (Bytes.load s.mem.bytes p 8))
  { s with cpu, mem := s.mem.store p (bytesOfQuad quad) }

/-! ## CMPXCHG8B in the interpreter -/

namespace Exec

/-- The locked cycle always writes. Neither fault is given an address, and the second takes back
what the exchange did to the CPU. -/
def executeCmpxchg8b (m : Mem) (i : Insn) : Exec Host Unit := fun s =>
  let addr := effectiveAddress s.cpu i.operand0
  match (readBytes m s.mem addr 8).join with
  | none => .error (.fault .memoryFault 0) s
  | some bytes =>
    let (cpu, quad) := cpuCmpxchg8b s.cpu (quadOf bytes)
    match (writeBytes m s.mem addr (bytesOfQuad quad)).join with
    | some mem => .ok () { s with cpu, mem }
    | none =>
      let regs := (cpu.toCpuState.setReg eax (s.cpu.reg eax)).setReg edx (s.cpu.reg edx)
      .error (.fault .memoryFault 0)
        { s with cpu := { cpu with toCpuState := { regs with flags := s.cpu.flags } } }

/-- The families of `execute` with CMPXCHG8B among them. -/
def withCmpxchg8b (m : Mem) (other : OtherOp → Insn → Exec Host Unit) :
    OtherOp → Insn → Exec Host Unit :=
  Function.update other .cmpxchg8b (executeCmpxchg8b m)

end Exec

/-! ## The destination -/

section Destination

variable (m : Mem) (s : Ctx Host) (o : Operand)

/-- A destination in memory can be read and written. -/
def Exchangeable (n : Nat) : Prop :=
  o.kind = .mem → Placed (m.place memRead) (effectiveAddress s.cpu o).toNat n ∧
    Placed (m.place memWrite) (effectiveAddress s.cpu o).toNat n

/-- What a destination holds. -/
def destination (w : Width) : U32 :=
  if o.kind = .mem then
    valueOf (gather s.mem.bytes (m.place 0) (effectiveAddress s.cpu o).toNat w.bytes)
  else regRead s.cpu.toCpuState o.reg w

/-- A value in a destination in memory. -/
def stored (w : Width) (v : U32) : Ctx Host :=
  { s with mem := Host.put m s.mem (effectiveAddress s.cpu o) (bytesOf w.bytes v) }

/-- A pointer to the destination; bytes in memory are one piece of the host's. -/
def PointsAt (n : Nat) : Pointer → Prop
  | .host p => o.kind = .mem ∧ Run (m.place 0) (effectiveAddress s.cpu o).toNat n p
  | .reg r => o.kind = .reg ∧ r = o.reg

end Destination

section Access

variable {m : Mem} {h : Host} {a access : U32} {w : Width} {n : Nat}

theorem gather_place (hp : Placed (m.place access) a.toNat n) :
    gather h.bytes (m.place access) a.toNat n = gather h.bytes (m.place 0) a.toNat n := by
  refine List.map_congr_left fun i hi => ?_
  rw [Memory.cell_zero (hp i (List.mem_range.mp hi))]

/-- Bytes that are written back where they were read. -/
theorem scatter_gather (place : Nat → Option Nat) (h : Nat → U8) (a n : Nat) :
    scatter place h a (gather h place a n) = h := by
  induction n generalizing a with
  | zero => rfl
  | succ n ih =>
    have hcons : gather h place a (n + 1) = h (cell place a) :: gather h place (a + 1) n := by
      unfold gather
      rw [List.range_succ_eq_map, List.map_cons, List.map_map]
      refine congrArg _ (List.map_congr_left fun i _ => ?_)
      rw [Function.comp_apply, Nat.succ_eq_add_one, Nat.add_comm i, Nat.add_assoc]
    rw [hcons, scatter, Function.update_eq_self]
    exact ih (a + 1)

theorem guestMem_read_placed (hm : m.WellFormed) : (guestMem m).read h a w.bytes =
    if Placed (m.place memRead) a.toNat w.bytes then
      some (valueOf (gather h.bytes (m.place 0) a.toNat w.bytes)) else none := by
  change (Width.ofBytes w.bytes).bind _ = _
  rw [ofBytes_bytes, Option.bind_some, Memory.read_placed hm, Option.join_some]
  split_ifs with hp
  · rw [gather_place hp]
  · rfl

theorem guestMem_write_placed (hm : m.WellFormed) (v : U32) : (guestMem m).write h a w.bytes v =
    if Placed (m.place memWrite) a.toNat w.bytes then some (Host.put m h a (bytesOf w.bytes v))
    else none := by
  change (Width.ofBytes w.bytes).bind _ = _
  rw [ofBytes_bytes, Option.bind_some, Memory.write_placed hm, Option.join_some]

/-- A value that is written back leaves every byte as it was. -/
theorem put_back (hp : Placed (m.place memWrite) a.toNat w.bytes) :
    (Host.put m h a (bytesOf w.bytes (valueOf (gather h.bytes (m.place 0) a.toNat w.bytes)))).bytes =
      h.bytes := by
  have hlen : (gather h.bytes (m.place memWrite) a.toNat w.bytes).length = w.bytes := by simp
  have hback := @Memory.bytesOf_valueOf (gather h.bytes (m.place memWrite) a.toNat w.bytes)
    (by rw [hlen]; exact (Memory.bytes_ne_zero w).2)
  rw [hlen] at hback
  rw [← gather_place hp, hback]
  exact scatter_gather _ _ _ _

end Access

/-! ## The interpreter on a destination -/

open Exec

/-- A decoded XADD or CMPXCHG: a place, and a register of its width. -/
structure IsExchange (i : Insn) (w : Width) : Prop where
  place : IsPlace i.operand0 w
  source : i.operand1.kind = .reg
  size : i.operand1.size = w.bytes

section Operands

variable {m : Mem} {s : Ctx Host} {o : Operand} {w : Width}

theorem readOperand_placed (hm : m.WellFormed) (hk : o.kind = .mem) (hsize : o.size = w.bytes)
    (h : Placed (m.place memRead) (effectiveAddress s.cpu o).toNat w.bytes) :
    readOperand (guestMem m) o s = .ok (destination m s o w) s := by
  refine readOperand_mem _ hk ?_
  rw [hsize, guestMem_read_placed hm, if_pos h, destination, if_pos hk]

theorem readOperand_destination (hm : m.WellFormed) (ho : IsPlace o w)
    (h : Exchangeable m s o w.bytes) :
    readOperand (guestMem m) o s = .ok (destination m s o w) s := by
  obtain ⟨hk | hk, hsize⟩ := ho
  · rw [readOperand_reg _ hk (hsize ▸ ofBytes_bytes w), destination, if_neg (by rw [hk]; decide)]
  · exact readOperand_placed hm hk hsize (h hk).1

theorem writeOperand_stored (hm : m.WellFormed) (hk : o.kind = .mem) (hsize : o.size = w.bytes)
    (h : Exchangeable m s o w.bytes) (v : U32) :
    writeOperand (guestMem m) o v s = .ok () (stored m s o w v) := by
  refine writeOperand_mem _ hk ?_
  rw [hsize, guestMem_write_placed hm, if_pos (h hk).2]

/-- What is loaded through a pointer to the destination. -/
theorem load_pointsAt {d : Pointer} (hd : PointsAt m s o w.bytes d) :
    d.load s w = destination m s o w := by
  cases d with
  | host p =>
    obtain ⟨hk, hrun⟩ := hd
    rw [destination, if_pos hk, gather_run hrun]
    rfl
  | reg r =>
    obtain ⟨hk, rfl⟩ := hd
    rw [destination, if_neg (by rw [hk]; decide)]
    rfl

theorem run_access {access : U32} {a n p : Nat} (hrun : Run (m.place 0) a n p)
    (hp : Placed (m.place access) a n) : Run (m.place access) a n p := by
  intro k hk
  obtain ⟨x, hx⟩ := Option.ne_none_iff_exists'.mp (hp k hk)
  have hzero := Memory.place_zero hx
  rw [hrun k hk] at hzero
  rw [hx, ← hzero]

/-- The bytes behind a store through a pointer are those of the interpreter's write. -/
theorem bytes_stored {p : Nat} (hrun : Run (m.place 0) (effectiveAddress s.cpu o).toNat w.bytes p)
    (hp : Placed (m.place memWrite) (effectiveAddress s.cpu o).toNat w.bytes) (v : U32) :
    (stored m s o w v).mem.bytes = (s.mem.store p (bytesOf w.bytes v)).bytes := by
  have hwrite := run_access hrun hp
  rw [← Memory.length_bytesOf w.bytes v] at hwrite
  exact scatter_run hwrite

theorem bytesOf_and_widthMask (v : U32) (w : Width) :
    bytesOf w.bytes (v &&& widthMask w) = bytesOf w.bytes v := by
  refine List.ext_getElem (by simp only [Memory.length_bytesOf]) fun k hk hk' => ?_
  rw [getElem_bytesOf, getElem_bytesOf]
  rw [Memory.length_bytesOf] at hk
  refine BitVec.eq_of_getLsbD_eq fun j hj => ?_
  have hin : 8 * k + j < w.bits := by
    unfold Width.bits
    omega
  rw [getLsbD_byteOfValue _ _ hj, getLsbD_byteOfValue _ _ hj, getLsbD_and_widthMask,
    decide_eq_true hin, Bool.and_true]

theorem regWrite_withFlags (c : CpuState) (f : Flags) (r : Reg) (w : Width) (v : U32) :
    regWrite { c with flags := f } r w v = { regWrite c r w v with flags := f } := by
  cases w <;> rfl

/-- The two ways to refuse an exchange. -/
theorem refused_cases (h : ¬ Exchangeable m s o w.bytes) : o.kind = .mem ∧
    (¬ Placed (m.place memRead) (effectiveAddress s.cpu o).toNat w.bytes ∨
      Placed (m.place memRead) (effectiveAddress s.cpu o).toNat w.bytes ∧
        ¬ Placed (m.place memWrite) (effectiveAddress s.cpu o).toNat w.bytes) := by
  obtain ⟨hk, hnot⟩ := Classical.not_imp.mp h
  by_cases hread : Placed (m.place memRead) (effectiveAddress s.cpu o).toNat w.bytes
  · exact ⟨hk, .inr ⟨hread, fun hwrite => hnot ⟨hread, hwrite⟩⟩⟩
  · exact ⟨hk, .inl hread⟩

theorem readOperand_unplaced (hm : m.WellFormed) (hk : o.kind = .mem) (hsize : o.size = w.bytes)
    (h : ¬ Placed (m.place memRead) (effectiveAddress s.cpu o).toNat w.bytes) :
    readOperand (guestMem m) o s =
      .error (.fault .memoryFault (effectiveAddress s.cpu o)) s := by
  unfold readOperand
  rw [hk]
  change readMem _ _ _ s = _
  unfold readMem
  rw [hsize, guestMem_read_placed hm, if_neg h]

theorem writeOperand_unplaced (hm : m.WellFormed) (hk : o.kind = .mem) (hsize : o.size = w.bytes)
    (h : ¬ Placed (m.place memWrite) (effectiveAddress s.cpu o).toNat w.bytes) (v : U32) :
    writeOperand (guestMem m) o v s =
      .error (.fault .memoryFault (effectiveAddress s.cpu o)) s := by
  unfold writeOperand
  rw [hk]
  change writeMem _ _ _ _ s = _
  unfold writeMem
  rw [hsize, guestMem_write_placed hm, if_neg h]

end Operands

/-- What no exchange changes. -/
structure Beside (i : Insn) (s t : Ctx Host) : Prop where
  eip : t.cpu.eip = s.cpu.eip + i.length
  bases : t.cpu.fsBase = s.cpu.fsBase ∧ t.cpu.gsBase = s.cpu.gsBase
  seg : t.seg = s.seg

/-- A refused exchange: a memory fault, with the CPU and memory as they were. -/
def Refused (r : EStateM.Result Halt (Ctx Host) Unit) (s : Ctx Host) : Prop :=
  ∃ a t, r = .error (.fault .memoryFault a) t ∧ t.cpu = s.cpu ∧ t.mem = s.mem ∧ t.seg = s.seg

/-- The registers, the flags and the bytes of two states are the same. -/
def SameOutcome (t u : Ctx Host) : Prop :=
  u.cpu.toCpuState = t.cpu.toCpuState ∧ u.mem.bytes = t.mem.bytes

/-! ## XADD -/

section Xadd

variable (m : Mem) (i : Insn) (w : Width) (s : Ctx Host)

def xaddSum : U32 :=
  (destination m s i.operand0 w + regRead s.cpu.toCpuState i.operand1.reg w) &&& widthMask w

/-- The source takes the old value, and the destination the sum after it. -/
structure Xadded (t : Ctx Host) : Prop where
  flags : alu .add (destination m s i.operand0 w) (regRead s.cpu.toCpuState i.operand1.reg w) w
    s.cpu.flags = some (xaddSum m i w s, t.cpu.flags)
  memory : t.mem = if i.operand0.kind = .mem then
    Host.put m s.mem (effectiveAddress s.cpu i.operand0) (bytesOf w.bytes (xaddSum m i w s))
    else s.mem
  registers : t.cpu.toCpuState =
    let c := regWrite s.cpu.toCpuState i.operand1.reg w (destination m s i.operand0 w)
    { (if i.operand0.kind = .mem then c else regWrite c i.operand0.reg w (xaddSum m i w s)) with
      flags := t.cpu.flags }
  result : i.operand0.kind = .reg → regRead t.cpu.toCpuState i.operand0.reg w = xaddSum m i w s
  returned : (i.operand0.kind = .reg → i.operand0.reg ≠ i.operand1.reg) →
    regRead t.cpu.toCpuState i.operand1.reg w = destination m s i.operand0 w
  beside : Beside i s t

def XaddExact (other : OtherOp → Insn → Exec Host Unit) : Prop :=
  (Exchangeable m s i.operand0 w.bytes →
    ∃ t, executeDecoded (guestMem m) other i s = .ok () t ∧ Xadded m i w s t ∧
      ∀ d, PointsAt m s i.operand0 w.bytes d →
        (i.operand0.kind = .reg → i.operand0.reg ≠ i.operand1.reg) →
        ∃ u, cpuXadd d i.operand1.reg w s = some u ∧ SameOutcome t u) ∧
  (¬ Exchangeable m s i.operand0 w.bytes → Refused (executeDecoded (guestMem m) other i s) s)

variable {m i w s}

theorem alu_add_sum (a b : U32) (w : Width) (f : Flags) :
    ∃ f', alu .add a b w f = some ((a + b) &&& widthMask w, f') := by
  have hsum : ((a &&& widthMask w) + (b &&& widthMask w)) &&& widthMask w =
      (a + b) &&& widthMask w := by
    refine BitVec.eq_of_toNat_eq ?_
    have hdvd : 2 ^ w.bits ∣ 2 ^ 32 := Nat.pow_dvd_pow 2 (by cases w <;> decide)
    simp only [toNat_and_widthMask, BitVec.toNat_add]
    rw [Nat.mod_mod_of_dvd _ hdvd, Nat.mod_mod_of_dvd _ hdvd, ← Nat.add_mod]
  refine ⟨⟨a &&& widthMask w, b &&& widthMask w, (a + b) &&& widthMask w, .add, w,
    if flagCf f then 1 else 0⟩, ?_⟩
  unfold alu
  dsimp only
  rw [hsum]
  rfl

theorem destination_and_widthMask (m : Mem) (s : Ctx Host) (o : Operand) (w : Width) :
    destination m s o w &&& widthMask w = destination m s o w := by
  unfold destination
  split_ifs
  · refine BitVec.eq_of_getLsbD_eq fun j _ => ?_
    rw [getLsbD_and_widthMask]
    by_cases hj : j < w.bits
    · rw [decide_eq_true hj, Bool.and_true]
    · unfold Width.bits at hj
      rw [Memory.getLsbD_valueOf (by rw [length_gather]; omega), Bool.false_and]
  · exact regRead_and_widthMask _ _ _

/-- Where XADD ends, with the flags it records. -/
def xaddState (m : Mem) (i : Insn) (w : Width) (s : Ctx Host) (f : Flags) : Ctx Host :=
  let c := regWrite s.cpu.toCpuState i.operand1.reg w (destination m s i.operand0 w)
  if i.operand0.kind = .mem then
    ((stored m s i.operand0 w (xaddSum m i w s)).withRegs c).withFlags f
  else (s.withRegs (regWrite c i.operand0.reg w (xaddSum m i w s))).withFlags f

theorem executeXadd_ok (hm : m.WellFormed) (hi : IsExchange i w)
    (h : Exchangeable m s i.operand0 w.bytes) {f : Flags}
    (hf : alu .add (destination m s i.operand0 w) (regRead s.cpu.toCpuState i.operand1.reg w) w
      s.cpu.flags = some (xaddSum m i w s, f)) :
    executeXadd (guestMem m) i s = .ok () (xaddState m i w s f) := by
  have hsize : Width.ofBytes i.operand1.size = some w := hi.size ▸ ofBytes_bytes w
  have hdst : Width.ofBytes i.operand0.size = some w := hi.place.2 ▸ ofBytes_bytes w
  have hread := readOperand_destination hm hi.place h
  have hsource := readOperand_reg (guestMem m) (s := s) hi.source hsize
  unfold executeXadd
  rw [bind_ok hread, bind_ok hsource, hdst, orFatal_bind_some, askFlags_bind, hf, Option.map_some,
    orFatal_bind_some]
  unfold xaddState
  by_cases hk : i.operand0.kind = .mem
  · have hflags : alu .add (destination m s i.operand0 w)
        (regRead s.cpu.toCpuState i.operand1.reg w) w
        (regWrite s.cpu.toCpuState i.operand1.reg w (destination m s i.operand0 w)).flags =
          some (xaddSum m i w s, f) := by
      rw [regWrite_keeps_flags]
      exact hf
    simp only [if_pos hk]
    rw [bind_ok (writeOperand_stored hm hk hi.place.2 h _),
      bind_ok (writeOperand_reg _ hi.source hsize _)]
    exact bind_ok (onFlags_ok hflags)
  · have hflags : alu .add (destination m s i.operand0 w)
        (regRead s.cpu.toCpuState i.operand1.reg w) w
        (regWrite (regWrite s.cpu.toCpuState i.operand1.reg w (destination m s i.operand0 w))
          i.operand0.reg w (xaddSum m i w s)).flags = some (xaddSum m i w s, f) := by
      rw [regWrite_keeps_flags, regWrite_keeps_flags]
      exact hf
    simp only [if_neg hk]
    rw [bind_ok (writeOperand_reg _ hi.source hsize _),
      bind_ok (writeOperand_reg _ (hi.place.1.resolve_right hk) hdst _)]
    exact bind_ok (onFlags_ok hflags)

theorem executeXadd_refused (hm : m.WellFormed) (hi : IsExchange i w)
    (h : ¬ Exchangeable m s i.operand0 w.bytes) :
    executeXadd (guestMem m) i s =
      .error (.fault .memoryFault (effectiveAddress s.cpu i.operand0)) s := by
  have hsize : Width.ofBytes i.operand1.size = some w := hi.size ▸ ofBytes_bytes w
  have hdst : Width.ofBytes i.operand0.size = some w := hi.place.2 ▸ ofBytes_bytes w
  unfold executeXadd
  obtain ⟨hk, hread | ⟨hread, hwrite⟩⟩ := refused_cases h
  · rw [bind_error (readOperand_unplaced hm hk hi.place.2 hread)]
  · obtain ⟨f, hf⟩ := alu_add_sum (destination m s i.operand0 w)
      (regRead s.cpu.toCpuState i.operand1.reg w) w s.cpu.flags
    rw [bind_ok (readOperand_placed hm hk hi.place.2 hread),
      bind_ok (readOperand_reg (guestMem m) hi.source hsize), hdst, orFatal_bind_some,
      askFlags_bind, hf, Option.map_some, orFatal_bind_some]
    simp only [if_pos hk]
    exact bind_error (writeOperand_unplaced hm hk hi.place.2 hwrite _)

/-- The state behind the decoded instruction. -/
def behindInsn (i : Insn) (s t : Ctx Host) : Ctx Host :=
  let next := s.cpu.eip + i.length
  { t with cpu := { t.cpu with eip := next }, nextEip := next }

theorem xadded_state {f : Flags}
    (hf : alu .add (destination m s i.operand0 w) (regRead s.cpu.toCpuState i.operand1.reg w) w
      s.cpu.flags = some (xaddSum m i w s, f)) (hi : IsExchange i w) :
    Xadded m i w s (behindInsn i s (xaddState m i w s f)) := by
  have hsum : xaddSum m i w s &&& widthMask w = xaddSum m i w s := by
    rw [xaddSum, BitVec.and_assoc, BitVec.and_self]
  have hold := destination_and_widthMask m s i.operand0 w
  have hread : ∀ (c : CpuState) (r : Reg),
      regRead { c with flags := f } r w = regRead c r w := fun c r => by cases w <;> rfl
  by_cases hk : i.operand0.kind = .mem
  · have hstate : xaddState m i w s f = ((stored m s i.operand0 w (xaddSum m i w s)).withRegs
        (regWrite s.cpu.toCpuState i.operand1.reg w (destination m s i.operand0 w))).withFlags f :=
      if_pos hk
    rw [hstate]
    refine ⟨hf, (if_pos hk).symm, ?_, fun hreg => absurd (hreg.symm.trans hk) (by decide),
      fun _ => ?_, ⟨rfl, ⟨rfl, rfl⟩, rfl⟩⟩
    · dsimp only
      rw [if_pos hk]
      rfl
    · exact (hread _ _).trans ((regRead_regWrite _ _ _ _).trans hold)
  · have hreg := hi.place.1.resolve_right hk
    have hstate : xaddState m i w s f = (s.withRegs (regWrite
        (regWrite s.cpu.toCpuState i.operand1.reg w (destination m s i.operand0 w))
        i.operand0.reg w (xaddSum m i w s))).withFlags f := if_neg hk
    rw [hstate]
    refine ⟨hf, (if_neg hk).symm, ?_, fun _ => ?_, fun hne => ?_, ⟨rfl, ⟨rfl, rfl⟩, rfl⟩⟩
    · dsimp only
      rw [if_neg hk]
      rfl
    · exact (hread _ _).trans ((regRead_regWrite _ _ _ _).trans hsum)
    · exact (hread _ _).trans ((regRead_regWrite_ne _ (hne hreg).symm _ _).trans
        ((regRead_regWrite _ _ _ _).trans hold))

theorem store_flags_eq (d : Pointer) (s : Ctx Host) (w : Width) (v : U32) :
    (d.store s w v).cpu.flags = s.cpu.flags := by
  cases d with
  | host p => rfl
  | reg r => exact regWrite_keeps_flags _ _ _ _

theorem cpuXadd_eq {d : Pointer} {old sum : U32} {source : Reg} {f : Flags}
    (hold : d.load s w = old)
    (hf : alu .add old (regRead s.cpu.toCpuState source w) w s.cpu.flags = some (sum, f)) :
    cpuXadd d source w s =
      let t := (d.store s w (old + regRead s.cpu.toCpuState source w)).withFlags f
      some (t.withRegs (regWrite t.cpu.toCpuState source w old)) := by
  unfold cpuXadd atomicFetchAdd
  dsimp only
  rw [hold, store_flags_eq, hf, Option.map_some]

/-- The pointer leaves what the interpreter leaves. -/
theorem cpuXadd_same {f : Flags} (hw : Exchangeable m s i.operand0 w.bytes)
    (hf : alu .add (destination m s i.operand0 w) (regRead s.cpu.toCpuState i.operand1.reg w) w
      s.cpu.flags = some (xaddSum m i w s, f)) {d : Pointer}
    (hd : PointsAt m s i.operand0 w.bytes d)
    (hne : i.operand0.kind = .reg → i.operand0.reg ≠ i.operand1.reg) :
    ∃ u, cpuXadd d i.operand1.reg w s = some u ∧
      SameOutcome (behindInsn i s (xaddState m i w s f)) u := by
  have hold := load_pointsAt hd
  cases d with
  | host p =>
    obtain ⟨hk, hrun⟩ := hd
    refine ⟨_, cpuXadd_eq hold hf, ?_⟩
    · have hstate : xaddState m i w s f = ((stored m s i.operand0 w (xaddSum m i w s)).withRegs
          (regWrite s.cpu.toCpuState i.operand1.reg w (destination m s i.operand0 w))).withFlags f :=
        if_pos hk
      rw [hstate]
      refine ⟨?_, ?_⟩
      · change regWrite { s.cpu.toCpuState with flags := f } _ w _ = _
        rw [regWrite_withFlags]
        rfl
      · refine ((bytes_stored hrun (hw hk).2 _).trans ?_).symm
        unfold xaddSum
        rw [bytesOf_and_widthMask]
        rfl
  | reg r =>
    obtain ⟨hreg, rfl⟩ := hd
    have hk : ¬ i.operand0.kind = .mem := by rw [hreg]; decide
    refine ⟨_, cpuXadd_eq hold hf, ?_⟩
    · have hstate : xaddState m i w s f = (s.withRegs (regWrite
          (regWrite s.cpu.toCpuState i.operand1.reg w (destination m s i.operand0 w))
          i.operand0.reg w (xaddSum m i w s))).withFlags f := if_neg hk
      rw [hstate]
      refine ⟨?_, rfl⟩
      change regWrite { regWrite s.cpu.toCpuState i.operand0.reg w _ with flags := f } _ w _ =
        { regWrite (regWrite s.cpu.toCpuState i.operand1.reg w _) _ w (xaddSum m i w s) with
          flags := f }
      unfold xaddSum
      rw [regWrite_withFlags, regWrite_and_widthMask, regWrite_comm _ (hne hreg)]

theorem xaddExact (hm : m.WellFormed) (other : OtherOp → Insn → Exec Host Unit)
    (hop : i.op = .xadd) (hi : IsExchange i w) : XaddExact m i w s other := by
  set s₀ : Ctx Host := { s with nextEip := s.cpu.eip + i.length } with hs₀
  constructor
  · intro h
    obtain ⟨f, hf⟩ : ∃ f, alu .add (destination m s i.operand0 w)
        (regRead s.cpu.toCpuState i.operand1.reg w) w s.cpu.flags = some (xaddSum m i w s, f) :=
      alu_add_sum _ _ w s.cpu.flags
    have hexec : execute (guestMem m) other i s₀ = .ok () (xaddState m i w s₀ f) := by
      unfold execute
      rw [hop]
      exact @executeXadd_ok m i w s₀ hm hi h f hf
    have hdone := executeDecoded_ok (guestMem m) other hexec
    have hstate : ({ xaddState m i w s₀ f with
        cpu := { (xaddState m i w s₀ f).cpu with eip := (xaddState m i w s₀ f).nextEip } } :
          Ctx Host) = behindInsn i s (xaddState m i w s f) := by
      unfold xaddState
      split_ifs <;> rfl
    rw [hstate] at hdone
    exact ⟨_, hdone, xadded_state hf hi, fun d hd hne => cpuXadd_same h hf hd hne⟩
  · intro h
    have hexec : execute (guestMem m) other i s₀ =
        .error (.fault .memoryFault (effectiveAddress s₀.cpu i.operand0)) s₀ := by
      unfold execute
      rw [hop]
      exact @executeXadd_refused m i w s₀ hm hi h
    exact ⟨_, _, executeDecoded_error (guestMem m) other hexec, rfl, rfl, rfl⟩

end Xadd

/-! ## CMPXCHG -/

section Cmpxchg

variable (m : Mem) (i : Insn) (w : Width) (s : Ctx Host)

def accumulator : U32 := regRead s.cpu.toCpuState eax w

/-- The value that is stored, which is the old one after a failed compare. -/
def cmpxchgValue : U32 :=
  if accumulator w s = destination m s i.operand0 w then regRead s.cpu.toCpuState i.operand1.reg w
  else destination m s i.operand0 w

structure Compared (t : Ctx Host) : Prop where
  flags : ∃ r, alu .cmp (accumulator w s) (destination m s i.operand0 w) w s.cpu.flags =
    some (r, t.cpu.flags)
  memory : t.mem = if i.operand0.kind = .mem then
    Host.put m s.mem (effectiveAddress s.cpu i.operand0) (bytesOf w.bytes (cmpxchgValue m i w s))
    else s.mem
  writtenBack : accumulator w s ≠ destination m s i.operand0 w → t.mem.bytes = s.mem.bytes
  registers : t.cpu.toCpuState =
    { (if accumulator w s = destination m s i.operand0 w then
        if i.operand0.kind = .mem then s.cpu.toCpuState
        else regWrite s.cpu.toCpuState i.operand0.reg w (regRead s.cpu.toCpuState i.operand1.reg w)
      else regWrite s.cpu.toCpuState eax w (destination m s i.operand0 w)) with
      flags := t.cpu.flags }
  result : accumulator w s = destination m s i.operand0 w → i.operand0.kind = .reg →
    regRead t.cpu.toCpuState i.operand0.reg w = regRead s.cpu.toCpuState i.operand1.reg w
  loaded : accumulator w s ≠ destination m s i.operand0 w →
    regRead t.cpu.toCpuState eax w = destination m s i.operand0 w
  beside : Beside i s t

def CmpxchgExact (other : OtherOp → Insn → Exec Host Unit) : Prop :=
  (Exchangeable m s i.operand0 w.bytes →
    ∃ t, executeDecoded (guestMem m) other i s = .ok () t ∧ Compared m i w s t ∧
      ∀ d, PointsAt m s i.operand0 w.bytes d →
        ∃ u, cpuCmpxchg d i.operand1.reg w s = some u ∧ SameOutcome t u) ∧
  (¬ Exchangeable m s i.operand0 w.bytes → Refused (executeDecoded (guestMem m) other i s) s)

variable {m i w s}

theorem alu_cmp_some (a b : U32) (w : Width) (f : Flags) :
    ∃ r f', alu .cmp a b w f = some (r, f') := ⟨_, _, rfl⟩

/-- Where CMPXCHG ends, with the flags it records. -/
def cmpxchgState (m : Mem) (i : Insn) (w : Width) (s : Ctx Host) (f : Flags) : Ctx Host :=
  let t := if i.operand0.kind = .mem then stored m s i.operand0 w (cmpxchgValue m i w s)
    else s.withRegs (regWrite s.cpu.toCpuState i.operand0.reg w (cmpxchgValue m i w s))
  (if accumulator w s = destination m s i.operand0 w then t
    else t.withRegs (regWrite t.cpu.toCpuState eax w (destination m s i.operand0 w))).withFlags f

theorem executeCmpxchg_ok (hm : m.WellFormed) (hi : IsExchange i w)
    (h : Exchangeable m s i.operand0 w.bytes) {r : U32} {f : Flags}
    (hf : alu .cmp (accumulator w s) (destination m s i.operand0 w) w s.cpu.flags = some (r, f)) :
    executeCmpxchg (guestMem m) i s = .ok () (cmpxchgState m i w s f) := by
  have hsize : Width.ofBytes i.operand1.size = some w := hi.size ▸ ofBytes_bytes w
  have hdst : Width.ofBytes i.operand0.size = some w := hi.place.2 ▸ ofBytes_bytes w
  obtain ⟨t, ht, hwrite, hflags⟩ : ∃ t, t = (if i.operand0.kind = .mem then
        stored m s i.operand0 w (cmpxchgValue m i w s)
      else s.withRegs (regWrite s.cpu.toCpuState i.operand0.reg w (cmpxchgValue m i w s))) ∧
      writeOperand (guestMem m) i.operand0 (cmpxchgValue m i w s) s = .ok () t ∧
      t.cpu.flags = s.cpu.flags := by
    by_cases hk : i.operand0.kind = .mem
    · exact ⟨_, rfl, by rw [if_pos hk]; exact writeOperand_stored hm hk hi.place.2 h _,
        by rw [if_pos hk]; rfl⟩
    · exact ⟨_, rfl, by rw [if_neg hk]; exact writeOperand_reg _ (hi.place.1.resolve_right hk) hdst _,
        by rw [if_neg hk]; exact regWrite_keeps_flags _ _ _ _⟩
  unfold executeCmpxchg cmpxchgState
  rw [bind_ok (readReg_ok eax hdst), bind_ok (readOperand_destination hm hi.place h),
    bind_ok (readOperand_reg (guestMem m) hi.source hsize), hdst, orFatal_bind_some]
  change (writeOperand (guestMem m) i.operand0 (cmpxchgValue m i w s) >>= fun _ => _) s = _
  rw [bind_ok hwrite]
  dsimp only
  rw [← ht]
  change ((if accumulator w s = destination m s i.operand0 w then pure ()
    else writeReg eax i.operand0.size (destination m s i.operand0 w)) >>= fun _ => _) t = _
  by_cases heq : accumulator w s = destination m s i.operand0 w
  · rw [if_pos heq, if_pos heq, bind_ok (pure_apply _)]
    exact bind_ok (onFlags_ok (by rw [hflags]; exact hf))
  · have hrecord : alu .cmp (accumulator w s) (destination m s i.operand0 w) w
        (regWrite t.cpu.toCpuState eax w (destination m s i.operand0 w)).flags = some (r, f) := by
      rw [regWrite_keeps_flags, hflags]
      exact hf
    rw [if_neg heq, if_neg heq, bind_ok (writeReg_ok eax hdst _)]
    exact bind_ok (onFlags_ok hrecord)

theorem executeCmpxchg_refused (hm : m.WellFormed) (hi : IsExchange i w)
    (h : ¬ Exchangeable m s i.operand0 w.bytes) :
    executeCmpxchg (guestMem m) i s =
      .error (.fault .memoryFault (effectiveAddress s.cpu i.operand0)) s := by
  have hsize : Width.ofBytes i.operand1.size = some w := hi.size ▸ ofBytes_bytes w
  have hdst : Width.ofBytes i.operand0.size = some w := hi.place.2 ▸ ofBytes_bytes w
  unfold executeCmpxchg
  rw [bind_ok (readReg_ok eax hdst)]
  obtain ⟨hk, hread | ⟨hread, hwrite⟩⟩ := refused_cases h
  · exact bind_error (readOperand_unplaced hm hk hi.place.2 hread)
  · rw [bind_ok (readOperand_placed hm hk hi.place.2 hread),
      bind_ok (readOperand_reg (guestMem m) hi.source hsize), hdst, orFatal_bind_some]
    exact bind_error (writeOperand_unplaced hm hk hi.place.2 hwrite _)

/-- The registers behind CMPXCHG, where writing a register's own value back shows nothing. -/
theorem cmpxchgState_registers (f : Flags) :
    (cmpxchgState m i w s f).cpu.toCpuState =
      { (if accumulator w s = destination m s i.operand0 w then
          if i.operand0.kind = .mem then s.cpu.toCpuState
          else regWrite s.cpu.toCpuState i.operand0.reg w
            (regRead s.cpu.toCpuState i.operand1.reg w)
        else regWrite s.cpu.toCpuState eax w (destination m s i.operand0 w)) with flags := f } := by
  unfold cmpxchgState cmpxchgValue
  by_cases heq : accumulator w s = destination m s i.operand0 w
  · simp only [if_pos heq]
    split_ifs <;> rfl
  · simp only [if_neg heq]
    by_cases hk : i.operand0.kind = .mem
    · simp only [if_pos hk]
      rfl
    · have hsame : regWrite s.cpu.toCpuState i.operand0.reg w (destination m s i.operand0 w) =
          s.cpu.toCpuState := by
        rw [destination, if_neg hk]
        exact regWrite_regRead _ _ _
      simp only [if_neg hk, hsame]
      rfl

theorem cmpxchgState_mem (f : Flags) : (cmpxchgState m i w s f).mem =
    if i.operand0.kind = .mem then (stored m s i.operand0 w (cmpxchgValue m i w s)).mem
    else s.mem := by
  unfold cmpxchgState
  split_ifs <;> rfl

/-- A failed compare leaves every byte as it was. -/
theorem cmpxchgState_bytes (h : Exchangeable m s i.operand0 w.bytes)
    (hne : accumulator w s ≠ destination m s i.operand0 w) (f : Flags) :
    (cmpxchgState m i w s f).mem.bytes = s.mem.bytes := by
  rw [cmpxchgState_mem]
  by_cases hk : i.operand0.kind = .mem
  · rw [if_pos hk, cmpxchgValue, if_neg hne, destination, if_pos hk]
    exact put_back (h hk).2
  · rw [if_neg hk]

theorem compared_state {r : U32} {f : Flags}
    (h : Exchangeable m s i.operand0 w.bytes)
    (hf : alu .cmp (accumulator w s) (destination m s i.operand0 w) w s.cpu.flags = some (r, f)) :
    Compared m i w s (behindInsn i s (cmpxchgState m i w s f)) := by
  have hregs := cmpxchgState_registers (m := m) (i := i) (w := w) (s := s) f
  have hold := destination_and_widthMask m s i.operand0 w
  have hflags : (behindInsn i s (cmpxchgState m i w s f)).cpu.flags = f := by
    change (cmpxchgState m i w s f).cpu.toCpuState.flags = f
    rw [hregs]
  have hread : ∀ (c : CpuState) (q : Reg),
      regRead { c with flags := f } q w = regRead c q w := fun c q => by cases w <;> rfl
  refine ⟨⟨r, ?_⟩, cmpxchgState_mem f, fun hne => cmpxchgState_bytes h hne f, ?_, ?_, ?_, ?_⟩
  · rw [hflags]
    exact hf
  · rw [hflags]
    exact hregs
  · intro heq hreg
    change regRead (cmpxchgState m i w s f).cpu.toCpuState _ w = _
    rw [hregs, if_pos heq, if_neg (by rw [hreg]; decide), hread, regRead_regWrite,
      regRead_and_widthMask]
  · intro hne
    change regRead (cmpxchgState m i w s f).cpu.toCpuState _ w = _
    rw [hregs, if_neg hne, hread, regRead_regWrite, hold]
  · have hbeside : ∀ {t : Ctx Host}, t.cpu.fsBase = s.cpu.fsBase → t.cpu.gsBase = s.cpu.gsBase →
        t.seg = s.seg → Beside i s (behindInsn i s t) := fun h1 h2 h3 => ⟨rfl, ⟨h1, h2⟩, h3⟩
    unfold cmpxchgState
    split_ifs <;> exact hbeside rfl rfl rfl

theorem cpuCmpxchg_eq {d : Pointer} {old r : U32} {source : Reg} {f : Flags}
    (hold : d.load s w = old) (hf : alu .cmp (accumulator w s) old w s.cpu.flags = some (r, f)) :
    cpuCmpxchg d source w s = some (if accumulator w s = old then
        (d.store s w (regRead s.cpu.toCpuState source w)).withFlags f
      else (s.withFlags f).withRegs (regWrite { s.cpu.toCpuState with flags := f } eax w old)) := by
  have hmasked : accumulator w s &&& widthMask w = accumulator w s := regRead_and_widthMask _ _ _
  unfold cpuCmpxchg atomicCompareExchange
  dsimp only
  rw [show regRead s.cpu.toCpuState eax w = accumulator w s from rfl, hold, hmasked]
  by_cases heq : accumulator w s = old
  · rw [if_pos heq.symm, store_flags_eq, hf, if_pos heq, Option.map_some,
      if_neg (not_not.mpr heq.symm)]
  · rw [if_neg (Ne.symm heq), hf, if_neg heq, Option.map_some, if_pos (Ne.symm heq)]
    rfl

/-- The pointer leaves what the interpreter leaves. -/
theorem cpuCmpxchg_same {r : U32} {f : Flags} (h : Exchangeable m s i.operand0 w.bytes)
    (hf : alu .cmp (accumulator w s) (destination m s i.operand0 w) w s.cpu.flags = some (r, f))
    {d : Pointer} (hd : PointsAt m s i.operand0 w.bytes d) :
    ∃ u, cpuCmpxchg d i.operand1.reg w s = some u ∧
      SameOutcome (behindInsn i s (cmpxchgState m i w s f)) u := by
  refine ⟨_, cpuCmpxchg_eq (load_pointsAt hd) hf, ?_⟩
  have hregs : (behindInsn i s (cmpxchgState m i w s f)).cpu.toCpuState = _ :=
    cmpxchgState_registers f
  unfold SameOutcome
  rw [hregs]
  by_cases heq : accumulator w s = destination m s i.operand0 w
  · have hvalue : cmpxchgValue m i w s = regRead s.cpu.toCpuState i.operand1.reg w := if_pos heq
    have hmem : (behindInsn i s (cmpxchgState m i w s f)).mem = _ := cmpxchgState_mem f
    rw [if_pos heq, if_pos heq, hmem, hvalue]
    cases d with
    | host p =>
      obtain ⟨hk, hrun⟩ := hd
      rw [if_pos hk, if_pos hk]
      exact ⟨rfl, (bytes_stored hrun (h hk).2 _).symm⟩
    | reg q =>
      obtain ⟨hreg, rfl⟩ := hd
      rw [if_neg (by rw [hreg]; decide), if_neg (by rw [hreg]; decide)]
      exact ⟨rfl, rfl⟩
  · rw [if_neg heq, if_neg heq]
    exact ⟨regWrite_withFlags _ _ _ _ _, (cmpxchgState_bytes h heq f).symm⟩

theorem cmpxchgState_nextEip (f : Flags) (next : U32) :
    cmpxchgState m i w { s with nextEip := next } f =
      { cmpxchgState m i w s f with nextEip := next } := by
  by_cases heq : accumulator w s = destination m s i.operand0 w
  · have heq' : accumulator w { s with nextEip := next } =
        destination m { s with nextEip := next } i.operand0 w := heq
    simp only [cmpxchgState, if_pos heq, if_pos heq']
    split_ifs <;> rfl
  · have hne' : ¬ accumulator w { s with nextEip := next } =
        destination m { s with nextEip := next } i.operand0 w := heq
    simp only [cmpxchgState, if_neg heq, if_neg hne']
    split_ifs <;> rfl

theorem cmpxchgExact (hm : m.WellFormed) (other : OtherOp → Insn → Exec Host Unit)
    (hop : i.op = .cmpxchg) (hi : IsExchange i w) : CmpxchgExact m i w s other := by
  set s₀ : Ctx Host := { s with nextEip := s.cpu.eip + i.length } with hs₀
  constructor
  · intro h
    obtain ⟨r, f, hf⟩ := alu_cmp_some (accumulator w s) (destination m s i.operand0 w) w s.cpu.flags
    have hexec : execute (guestMem m) other i s₀ = .ok () (cmpxchgState m i w s₀ f) := by
      unfold execute
      rw [hop]
      exact @executeCmpxchg_ok m i w s₀ hm hi h r f hf
    have hdone := executeDecoded_ok (guestMem m) other hexec
    rw [cmpxchgState_nextEip] at hdone
    exact ⟨_, hdone, compared_state h hf, fun d hd => cpuCmpxchg_same h hf hd⟩
  · intro h
    have hexec : execute (guestMem m) other i s₀ =
        .error (.fault .memoryFault (effectiveAddress s₀.cpu i.operand0)) s₀ := by
      unfold execute
      rw [hop]
      exact @executeCmpxchg_refused m i w s₀ hm hi h
    exact ⟨_, _, executeDecoded_error (guestMem m) other hexec, rfl, rfl, rfl⟩

end Cmpxchg

/-! ## CMPXCHG8B -/

theorem length_bytesOfQuad (q : BitVec 64) : (bytesOfQuad q).length = 8 := by
  rw [bytesOfQuad, List.length_append, Memory.length_bytesOf, Memory.length_bytesOf]

theorem setWidth_append_low (hi lo : U32) : (hi ++ lo).setWidth 32 = lo := by
  refine BitVec.eq_of_getLsbD_eq fun j hj => ?_
  rw [BitVec.getLsbD_setWidth, BitVec.getLsbD_append, decide_eq_true hj, if_pos hj, Bool.true_and]

theorem setWidth_append_high (hi lo : U32) : ((hi ++ lo) >>> 32).setWidth 32 = hi := by
  refine BitVec.eq_of_getLsbD_eq fun j hj => ?_
  rw [BitVec.getLsbD_setWidth, BitVec.getLsbD_ushiftRight, BitVec.getLsbD_append,
    decide_eq_true hj, if_neg (by omega), Bool.true_and, Nat.add_sub_cancel_left]

theorem append_halves (q : BitVec 64) : (q >>> 32).setWidth 32 ++ q.setWidth 32 = q := by
  refine BitVec.eq_of_getLsbD_eq fun j hj => ?_
  rw [BitVec.getLsbD_append]
  split_ifs with hlow
  · rw [BitVec.getLsbD_setWidth, decide_eq_true hlow, Bool.true_and]
  · rw [BitVec.getLsbD_setWidth, BitVec.getLsbD_ushiftRight, decide_eq_true (by omega),
      Bool.true_and, Nat.add_sub_of_le (by omega)]

theorem bytesOfQuad_quadOf {bytes : List U8} (hlen : bytes.length = 8) :
    bytesOfQuad (quadOf bytes) = bytes := by
  have hlow : (bytes.take 4).length = 4 := by rw [List.length_take, hlen]; rfl
  have hhigh : (bytes.drop 4).length = 4 := by rw [List.length_drop, hlen]
  have hlow' := Memory.bytesOf_valueOf hlow.le
  have hhigh' := Memory.bytesOf_valueOf hhigh.le
  rw [hlow] at hlow'
  rw [hhigh] at hhigh'
  rw [bytesOfQuad, quadOf, setWidth_append_low, setWidth_append_high, hlow', hhigh',
    List.take_append_drop]

/-- An explicit word that differs from the flags in ZF alone. -/
theorem eflags_zero_flag {f : Flags} {e : U32} {b : Bool}
    (h : ∀ j, e.getLsbD j = if j = 6 then b else (eflags f).getLsbD j) (j : Nat) :
    (eflags (flagsSetExplicit e)).getLsbD j = if j = 6 then b else (eflags f).getLsbD j := by
  rw [eflags_explicit]
  simp only [h]
  by_cases hj : j = 6
  · subst hj
    simp [flagBits, eflagsFixed]
  · rw [getLsbD_eflags f j, if_neg hj, eflags_cf, eflags_pf, eflags_af, eflags_sf, eflags_of]
    simp [flagBits, hj]

theorem flagsOf_cmpxchg8b (c : X86Cpu) (q : BitVec 64) (j : Nat) :
    (eflags (cpuCmpxchg8b c q).1.flags).getLsbD j =
      if j = 6 then decide (q = c.reg edx ++ c.reg eax) else (eflags c.flags).getLsbD j := by
  have hzf : ∀ k, flagZF.getLsbD k = decide (k = 6) := fun k => getLsbD_flag (by decide) k
  have hclear : ∀ k, (eflags c.flags &&& ~~~flagZF).getLsbD k =
      if k = 6 then false else (eflags c.flags).getLsbD k := by
    intro k
    rw [BitVec.getLsbD_and, BitVec.getLsbD_not, hzf]
    by_cases hk : k = 6
    · simp [hk]
    · simpa [hk] using fun h => BitVec.lt_of_getLsbD h
  unfold cpuCmpxchg8b
  dsimp only
  by_cases heq : q = c.reg edx ++ c.reg eax
  · rw [if_pos heq, decide_eq_true heq]
    refine eflags_zero_flag (fun k => ?_) j
    rw [BitVec.getLsbD_or, hclear, hzf]
    by_cases hk : k = 6 <;> simp [hk]
  · rw [if_neg heq, decide_eq_false heq]
    exact eflags_zero_flag hclear j

/-- A decoded CMPXCHG8B: a quadword in memory. -/
structure IsQuadExchange (i : Insn) : Prop where
  op : i.op = .other .cmpxchg8b
  memory : i.operand0.kind = .mem

section Quad

variable (m : Mem) (i : Insn) (s : Ctx Host)

/-- The quadword at the destination. -/
def quadAt : BitVec 64 :=
  quadOf (gather s.mem.bytes (m.place 0) (effectiveAddress s.cpu i.operand0).toNat 8)

/-- EDX:EAX is compared, and ECX:EBX or the old quadword stored. -/
structure QuadCompared (t : Ctx Host) : Prop where
  memory : t.mem = Host.put m s.mem (effectiveAddress s.cpu i.operand0) (bytesOfQuad
    (if s.cpu.reg edx ++ s.cpu.reg eax = quadAt m i s then s.cpu.reg ecx ++ s.cpu.reg ebx
      else quadAt m i s))
  writtenBack : s.cpu.reg edx ++ s.cpu.reg eax ≠ quadAt m i s → t.mem.bytes = s.mem.bytes
  kept : s.cpu.reg edx ++ s.cpu.reg eax = quadAt m i s → t.cpu.reg = s.cpu.reg
  loaded : s.cpu.reg edx ++ s.cpu.reg eax ≠ quadAt m i s →
    t.cpu.reg edx ++ t.cpu.reg eax = quadAt m i s ∧
      ∀ r, r ≠ eax → r ≠ edx → t.cpu.reg r = s.cpu.reg r
  flags : ∀ j, (eflags t.cpu.flags).getLsbD j =
    if j = 6 then decide (s.cpu.reg edx ++ s.cpu.reg eax = quadAt m i s)
    else (eflags s.cpu.flags).getLsbD j
  df : t.cpu.df = s.cpu.df
  beside : Beside i s t

def Cmpxchg8bExact (other : OtherOp → Insn → Exec Host Unit) : Prop :=
  (Exchangeable m s i.operand0 8 →
    ∃ t, executeDecoded (guestMem m) (withCmpxchg8b m other) i s = .ok () t ∧
      QuadCompared m i s t ∧
      ∀ p, Run (m.place 0) (effectiveAddress s.cpu i.operand0).toNat 8 p →
        SameOutcome t (cpuCmpxchg8bAt p s)) ∧
  (¬ Exchangeable m s i.operand0 8 →
    Refused (executeDecoded (guestMem m) (withCmpxchg8b m other) i s) s)

variable {m i s}

theorem readBytes_quad (hm : m.WellFormed) {a : U32} {h : Host} : (readBytes m h a 8).join =
    if Placed (m.place memRead) a.toNat 8 then some (gather h.bytes (m.place 0) a.toNat 8)
    else none := by
  rw [Memory.readBytes_placed hm h (Memory.not_undefined_of_le (by decide) _), Option.join_some]
  change (if _ ∧ Placed (m.place memRead) a.toNat 8 then
    some (gather h.bytes (m.place memRead) a.toNat 8) else none) = _
  by_cases hp : Placed (m.place memRead) a.toNat 8
  · rw [if_pos ⟨by decide, hp⟩, if_pos hp, gather_place hp]
  · rw [if_neg fun h => hp h.2, if_neg hp]

theorem writeBytes_quad (hm : m.WellFormed) {a : U32} {h : Host} (q : BitVec 64) :
    (writeBytes m h a (bytesOfQuad q)).join =
      if Placed (m.place memWrite) a.toNat 8 then some (Host.put m h a (bytesOfQuad q))
      else none := by
  have hlen := length_bytesOfQuad q
  have hne : bytesOfQuad q ≠ [] := List.ne_nil_of_length_pos (by omega)
  rw [Memory.writeBytes_placed hm h (by omega)
    (Memory.not_undefined_of_le (by omega) _), Option.join_some, hlen]
  by_cases hp : Placed (m.place memWrite) a.toNat 8
  · rw [if_pos ⟨hne, hp⟩, if_pos hp]
  · rw [if_neg fun h => hp h.2, if_neg hp]

/-- Where CMPXCHG8B ends. -/
def quadState (m : Mem) (i : Insn) (s : Ctx Host) : Ctx Host :=
  { s with
    cpu := (cpuCmpxchg8b s.cpu (quadAt m i s)).1
    mem := Host.put m s.mem (effectiveAddress s.cpu i.operand0)
      (bytesOfQuad (cpuCmpxchg8b s.cpu (quadAt m i s)).2) }

theorem executeCmpxchg8b_ok (hm : m.WellFormed) (hi : IsQuadExchange i)
    (h : Exchangeable m s i.operand0 8) :
    executeCmpxchg8b m i s = .ok () (quadState m i s) := by
  obtain ⟨hread, hwrite⟩ := h hi.memory
  unfold executeCmpxchg8b
  dsimp only
  rw [readBytes_quad hm, if_pos hread]
  dsimp only
  rw [writeBytes_quad hm, if_pos hwrite]
  rfl

/-- The registers and flags that the exchange may touch are put back. -/
theorem executeCmpxchg8b_refused (hm : m.WellFormed) (h : ¬ Exchangeable m s i.operand0 8) :
    ∃ t, executeCmpxchg8b m i s = .error (.fault .memoryFault 0) t ∧ t.cpu = s.cpu ∧
      t.mem = s.mem ∧ t.seg = s.seg := by
  obtain ⟨hk, hnot⟩ := Classical.not_imp.mp h
  unfold executeCmpxchg8b
  dsimp only
  rw [readBytes_quad hm]
  by_cases hread : Placed (m.place memRead) (effectiveAddress s.cpu i.operand0).toNat 8
  · rw [if_pos hread]
    dsimp only
    rw [writeBytes_quad hm, if_neg fun hwrite => hnot ⟨hread, hwrite⟩]
    refine ⟨_, rfl, ?_, rfl, rfl⟩
    have hback : ∀ reg : Reg → U32, (∀ r, r ≠ eax → r ≠ edx → reg r = s.cpu.reg r) →
        Function.update (Function.update reg eax (s.cpu.reg eax)) edx (s.cpu.reg edx) =
          s.cpu.reg := by
      intro reg hkept
      funext r
      by_cases hedx : r = edx
      · rw [hedx, Function.update_self]
      by_cases heax : r = eax
      · rw [Function.update_of_ne hedx, heax, Function.update_self]
      · rw [Function.update_of_ne hedx, Function.update_of_ne heax, hkept r heax hedx]
    unfold cpuCmpxchg8b
    dsimp only
    split_ifs
    · exact X86Cpu.ext (hback _ fun _ _ _ => rfl) rfl rfl rfl rfl rfl
    · refine X86Cpu.ext (hback _ fun r heax hedx => ?_) rfl rfl rfl rfl rfl
      exact (Function.update_of_ne hedx _ _).trans (Function.update_of_ne heax _ _)
  · rw [if_neg hread]
    exact ⟨_, rfl, rfl, rfl, rfl⟩

theorem cpuCmpxchg8b_equal {c : X86Cpu} {q : BitVec 64} (h : c.reg edx ++ c.reg eax = q) :
    cpuCmpxchg8b c q = ({ c with
      flags := flagsSetExplicit (eflags c.flags &&& ~~~flagZF ||| flagZF) },
      c.reg ecx ++ c.reg ebx) := if_pos h.symm

theorem cpuCmpxchg8b_differs {c : X86Cpu} {q : BitVec 64} (h : c.reg edx ++ c.reg eax ≠ q) :
    cpuCmpxchg8b c q = ({ c with
      reg := Function.update (Function.update c.reg eax (q.setWidth 32)) edx
        ((q >>> 32).setWidth 32)
      flags := flagsSetExplicit (eflags c.flags &&& ~~~flagZF) }, q) := if_neg h.symm

theorem quadCompared_state (h : Exchangeable m s i.operand0 8) (hi : IsQuadExchange i) :
    QuadCompared m i s (behindInsn i s (quadState m i s)) := by
  have hflags : ∀ j, (eflags (cpuCmpxchg8b s.cpu (quadAt m i s)).1.flags).getLsbD j =
      if j = 6 then decide (s.cpu.reg edx ++ s.cpu.reg eax = quadAt m i s)
      else (eflags s.cpu.flags).getLsbD j := by
    intro j
    rw [flagsOf_cmpxchg8b, decide_eq_decide.mpr eq_comm]
  by_cases heq : s.cpu.reg edx ++ s.cpu.reg eax = quadAt m i s
  · have hcpu := cpuCmpxchg8b_equal heq
    refine ⟨?_, fun hne => absurd heq hne, fun _ => ?_, fun hne => absurd heq hne, hflags, ?_,
      ⟨rfl, ?_, rfl⟩⟩
    · rw [if_pos heq]
      change Host.put _ _ _ (bytesOfQuad (cpuCmpxchg8b _ _).2) = _
      rw [hcpu]
    · change (cpuCmpxchg8b _ _).1.reg = _
      rw [hcpu]
    · change (cpuCmpxchg8b _ _).1.df = _
      rw [hcpu]
    · change (cpuCmpxchg8b _ _).1.fsBase = _ ∧ (cpuCmpxchg8b _ _).1.gsBase = _
      rw [hcpu]
      exact ⟨rfl, rfl⟩
  · have hcpu := cpuCmpxchg8b_differs heq
    have hreg : (behindInsn i s (quadState m i s)).cpu.reg =
        Function.update (Function.update s.cpu.reg eax ((quadAt m i s).setWidth 32)) edx
          ((quadAt m i s >>> 32).setWidth 32) := by
      change (cpuCmpxchg8b _ _).1.reg = _
      rw [hcpu]
    have hmem : (behindInsn i s (quadState m i s)).mem =
        Host.put m s.mem (effectiveAddress s.cpu i.operand0) (bytesOfQuad (quadAt m i s)) := by
      change Host.put _ _ _ (bytesOfQuad (cpuCmpxchg8b _ _).2) = _
      rw [hcpu]
    refine ⟨?_, fun _ => ?_, fun h => absurd h heq, fun _ => ⟨?_, fun r heax hedx => ?_⟩, hflags,
      ?_, ⟨rfl, ?_, rfl⟩⟩
    · rw [if_neg heq]
      exact hmem
    · have hlen : (gather s.mem.bytes (m.place 0)
          (effectiveAddress s.cpu i.operand0).toNat 8).length = 8 := length_gather
      rw [hmem, quadAt, bytesOfQuad_quadOf hlen, ← gather_place (h hi.memory).2]
      exact scatter_gather _ _ _ _
    · rw [hreg, Function.update_self, Function.update_of_ne (by decide), Function.update_self]
      exact append_halves _
    · rw [hreg, Function.update_of_ne hedx, Function.update_of_ne heax]
    · change (cpuCmpxchg8b _ _).1.df = _
      rw [hcpu]
    · change (cpuCmpxchg8b _ _).1.fsBase = _ ∧ (cpuCmpxchg8b _ _).1.gsBase = _
      rw [hcpu]
      exact ⟨rfl, rfl⟩

theorem cpuCmpxchg8bAt_same (h : Exchangeable m s i.operand0 8) (hi : IsQuadExchange i) {p : Nat}
    (hrun : Run (m.place 0) (effectiveAddress s.cpu i.operand0).toNat 8 p) :
    SameOutcome (behindInsn i s (quadState m i s)) (cpuCmpxchg8bAt p s) := by
  have hquad : quadOf (Bytes.load s.mem.bytes p 8) = quadAt m i s := by
    rw [quadAt, gather_run hrun]
  have hwrite := run_access hrun (h hi.memory).2
  rw [← length_bytesOfQuad (cpuCmpxchg8b s.cpu (quadAt m i s)).2] at hwrite
  unfold cpuCmpxchg8bAt
  rw [hquad]
  exact ⟨rfl, (scatter_run hwrite).symm⟩

theorem cmpxchg8bExact (hm : m.WellFormed) (other : OtherOp → Insn → Exec Host Unit)
    (hi : IsQuadExchange i) : Cmpxchg8bExact m i s other := by
  have hexecute : ∀ s₀, execute (guestMem m) (withCmpxchg8b m other) i s₀ =
      executeCmpxchg8b m i s₀ := by
    intro s₀
    unfold execute
    rw [hi.op]
    change withCmpxchg8b m other .cmpxchg8b i s₀ = _
    unfold withCmpxchg8b
    rw [Function.update_self]
  set s₀ : Ctx Host := { s with nextEip := s.cpu.eip + i.length } with hs₀
  constructor
  · intro h
    have hexec : execute (guestMem m) (withCmpxchg8b m other) i s₀ = .ok () (quadState m i s₀) :=
      (hexecute s₀).trans (executeCmpxchg8b_ok hm hi h)
    refine ⟨behindInsn i s (quadState m i s), executeDecoded_ok _ _ hexec,
      quadCompared_state h hi, fun p hrun => cpuCmpxchg8bAt_same h hi hrun⟩
  · intro h
    obtain ⟨t, hrun, hcpu, hmem, hseg⟩ := @executeCmpxchg8b_refused m i s₀ hm h
    exact ⟨0, t, executeDecoded_error _ _ ((hexecute s₀).trans hrun), hcpu, hmem, hseg⟩

end Quad

/-! ## The exchanges -/

/-- A destination register is not the source register in `cpu.c`, whose callers see to it. -/
theorem exchange_exact {m : Mem} (hm : m.WellFormed) (other : OtherOp → Insn → Exec Host Unit)
    (i : Insn) (s : Ctx Host) :
    (∀ w, i.op = .xadd → IsExchange i w → XaddExact m i w s other) ∧
    (∀ w, i.op = .cmpxchg → IsExchange i w → CmpxchgExact m i w s other) ∧
    (IsQuadExchange i → Cmpxchg8bExact m i s other) :=
  ⟨fun _ hop hi => xaddExact hm other hop hi, fun _ hop hi => cmpxchgExact hm other hop hi,
    fun hi => cmpxchg8bExact hm other hi⟩

/-- LOCK XADD [EAX], EAX. -/
def xaddAtEax : Insn where
  length := 4
  op := .xadd
  operands := 2
  operand0 := ⟨.ds, .mem, 4, eax, some eax, none, 1, 0, 0, false, false, false⟩
  operand1 := ⟨.ds, .reg, 4, eax, none, none, 1, 0, 0, false, false, false⟩
  operand2 := ⟨.ds, .none, 0, eax, none, none, 1, 0, 0, false, false, false⟩
  addressWidth := 32

/-- XADD EAX, EAX. -/
def xaddEaxEax : Insn where
  length := 3
  op := .xadd
  operands := 2
  operand0 := ⟨.ds, .reg, 4, eax, none, none, 1, 0, 0, false, false, false⟩
  operand1 := ⟨.ds, .reg, 4, eax, none, none, 1, 0, 0, false, false, false⟩
  operand2 := ⟨.ds, .none, 0, eax, none, none, 1, 0, 0, false, false, false⟩
  addressWidth := 32

/-- A CPU whose registers name places on a page, and the page, whose bytes are their places
and one. -/
def filled : Ctx Host where
  cpu := { reg := fun r => BitVec.ofNat 32 (0x100 * (r.val + 1)), df := false,
           flags := ⟨0, 0, 0, .none, .dword, 0⟩, eip := 0x800, fsBase := 0, gsBase := 0 }
  seg := fun _ => 0
  mem := ⟨fun a => BitVec.ofNat 8 (a + 1), false, []⟩
  nextEip := 0

/-- The source, which is also the base, takes the dword of the page, and the page the sum. -/
theorem xadd_at_eax : ∃ t, executeDecoded (guestMem ⟨0, 0, 0x1000, none, none⟩)
    (fun _ _ => unsupported) xaddAtEax filled = .ok () t ∧
      Xadded ⟨0, 0, 0x1000, none, none⟩ xaddAtEax .dword filled t ∧
      t.cpu.reg eax = 0x04030201 ∧
      valueOf (gather t.mem.bytes some 0x100 4) = 0x04030301 ∧
      ∃ u, cpuXadd (.host 0x100) eax .dword filled = some u ∧ SameOutcome t u := by
  have hexact := (exchange_exact (Memory.wellFormed_window (m := ⟨0, 0, 0x1000, none, none⟩) rfl)
    (fun _ _ => unsupported) xaddAtEax filled).1 .dword rfl ⟨⟨.inr rfl, rfl⟩, rfl, rfl⟩
  obtain ⟨t, hrun, hdone, hsame⟩ := hexact.1 fun _ => by decide
  refine ⟨t, hrun, hdone, ?_, ?_, hsame (.host 0x100) ⟨rfl, by unfold Run; decide⟩ (by decide)⟩
  · rw [hdone.registers]
    rfl
  · rw [hdone.memory]
    decide

/-- Where the destination is the source register the interpreter leaves the sum in it, and the
function of `cpu.c`, which writes the source last, the old value. -/
theorem xadd_same_register : ∃ t u,
    executeDecoded (guestMem ⟨0, 0, 0x1000, none, none⟩) (fun _ _ => unsupported) xaddEaxEax
      filled = .ok () t ∧
    PointsAt ⟨0, 0, 0x1000, none, none⟩ filled xaddEaxEax.operand0 4 (.reg eax) ∧
    Exchangeable ⟨0, 0, 0x1000, none, none⟩ filled xaddEaxEax.operand0 4 ∧
    cpuXadd (.reg eax) xaddEaxEax.operand1.reg .dword filled = some u ∧
    t.cpu.reg eax = 0x200 ∧ u.cpu.reg eax = 0x100 ∧ ¬ SameOutcome t u := by
  have hwell : Mem.WellFormed ⟨0, 0, 0x1000, none, none⟩ := Memory.wellFormed_window rfl
  have hfree : Exchangeable ⟨0, 0, 0x1000, none, none⟩ filled xaddEaxEax.operand0 4 :=
    fun h => absurd h (by decide)
  obtain ⟨t, hrun, hdone, -⟩ := (xaddExact (w := .dword) (s := filled) hwell
    (fun _ _ => unsupported) (show xaddEaxEax.op = .xadd from rfl) ⟨⟨.inl rfl, rfl⟩, rfl, rfl⟩).1
    hfree
  have hsum : t.cpu.reg eax = 0x200 := by
    rw [hdone.registers]
    rfl
  refine ⟨t, _, hrun, ⟨rfl, rfl⟩, hfree, rfl, hsum, rfl, fun hsame => ?_⟩
  have hregs := congrFun (congrArg CpuState.reg hsame.1) eax
  rw [hsum] at hregs
  exact absurd hregs (by decide)

end X86Port.Cpu
