import X86Port.Cpu.GuestMemory
import X86Port.Wasm.Carry
import X86Port.Wasm.Guard

/-!
# The guest in linear memory

A CPU and a contiguous guest memory in one linear memory, and what the pieces of a body do there.

* `World.mem`: the linear memory of a CPU and of the host bytes behind the guest.
* `run_guard_granted`, `run_loadMem`, `run_storeMem`: an access that the interpreter is granted.
-/

namespace X86Port.Wasm

open Lib StackCode
open Memory (Mem Host PermTable memRead memWrite valueOf bytesOf)
open Cpu (Reg Width FlagKind Flags Operand CpuState X86Cpu Ctx Granted loadAt storeAt regRead
  regWrite effectiveAddress)
open Jit (JitExit)

/-- The permission table lies in linear memory, apart from the CPU and from the guest. -/
structure TableApart (lay : CpuLayout) (home : CpuHome lay) (m : Mem) (at_ : U32)
    (t : PermTable m.size) : Prop where
  present : at_ ≠ 0
  entries : TableAt home.around at_ t
  apart_cpu : at_.toNat + t.entries.length ≤ home.addr.toNat ∨
    home.addr.toNat + lay.gsBase + 4 ≤ at_.toNat
  apart_guest : at_.toNat + t.entries.length ≤ m.host ∨ m.host + m.size.toNat ≤ at_.toNat

/-- Where a block that was translated against a contiguous mapping runs: the CPU, the guest's
bytes and the permission table are objects of linear memory, apart from each other. -/
structure World (s : WasmState) where
  m : Mem
  home : CpuHome s.lay
  memAt : U32
  permsAt : U32
  contiguous : m.sparse = none
  plan : s.plan = planFromMem m memAt permsAt
  fits : m.host + m.size.toNat ≤ 2 ^ 32
  apart : home.addr.toNat + s.lay.gsBase + 4 ≤ m.host ∨ m.host + m.size.toNat ≤ home.addr.toNat
  table : ∀ t ∈ m.perms, TableApart s.lay home m permsAt t

namespace World

variable {s : WasmState} (W : World s)

/-- The memory around the CPU, with the guest's bytes in their place. -/
def around (bytes : Nat → U8) : LinearMem := fun x =>
  if W.m.host ≤ x ∧ x < W.m.host + W.m.size.toNat then some (bytes x) else W.home.around x

theorem around_outside {bytes : Nat → U8} {x : Nat}
    (h : ¬ (W.m.host ≤ x ∧ x < W.m.host + W.m.size.toNat)) :
    W.around bytes x = W.home.around x := if_neg h

theorem backed (bytes : Nat → U8) : Backed W.home.addr.toNat (W.around bytes) := by
  have hdf := s.lay.flags_lt_df
  have hfs := s.lay.df_lt_fsBase
  have hgs := s.lay.fsBase_lt_gsBase
  unfold Backed
  rw [W.around_outside]
  · exact W.home.backed
  · have := W.apart
    unfold wOffset
    omega

def homeWith (bytes : Nat → U8) : CpuHome s.lay :=
  { W.home with around := W.around bytes, backed := W.backed bytes }

/-- Linear memory with this CPU and these bytes of the host. -/
def mem (c : X86Cpu) (bytes : Nat → U8) : LinearMem := (W.homeWith bytes).mem c

end World

/-! ## Outside the CPU -/

theorem cpuByte_beyond {lay : CpuLayout} {c : X86Cpu} {o : Nat} (h : lay.gsBase + 4 ≤ o) :
    cpuByte lay c o = none := by
  have hdf := lay.flags_lt_df
  have hfs := lay.df_lt_fsBase
  have hgs := lay.fsBase_lt_gsBase
  unfold cpuByte
  rw [if_neg (by omega), if_neg (by omega), if_neg (by omega), if_neg (by omega),
    if_neg (by omega), if_neg (by omega), if_neg (by omega), if_neg (by omega),
    if_neg (by omega), if_neg (by omega), if_neg (by omega)]

theorem image_outside {lay : CpuLayout} {cpu : Nat} {c : X86Cpu} {rest : LinearMem} {x : Nat}
    (h : x < cpu ∨ cpu + lay.gsBase + 4 ≤ x) : image lay cpu c rest x = rest x := by
  refine image_of_none fun o ho => ?_
  subst ho
  exact cpuByte_beyond (by omega)

namespace World

variable {s : WasmState} (W : World s) {c : X86Cpu} {bytes : Nat → U8}

theorem mem_guest {x : Nat} (h : W.m.host ≤ x ∧ x < W.m.host + W.m.size.toNat) :
    W.mem c bytes x = some (bytes x) := by
  have := W.apart
  change image s.lay W.home.addr.toNat c (W.around bytes) x = _
  rw [image_outside (by omega)]
  exact if_pos h

theorem maps : Maps s W.m (W.mem c bytes) := by
  refine maps_planFromMem W.contiguous W.plan fun t ht => ?_
  have htable := W.table t ht
  refine ⟨htable.present, fun p hp => ?_⟩
  have hcpu := htable.apart_cpu
  have hguest := htable.apart_guest
  change image s.lay W.home.addr.toNat c (W.around bytes) _ = _
  rw [image_outside (by omega), W.around_outside (by omega)]
  exact htable.entries p hp

/-- Where a guest address lies in linear memory. -/
def linear (addr : U32) : U32 := addr - W.m.lo + s.plan.base

theorem base_eq : s.plan.base = BitVec.ofNat 32 W.m.host := by
  rw [W.plan]
  rfl

/-! ## Granted accesses -/

variable {addr access : U32} {w : Width}

theorem inside_of_granted (h : Granted W.m access addr w) :
    Inside W.m addr w.bytes ∧ W.m.lo.toNat ≤ addr.toNat := by
  have hpos : 0 < w.bytes := by cases w <;> decide
  obtain ⟨hlo, -⟩ := h 0 hpos
  obtain ⟨-, hhi, -⟩ := h (w.bytes - 1) (by omega)
  have hoff : (addr - W.m.lo).toNat = addr.toNat - W.m.lo.toNat := by bv_omega
  exact ⟨⟨by omega, by omega⟩, by omega⟩

theorem offset_eq (hlo : W.m.lo.toNat ≤ addr.toNat) :
    (addr - W.m.lo).toNat = addr.toNat - W.m.lo.toNat := by bv_omega

theorem endsCarry_of_granted (h : Granted W.m access addr w) :
    EndsCarry W.m addr w.bytes access := by
  have hpos : 0 < w.bytes := by cases w <;> decide
  have hoff := W.offset_eq (W.inside_of_granted h).2
  intro t ht
  have hcarries : ∀ i < w.bytes, carries t access ((addr - W.m.lo).toNat + i) := by
    intro i hi
    have hlo := (W.inside_of_granted h).2
    have hgrants := (h i hi).2.2.2 t ht
    rw [show addr.toNat + i - W.m.lo.toNat = (addr - W.m.lo).toNat + i by omega] at hgrants
    unfold PermTable.grants Memory.pageRefuses at hgrants
    unfold carries
    simp only [Bool.not_or, Bool.and_eq_true, Bool.not_eq_true', decide_eq_false_iff_not,
      not_not] at hgrants
    exact hgrants.2
  exact ⟨hcarries 0 hpos, hcarries _ (by omega)⟩

/-- The linear address of a granted access does not wrap. -/
theorem linear_toNat (h : Granted W.m access addr w) :
    (W.linear addr).toNat = W.m.hostOf addr.toNat := by
  obtain ⟨⟨hsize, hin⟩, hlo⟩ := W.inside_of_granted h
  have hpos : 0 < w.bytes := by cases w <;> decide
  have hoff := W.offset_eq hlo
  have hfits := W.fits
  have hhost : (BitVec.ofNat 32 W.m.host).toNat = W.m.host := by
    rw [BitVec.toNat_ofNat, Nat.mod_eq_of_lt (by omega)]
  unfold linear Mem.hostOf
  rw [W.base_eq, BitVec.toNat_add, hhost, hoff, Nat.mod_eq_of_lt (by omega), Nat.add_comm]

theorem guest_of_granted (h : Granted W.m access addr w) {i : Nat} (hi : i < w.bytes) :
    W.m.host ≤ W.m.hostOf addr.toNat + i ∧
      W.m.hostOf addr.toNat + i < W.m.host + W.m.size.toNat := by
  obtain ⟨hlo, hhi, -⟩ := h i hi
  have := (W.inside_of_granted h).2
  unfold Mem.hostOf
  omega

theorem load_granted (h : Granted W.m access addr w) :
    (W.mem c bytes).load w.bytes (W.m.hostOf addr.toNat) =
      some (valueOf (Bytes.load bytes (W.m.hostOf addr.toNat) w.bytes)) := by
  unfold LinearMem.load
  rw [bytes_eq (f := bytes) fun i hi => W.mem_guest (W.guest_of_granted h hi)]
  rfl

end World

theorem getD_bytesOf (v : U32) (d : U8) {n k : Nat} (h : k < n) :
    (bytesOf n v).getD k d = byteOf v k := by
  induction n generalizing v k with
  | zero => omega
  | succ n ih =>
    cases k with
    | zero => exact (byteOf_zero v).symm
    | succ k =>
      rw [bytesOf, List.getD_cons_succ, ih _ (by omega), byteOf_shift]

namespace World

variable {s : WasmState} (W : World s) {c : X86Cpu} {bytes : Nat → U8} {addr access : U32}
  {w : Width}

theorem store_granted (h : Granted W.m access addr w) (v : U32) :
    (W.mem c bytes).store w.bytes (W.m.hostOf addr.toNat) v =
      some (W.mem c (Bytes.store bytes (W.m.hostOf addr.toNat) (bytesOf w.bytes v))) := by
  have hguest := fun i hi => W.guest_of_granted h (i := i) hi
  have hlen := Memory.length_bytesOf w.bytes v
  rw [store_eq _ fun i hi => ?_]
  · refine congrArg some (funext fun x => ?_)
    by_cases hx : W.m.hostOf addr.toNat ≤ x ∧ x < W.m.hostOf addr.toNat + w.bytes
    · have hin := hguest (x - W.m.hostOf addr.toNat) (by omega)
      rw [if_pos hx, W.mem_guest (by omega), Bytes.store_apply, hlen, if_pos hx,
        getD_bytesOf _ _ (by omega)]
    · rw [if_neg hx]
      have hsame : Bytes.store bytes (W.m.hostOf addr.toNat) (bytesOf w.bytes v) x = bytes x := by
        rw [Bytes.store_apply, hlen, if_neg hx]
      change image _ _ _ (W.around bytes) x = image _ _ _ (W.around _) x
      unfold image around
      rw [hsame]
      rfl
  · rw [W.mem_guest (hguest i hi)]
    exact Option.some_ne_none _

/-! ## Pieces of a body -/

variable {imports : Imports} {h : Host} {l : WasmLocal → U32} {st : List U32} {rest : Code}

theorem eip_store (hl : l .cpu = W.home.addr) (v : U32) :
    (W.mem c bytes).store 4 ((l .cpu).toNat + eipOffset) v =
      some (W.mem { c with eip := v } bytes) := by
  rw [hl]
  exact store_eip v

theorem run_loadReg (hl : l .cpu = W.home.addr) (r : Reg) (w : Width) :
    run (wasmEnv imports) (WasmState.loadReg r w ++ rest) ⟨W.mem c bytes, l, st⟩ =
      run (wasmEnv imports) rest ⟨W.mem c bytes, l, regRead c.toCpuState r w :: st⟩ :=
  Wasm.run_loadReg hl r w

theorem run_storeReg (hl : l .cpu = W.home.addr) (r : Reg) (w : Width) (value : WasmLocal) :
    run (wasmEnv imports) (WasmState.storeReg r w value ++ rest) ⟨W.mem c bytes, l, st⟩ =
      run (wasmEnv imports) rest
        ⟨W.mem { c with toCpuState := regWrite c.toCpuState r w (l value) } bytes, l, st⟩ := by
  have hstore : (W.mem c bytes).store w.bytes ((l .cpu).toNat + regOffsetW r w) (l value) =
      some (W.mem { c with toCpuState := regWrite c.toCpuState r w (l value) } bytes) := by
    rw [hl]
    exact store_reg r w (l value)
  exact run_store (wasmEnv imports) _ l st rest hstore

theorem mem_storeFlags {kind : FlagKind} (hkind : kind ≠ .none) (a b r : U32) (w : Width) :
    Wasm.storeFlags (W.mem c bytes) W.home.addr.toNat kind a b r w =
      some (W.mem { c with flags := ⟨a, b, r, kind, w, c.flags.carryIn⟩ } bytes) :=
  store_flags (W.backed bytes) hkind a b r w

/-- The tuple from its three locals; the carry stays as it was recorded. -/
theorem run_storeFlags (hl : l .cpu = W.home.addr) {kind : FlagKind} (hkind : kind ≠ .none)
    (w : Width) :
    run (wasmEnv imports) (WasmState.storeFlags kind w ++ rest) ⟨W.mem c bytes, l, st⟩ =
      run (wasmEnv imports) rest ⟨W.mem { c with
        flags := ⟨l .a, l .b, l .r, kind, w, c.flags.carryIn⟩ } bytes, l, st⟩ := by
  have hflags : Wasm.storeFlags (image s.lay W.home.addr.toNat c (W.around bytes)) _ _ _ _ _ _ = _ :=
    W.mem_storeFlags hkind (l .a) (l .b) (l .r) w
  unfold Wasm.storeFlags at hflags
  rw [store_a, Option.bind_some, store_b, Option.bind_some, store_r, Option.bind_some] at hflags
  obtain ⟨m, hk, hw⟩ := Option.bind_eq_some_iff.mp hflags
  unfold WasmState.storeFlags
  simp only [WasmState.cpu, List.cons_append, List.nil_append, run_localGet]
  have hstore : ∀ {M M' : LinearMem} {n offset : Nat} {v : U32} {rest : Code},
      M.store n (W.home.addr.toNat + offset) v = some M' →
      run (wasmEnv imports) (.store n offset :: rest) ⟨M, l, v :: l .cpu :: st⟩ =
        run (wasmEnv imports) rest ⟨M', l, st⟩ := by
    intro M M' n offset v rest heq
    refine run_store (wasmEnv imports) M l st rest ?_
    rw [hl]
    exact heq
  change run _ _ ⟨image s.lay W.home.addr.toNat c (W.around bytes), l, _⟩ = _
  rw [hstore (store_a _)]
  simp only [run_localGet]
  rw [hstore (store_b _)]
  simp only [run_localGet]
  rw [hstore (store_r _)]
  simp only [run_localGet, run_const]
  rw [hstore hk]
  simp only [run_localGet, run_const]
  rw [hstore hw]

theorem run_storeCarry (hl : l .cpu = W.home.addr) :
    run (wasmEnv imports) (WasmState.storeCarry ++ rest) ⟨W.mem c bytes, l, st⟩ =
      run (wasmEnv imports) rest ⟨W.mem { c with
        flags := { c.flags with carryIn := (l .carry).setWidth 8 } } bytes, l, st⟩ := by
  have hstore : (W.mem c bytes).store 1 ((l .cpu).toNat + carryInOffset) (l .carry) = some (W.mem
      { c with flags := { c.flags with carryIn := (l .carry).setWidth 8 } } bytes) := by
    rw [hl]
    exact store_carry (l .carry)
  exact run_store (wasmEnv imports) _ l st rest hstore

theorem run_storeDf (hl : l .cpu = W.home.addr) (v : Bool) :
    run (wasmEnv imports) (s.storeDf v ++ rest) ⟨W.mem c bytes, l, st⟩ =
      run (wasmEnv imports) rest ⟨W.mem { c with df := v } bytes, l, st⟩ := by
  have hstore : (W.mem c bytes).store 1 ((l .cpu).toNat + s.lay.df) (if v then 1 else 0) =
      some (W.mem { c with df := v } bytes) := by
    rw [hl]
    exact store_df v
  exact run_store (wasmEnv imports) _ l st rest hstore

/-! ## Accesses of a body -/

theorem run_guardAddr_granted (hl : l .cpu = W.home.addr) (haddr : l .addr = addr)
    (hgranted : Granted W.m access addr w) (eip : U32) :
    run (wasmEnv imports) (s.guardAddr eip w.bytes access ++ rest) ⟨W.mem c bytes, l, st⟩ =
      run (wasmEnv imports) rest
        ⟨W.mem c bytes, Function.update l .addr (W.linear addr), st⟩ := by
  rw [run_guardAddr W.maps (by cases w <;> decide) (by cases w <;> decide) haddr
    (W.eip_store hl eip), if_pos ⟨(W.inside_of_granted hgranted).1, W.endsCarry_of_granted hgranted⟩]
  rfl

theorem run_guardAddr_refused (hl : l .cpu = W.home.addr) (haddr : l .addr = addr)
    (hrefused : ¬ (Inside W.m addr w.bytes ∧ EndsCarry W.m addr w.bytes access)) (eip : U32) :
    run (wasmEnv imports) (s.guardAddr eip w.bytes access ++ rest) ⟨W.mem c bytes, l, st⟩ =
      .ret (exitCode .memoryFault) (W.mem { c with eip := eip } bytes) := by
  rw [run_guardAddr W.maps (by cases w <;> decide) (by cases w <;> decide) haddr
    (W.eip_store hl eip), if_neg hrefused]

theorem run_guard_granted (hl : l .cpu = W.home.addr) {o : Operand}
    (hgranted : Granted W.m access (addressOf c o) w) (eip : U32) :
    run (wasmEnv imports) (s.guard o eip w.bytes access ++ rest) ⟨W.mem c bytes, l, st⟩ =
      run (wasmEnv imports) rest
        ⟨W.mem c bytes, Function.update l .addr (W.linear (addressOf c o)), st⟩ := by
  have hcpu : Function.update l .addr (addressOf c o) .cpu = W.home.addr := by
    rw [Function.update_of_ne (by decide), hl]
  unfold WasmState.guard
  rw [List.append_assoc, List.cons_append]
  change run _ _ ⟨image s.lay W.home.addr.toNat c (W.around bytes), l, st⟩ = _
  rw [run_address hl, run_localSet]
  refine (W.run_guardAddr_granted hcpu (Function.update_self _ _ _) hgranted eip).trans ?_
  rw [Function.update_idem]

theorem run_guard_refused (hl : l .cpu = W.home.addr) {o : Operand}
    (hrefused : ¬ (Inside W.m (addressOf c o) w.bytes ∧
      EndsCarry W.m (addressOf c o) w.bytes access)) (eip : U32) :
    run (wasmEnv imports) (s.guard o eip w.bytes access ++ rest) ⟨W.mem c bytes, l, st⟩ =
      .ret (exitCode .memoryFault) (W.mem { c with eip := eip } bytes) := by
  have hcpu : Function.update l .addr (addressOf c o) .cpu = W.home.addr := by
    rw [Function.update_of_ne (by decide), hl]
  unfold WasmState.guard
  rw [List.append_assoc, List.cons_append]
  change run _ _ ⟨image s.lay W.home.addr.toNat c (W.around bytes), l, st⟩ = _
  rw [run_address hl, run_localSet]
  exact W.run_guardAddr_refused hcpu (Function.update_self _ _ _) hrefused eip

include W in
theorem direct : ¬ s.plan.memoryContext ≠ 0 := by
  rw [W.plan]
  unfold planFromMem
  simp [W.contiguous]

theorem run_loadMem (haddr : l .addr = W.linear addr) (hgranted : Granted W.m access addr w) :
    run (wasmEnv imports) (s.loadMem w ++ rest) ⟨W.mem c h.bytes, l, st⟩ =
      run (wasmEnv imports) rest ⟨W.mem c h.bytes, l, loadAt W.m h addr w :: st⟩ := by
  have hload : (W.mem c h.bytes).load w.bytes ((l .addr).toNat + 0) =
      some (loadAt W.m h addr w) := by
    rw [haddr, W.linear_toNat hgranted]
    exact W.load_granted hgranted
  unfold WasmState.loadMem
  rw [if_neg W.direct]
  exact run_load (wasmEnv imports) _ l st rest hload

theorem run_storeMem (haddr : l .addr = W.linear addr) (hgranted : Granted W.m access addr w)
    (value : WasmLocal) :
    run (wasmEnv imports) (s.storeMem w value ++ rest) ⟨W.mem c h.bytes, l, st⟩ =
      run (wasmEnv imports) rest
        ⟨W.mem c (storeAt W.m h addr w (l value)).bytes, l, st⟩ := by
  have hstore : (W.mem c h.bytes).store w.bytes ((l .addr).toNat + 0) (l value) =
      some (W.mem c (storeAt W.m h addr w (l value)).bytes) := by
    rw [haddr, W.linear_toNat hgranted, Nat.add_zero, W.store_granted hgranted]
    unfold storeAt Host.store
    rw [Memory.bytes_notify]
  unfold WasmState.storeMem
  rw [if_neg W.direct]
  exact run_store (wasmEnv imports) _ l st rest hstore

end World

end X86Port.Wasm
