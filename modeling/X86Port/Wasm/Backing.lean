import X86Port.Memory.WriteAtomic
import X86Port.Wasm.Operands

/-!
# Guest memory of either mode

What translated code needs of the memory behind the guest: that a guard, a load and a store are
the accesses of the interpreter. A contiguous mapping is read in place, a sparse one through the
functions of `jit_wasm_memory.c`.

* `Backing`: the CPU in linear memory, with such a guest memory around it.
* `World.backing`, `SparseWorld.backing`: the two modes.
-/

namespace X86Port.Wasm

open Lib StackCode Lib.Places
open Memory (Mem Host memRead memWrite bytesOf accessible)
open Cpu (Width X86Cpu Ctx guestMem Granted loadAt storeAt)

/-- The CPU, and linear memory around it for the bytes of the host. -/
structure Around (st : WasmState) where
  m : Mem
  home : CpuHome st.lay
  rest : (Nat → U8) → LinearMem
  backed : ∀ bytes, Backed home.addr.toNat (rest bytes)

namespace Around

variable {st : WasmState} (A : Around st)

def homeWith (bytes : Nat → U8) : CpuHome st.lay :=
  { A.home with around := A.rest bytes, backed := A.backed bytes }

def mem (c : X86Cpu) (bytes : Nat → U8) : LinearMem := (A.homeWith bytes).mem c

end Around

/-- The rights that a guard asks for. -/
def accessOf (writes : Bool) : U32 := memRead ||| if writes then memWrite else 0

/-- The interpreter reads at an address, and writes there if the guard asked for it. -/
def Accesses (m : Mem) (h : Host) (addr : U32) (w : Width) (writes : Bool) : Prop :=
  (∃ v, (guestMem m).read h addr w.bytes = some v) ∧
    (writes = true → ∃ v h', (guestMem m).write h addr w.bytes v = some h')

/-- The accesses of translated code are those of the interpreter. -/
structure Backing (st : WasmState) (imports : Imports) extends Around st where
  linear : U32 → U32
  run_guardAddr : ∀ {c : X86Cpu} {h : Host} {l : WasmLocal → U32} {w : Width} {writes : Bool}
    {stack : List U32} {code : Code} (eip : U32), l .cpu = home.addr →
    Accesses m h (l .addr) w writes →
    run (wasmEnv imports) (st.guardAddr eip w.bytes (accessOf writes) ++ code)
        ⟨toAround.mem c h.bytes, l, stack⟩ =
      run (wasmEnv imports) code
        ⟨toAround.mem c h.bytes, Function.update l .addr (linear (l .addr)), stack⟩
  run_loadMem : ∀ {c : X86Cpu} {h : Host} {l : WasmLocal → U32} {addr : U32} {w : Width}
    {stack : List U32} {code : Code} {v : U32}, l .addr = linear addr →
    (guestMem m).read h addr w.bytes = some v →
    run (wasmEnv imports) (st.loadMem w ++ code) ⟨toAround.mem c h.bytes, l, stack⟩ =
      run (wasmEnv imports) code ⟨toAround.mem c h.bytes, l, v :: stack⟩
  run_storeMem : ∀ {c : X86Cpu} {h h' : Host} {l : WasmLocal → U32} {addr : U32} {w : Width}
    {stack : List U32} {code : Code} (value : WasmLocal), l .addr = linear addr →
    (guestMem m).write h addr w.bytes (l value) = some h' →
    run (wasmEnv imports) (st.storeMem w value ++ code) ⟨toAround.mem c h.bytes, l, stack⟩ =
      run (wasmEnv imports) code ⟨toAround.mem c h'.bytes, l, stack⟩

namespace Backing

variable {st : WasmState} {imports : Imports} (B : Backing st imports)

/-- Linear memory at a state of the interpreter. -/
def at_ (s : Ctx Host) (eip : U32) : LinearMem := B.mem { s.cpu with eip := eip } s.mem.bytes

/-- The code falls through from one state of the interpreter to another. -/
def Reaches (code : Code) (t u : Ctx Host) : Prop :=
  ∀ (e : U32) (l : WasmLocal → U32), l .cpu = B.home.addr → ∃ l', l' .cpu = B.home.addr ∧
    ∀ rest, run (wasmEnv imports) (code ++ rest) ⟨B.at_ t e, l, []⟩ =
      run (wasmEnv imports) rest ⟨B.at_ u e, l', []⟩

end Backing

/-! ## A contiguous mapping -/

namespace World

variable {st : WasmState} (W : World st)

def aroundCpu : Around st := ⟨W.m, W.home, W.around, W.backed⟩

theorem granted_of_read {h : Host} {addr v : U32} {w : Width}
    (hread : (guestMem W.m).read h addr w.bytes = some v) :
    Granted W.m memRead addr w ∧ v = loadAt W.m h addr w := by
  rw [Cpu.guestMem_read W.contiguous] at hread
  split_ifs at hread with hgranted
  exact ⟨hgranted, (Option.some.inj hread).symm⟩

theorem granted_of_write {h h' : Host} {addr v : U32} {w : Width}
    (hwrite : (guestMem W.m).write h addr w.bytes v = some h') :
    Granted W.m memWrite addr w ∧ h' = storeAt W.m h addr w v := by
  rw [Cpu.guestMem_write W.contiguous] at hwrite
  split_ifs at hwrite with hgranted
  exact ⟨hgranted, (Option.some.inj hwrite).symm⟩

theorem granted_of_accesses {h : Host} {addr : U32} {w : Width} {writes : Bool}
    (haccess : Accesses W.m h addr w writes) : Granted W.m (accessOf writes) addr w := by
  obtain ⟨⟨v, hread⟩, hwrite⟩ := haccess
  have hgranted := (W.granted_of_read hread).1
  unfold accessOf
  cases writes with
  | false =>
    rw [if_neg Bool.false_ne_true, show memRead ||| 0 = memRead from rfl]
    exact hgranted
  | true =>
    obtain ⟨v', h', hstore⟩ := hwrite rfl
    rw [if_pos rfl]
    exact (Cpu.granted_or _ _ _ _ _).mpr ⟨hgranted, (W.granted_of_write hstore).1⟩

/-- A contiguous mapping, whatever the imports. -/
def backing (imports : Imports) : Backing st imports where
  toAround := W.aroundCpu
  linear := W.linear
  run_guardAddr := fun eip hl haccess =>
    W.run_guardAddr_granted hl rfl (W.granted_of_accesses haccess) eip
  run_loadMem := by
    intro c h l addr w stack code v haddr hread
    obtain ⟨hgranted, rfl⟩ := W.granted_of_read hread
    exact W.run_loadMem haddr hgranted
  run_storeMem := by
    intro c h h' l addr w stack code value haddr hwrite
    obtain ⟨hgranted, rfl⟩ := W.granted_of_write hwrite
    exact W.run_storeMem haddr hgranted value

end World

/-! ## A sparse mapping -/

/-- Linear memory as the host of the memory functions. -/
def hostIn (M : LinearMem) : Host := ⟨fun x => (M x).getD 0, false, []⟩

def callMemOk (m : Mem) (addr w access : U32) (M : LinearMem) : Option (Option U32 × LinearMem) :=
  (accessible m addr w access).map fun ok => (some (truth ok), M)

/-- A refused read is fatal. -/
def callMemLoad (m : Mem) (addr w : U32) (M : LinearMem) : Option (Option U32 × LinearMem) :=
  ((guestMem m).read (hostIn M) addr w.toNat).map fun v => (some v, M)

def callMemStore (m : Mem) (addr w v : U32) (M : LinearMem) : Option (Option U32 × LinearMem) :=
  ((guestMem m).write (hostIn M) addr w.toNat v).map fun h =>
    (none, fun x => (M x).map fun _ => h.bytes x)

/-- `jit_wasm_memory.c`, for the memory at an address. -/
def withMemory (m : Mem) (memAt : U32) (others : Imports) : Imports := fun f args M =>
  match f, args with
  | .memOk, [ctx, addr, w, access] =>
    if ctx = memAt then callMemOk m addr w access M else none
  | .memLoad, [ctx, addr, w] => if ctx = memAt then callMemLoad m addr w M else none
  | .memStore, [ctx, addr, w, v] => if ctx = memAt then callMemStore m addr w v M else none
  | f, args => others f args M

/-- Where a block that was translated against a sparse mapping runs. All of linear memory is the
host's, and no range of the table covers the CPU. -/
structure SparseWorld (st : WasmState) where
  m : Mem
  home : CpuHome st.lay
  memAt : U32
  permsAt : U32
  sparse : m.sparse.isSome
  wellFormed : m.WellFormed
  present : memAt ≠ 0
  plan : st.plan = Wasm.planFromMem m memAt permsAt
  apart : ∀ a x, m.place 0 a = some x →
    x < home.addr.toNat ∨ home.addr.toNat + st.lay.gsBase + 4 ≤ x

/-- A cell of a write depends on what it held only where it is not written. -/
theorem scatter_congr {place : Nat → Option Nat} {h h' : Nat → U8} {x : Nat} (hx : h x = h' x) :
    ∀ (bytes : List U8) (a : Nat), scatter place h a bytes x = scatter place h' a bytes x := by
  intro bytes
  induction bytes generalizing h h' with
  | nil => exact fun _ => hx
  | cons b bytes ih =>
    intro a
    refine ih ?_ (a + 1)
    by_cases heq : x = cell place a
    · rw [heq, Function.update_self, Function.update_self]
    · rw [Function.update_of_ne heq, Function.update_of_ne heq, hx]

namespace SparseWorld

variable {st : WasmState} (W : SparseWorld st)

def aroundCpu : Around st := ⟨W.m, W.home, fun bytes x => some (bytes x), fun _ => nofun⟩

variable {c : X86Cpu} {bytes : Nat → U8}

theorem mem_placed {a x : Nat} (hx : W.m.place 0 a = some x) :
    W.aroundCpu.mem c bytes x = some (bytes x) :=
  image_outside (W.apart a x hx)

theorem mem_backed (x : Nat) : ∃ b, W.aroundCpu.mem c bytes x = some b := by
  change ∃ b, image st.lay W.home.addr.toNat c (fun x => some (bytes x)) x = some b
  unfold image
  cases if W.home.addr.toNat ≤ x then cpuByte st.lay c (x - W.home.addr.toNat) else none with
  | none => exact ⟨_, rfl⟩
  | some b => exact ⟨b, rfl⟩

include W in
theorem memoryContext_eq : st.plan.memoryContext = W.memAt := by
  rw [W.plan]
  exact if_pos W.sparse

theorem read_hostIn (h : Host) (addr : U32) (w : Width) :
    (guestMem W.m).read (hostIn (W.aroundCpu.mem c h.bytes)) addr w.bytes =
      (guestMem W.m).read h addr w.bytes := by
  change (Width.ofBytes w.bytes).bind _ = (Width.ofBytes w.bytes).bind _
  rw [Cpu.ofBytes_bytes, Option.bind_some, Option.bind_some,
    Memory.read_congr W.wellFormed w fun i _ x hx => ?_]
  change (W.aroundCpu.mem c h.bytes x).getD 0 = _
  rw [W.mem_placed hx, Option.getD_some]

/-- What a write leaves in linear memory is the write on the host's own bytes. -/
theorem scatter_hostIn {addr : U32} {input : List U8}
    (hp : Placed (W.m.place memWrite) addr.toNat input.length) :
    (fun x => (W.aroundCpu.mem c bytes x).map fun _ => scatter (W.m.place memWrite)
      (hostIn (W.aroundCpu.mem c bytes)).bytes addr.toNat input x) =
      W.aroundCpu.mem c (scatter (W.m.place memWrite) bytes addr.toNat input) := by
  funext x
  obtain ⟨b, hb⟩ := @mem_backed st W c bytes x
  have hhost : (hostIn (W.aroundCpu.mem c bytes)).bytes x = b := by
    change (W.aroundCpu.mem c bytes x).getD 0 = b
    rw [hb, Option.getD_some]
  rw [hb, Option.map_some]
  change image st.lay W.home.addr.toNat c (fun x => some (bytes x)) x = some b at hb
  change _ = image st.lay W.home.addr.toNat c
    (fun x => some (scatter (W.m.place memWrite) bytes addr.toNat input x)) x
  unfold image at hb ⊢
  cases hcpu : if W.home.addr.toNat ≤ x then cpuByte st.lay c (x - W.home.addr.toNat) else none with
  | none =>
    rw [hcpu] at hb
    obtain rfl : bytes x = b := Option.some.inj hb
    exact congrArg some (scatter_congr hhost input _)
  | some d =>
    rw [hcpu] at hb
    obtain rfl : d = b := Option.some.inj hb
    have hin : W.home.addr.toNat ≤ x ∧ x < W.home.addr.toNat + st.lay.gsBase + 4 := by
      split_ifs at hcpu with hle
      refine ⟨hle, not_le.mp fun hge => ?_⟩
      rw [cpuByte_beyond (by omega)] at hcpu
      cases hcpu
    have hframe : scatter (W.m.place memWrite) (hostIn (W.aroundCpu.mem c bytes)).bytes addr.toNat
        input x = d := by
      rw [scatter_frame, hhost]
      intro i hi heq
      obtain ⟨y, hy⟩ := Option.ne_none_iff_exists'.mp (hp i hi)
      have hapart := W.apart _ y (Memory.place_zero hy)
      rw [cell, hy, Option.getD_some] at heq
      omega
    rw [hframe]
    rfl

theorem write_hostIn {h h' : Host} {addr v : U32} {w : Width}
    (hwrite : (guestMem W.m).write h addr w.bytes v = some h') :
    callMemStore W.m addr (BitVec.ofNat 32 w.bytes) v (W.aroundCpu.mem c h.bytes) =
      some (none, W.aroundCpu.mem c h'.bytes) := by
  have hw : (BitVec.ofNat 32 w.bytes).toNat = w.bytes := by cases w <;> rfl
  have hrun : ∀ k : Host, (guestMem W.m).write k addr w.bytes v =
      if Placed (W.m.place memWrite) addr.toNat w.bytes
        then some (Host.put W.m k addr (bytesOf w.bytes v)) else none := by
    intro k
    change (Width.ofBytes w.bytes).bind _ = _
    rw [Cpu.ofBytes_bytes, Option.bind_some, Memory.write_placed W.wellFormed]
    rfl
  rw [hrun] at hwrite
  split_ifs at hwrite with hp
  obtain rfl := Option.some.inj hwrite
  unfold callMemStore
  rw [hw, hrun, if_pos hp, Option.map_some]
  rw [← Memory.length_bytesOf w.bytes v] at hp
  exact congrArg (fun M => some (none, M)) (W.scatter_hostIn hp)

/-! ## Its three accesses -/

theorem placed_of_accesses {h : Host} {addr : U32} {w : Width} {writes : Bool}
    (haccess : Accesses W.m h addr w writes) :
    Placed (W.m.place (accessOf writes)) addr.toNat w.bytes := by
  obtain ⟨⟨v, hread⟩, hwrite⟩ := haccess
  have hreads : Placed (W.m.place memRead) addr.toNat w.bytes := by
    change (Width.ofBytes w.bytes).bind _ = _ at hread
    rw [Cpu.ofBytes_bytes, Option.bind_some, Memory.read_placed W.wellFormed] at hread
    by_contra hp
    rw [if_neg hp] at hread
    cases hread
  cases writes with
  | false => exact hreads
  | true =>
    obtain ⟨v', h', hstore⟩ := hwrite rfl
    have hwrites : Placed (W.m.place memWrite) addr.toNat w.bytes := by
      change (Width.ofBytes w.bytes).bind _ = _ at hstore
      rw [Cpu.ofBytes_bytes, Option.bind_some, Memory.write_placed W.wellFormed] at hstore
      by_contra hp
      rw [if_neg hp] at hstore
      cases hstore
    obtain ⟨s, hs⟩ := Option.isSome_iff_exists.mp W.sparse
    intro i hi
    have hr := hreads i hi
    have hw := hwrites i hi
    unfold Mem.place at hr hw ⊢
    rw [hs] at hr hw ⊢
    dsimp only at hr hw ⊢
    cases hat : RangeTable.at? s.mappings (addr.toNat + i) with
    | none =>
      rw [hat] at hr
      exact absurd rfl hr
    | some mapping =>
      rw [hat, Option.bind_some] at hr hw
      rw [Option.bind_some]
      have hread : mapping.access &&& memRead = memRead := by
        by_contra hne
        exact hr (if_neg hne)
      have hwrite : mapping.access &&& memWrite = memWrite := by
        by_contra hne
        exact hw (if_neg hne)
      rw [if_pos]
      · nofun
      · exact (Cpu.and_or_eq_right_iff _ _ _).mpr ⟨hread, hwrite⟩

theorem accessible_of_accesses {h : Host} {addr : U32} {w : Width} {writes : Bool}
    (haccess : Accesses W.m h addr w writes) :
    accessible W.m addr (BitVec.ofNat 32 w.bytes) (accessOf writes) = some true := by
  have hw : (BitVec.ofNat 32 w.bytes).toNat = w.bytes := by cases w <;> rfl
  have hmask : Memory.AccessMask (accessOf writes) := by cases writes <;> decide
  have hne : BitVec.ofNat 32 w.bytes ≠ 0 := by cases w <;> decide
  have hle := (Memory.bytes_ne_zero w).2
  rw [Memory.accessible_placed W.wellFormed hmask (Memory.not_undefined_of_le (by omega) _), hw,
    decide_eq_true ⟨hne, W.placed_of_accesses haccess⟩]

variable (others : Imports)

/-- The imports of a body over this memory. -/
def imports : Imports := withHelpers (withMemory W.m W.memAt others)

/-- A sparse mapping, with `jit_wasm_memory.c` among the imports. -/
def backing : Backing st (W.imports others) where
  toAround := W.aroundCpu
  linear := id
  run_guardAddr := by
    intro c h l w writes stack code eip hl haccess
    have hcall := @run_call _ _ _ _ (wasmEnv (W.imports others)) (W.aroundCpu.mem c h.bytes) l stack
      (.op .eqz :: .ite (st.exitImm eip .memoryFault) [] :: code) .memOk
      [accessOf writes, BitVec.ofNat 32 w.bytes, l .addr, W.memAt] (some (truth true))
      (W.aroundCpu.mem c h.bytes) rfl (by
        change (if W.memAt = W.memAt then callMemOk W.m (l .addr) (BitVec.ofNat 32 w.bytes)
          (accessOf writes) _ else none) = _
        rw [if_pos rfl, callMemOk, W.accessible_of_accesses haccess]
        rfl)
    unfold WasmState.guardAddr
    rw [W.memoryContext_eq, if_pos W.present]
    unfold WasmState.callMemOk
    rw [W.memoryContext_eq]
    have hstay : Function.update l .addr (id (l .addr)) = l := Function.update_eq_self _ _
    have hnot : Op.eqz.apply (truth true :: stack) = some (truth false :: stack) := rfl
    rw [hstay]
    refine hcall.trans ?_
    rw [Option.toList_some, List.singleton_append, run_op _ _ _ _ _ hnot, run_ite_truth,
      if_neg Bool.false_ne_true, run_nil]
    rfl
  run_loadMem := by
    intro c h l addr w stack code v haddr hread
    have hw : (BitVec.ofNat 32 w.bytes).toNat = w.bytes := by cases w <;> rfl
    have hcall := @run_call _ _ _ _ (wasmEnv (W.imports others)) (W.aroundCpu.mem c h.bytes) l stack
      code .memLoad [BitVec.ofNat 32 w.bytes, l .addr, W.memAt] (some v)
      (W.aroundCpu.mem c h.bytes) rfl (by
        change (if W.memAt = W.memAt then callMemLoad W.m (l .addr) (BitVec.ofNat 32 w.bytes) _
          else none) = _
        rw [if_pos rfl, callMemLoad, hw, W.read_hostIn, haddr, id]
        exact congrArg _ hread)
    unfold WasmState.loadMem
    rw [W.memoryContext_eq, if_pos W.present]
    exact hcall
  run_storeMem := by
    intro c h h' l addr w stack code value haddr hwrite
    have hcall := @run_call _ _ _ _ (wasmEnv (W.imports others)) (W.aroundCpu.mem c h.bytes) l stack
      code .memStore [l value, BitVec.ofNat 32 w.bytes, l .addr, W.memAt] none
      (W.aroundCpu.mem c h'.bytes) rfl (by
        change (if W.memAt = W.memAt then callMemStore W.m (l .addr) (BitVec.ofNat 32 w.bytes)
          (l value) _ else none) = _
        rw [if_pos rfl, haddr]
        exact W.write_hostIn hwrite)
    unfold WasmState.storeMem
    rw [W.memoryContext_eq, if_pos W.present]
    exact hcall

end SparseWorld

end X86Port.Wasm
