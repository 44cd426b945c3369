import X86Port.Lib.Tally
import X86Port.Wasm.Compact

/-!
# WebAssembly block storage

`jit_storage_wasm.c`: the block records, the records of the modules they are published in, and
the arena behind both. A block is published in a module of its own; every so many of them are
then moved into one module.

* `Storage.translate`, `Storage.evict`, `Storage.invalidate`, `Storage.reset`: the operations.
* `publishBlock_isLive`: a block is published in a slot that was free, or nowhere.
-/

namespace X86Port.Wasm

open Jit

/-- `X86P_WASM_COMPACT_BATCH`. -/
def compactBatch : Nat := 32

/-- The record of a live block; a record that is not live is zeroed. -/
structure StoredBlock (cap : Nat) where
  guest : U32
  guestLen : U32
  token : Fin cap
  entry : Nat
  chainFirst : Option Nat
  chainExits : Nat
  leafSite : Option Nat
deriving DecidableEq

/-- Whether a record meets the addresses from `lo` to `hi`. -/
def StoredBlock.meets {cap : Nat} (b : StoredBlock cap) (lo hi : U32) : Bool :=
  decide (b.guest < hi) && decide (b.guest.toNat + b.guestLen.toNat > lo.toNat)

/-- A record as a compaction is given it. -/
def StoredBlock.compacting {cap : Nat} (b : StoredBlock cap) : CompactBlock cap where
  guest := b.guest
  guestLen := b.guestLen
  token := b.token
  chainExits := b.chainExits
  entry := b.entry
  chainFirst := b.chainFirst
  leafSite := b.leafSite

/-- What a published module costs and how many blocks still need it. -/
structure StoredModule where
  bytes : Nat
  blocks : Nat
deriving DecidableEq

/-- The storage. `underflowed` is not in the source: it remembers whether a counter was ever
lowered by more than it held. -/
structure Storage (cap : Nat) (σ M : Type) where
  arena : Arena cap σ M
  blocks : Fin cap → Option (StoredBlock cap)
  modules : Fin cap → StoredModule
  batch : Bool
  pending : List (Fin cap)
  cannotCompact : Bool
  compactions : Nat
  directExits : Nat
  compactionRefusals : Nat
  compactionWhy : Option CompactRefusal
  byteBudget : Nat
  used : Nat
  nextVictim : Fin cap
  liveBlocks : Nat
  underflowed : Bool

/-- A difference of two `size_t`, which has 32 bits on this host. -/
def sizeSub (a b : Nat) : Nat := (a + (2 ^ 32 - b % 2 ^ 32)) % 2 ^ 32

/-! ## Publishing one block -/

section Publish

variable {cap : Nat} {σ M : Type}

/-- `x86p_jit_wasm_publish`: a module whose body cannot be entered is released again. -/
def publishBlock (a : Arena cap σ M) (block : JitBlock) (bytes : M) (len : Nat) :
    Option (JitBlock × Fin cap × Nat) × Arena cap σ M :=
  match a.publish bytes len with
  | (.error _, a) => (none, a)
  | (.ok token, a) =>
    match a.entry token firstBody with
    | (none, a) => (none, a.release token)
    | (some entry, a) => (some ({ block with entry := some entry }, token, entry), a)

theorem publishBlock_isLive (a : Arena cap σ M) (block : JitBlock) (bytes : M) (len : Nat) :
    match publishBlock a block bytes len with
    | (none, a') => a'.isLive = a.isLive
    | (some (block', token, entry), a') => a.isLive token = false ∧
        a'.isLive = Function.update a.isLive token true ∧
        block' = { block with entry := some entry } := by
  unfold publishBlock
  cases hpublish : a.publish bytes len with
  | mk result published =>
    cases result with
    | error why => exact Arena.isLive_congr (Arena.publish_error hpublish)
    | ok token =>
      obtain ⟨hfree, hlive⟩ := Arena.publish_ok hpublish
      have hslots := Arena.isLive_congr (Arena.entry_slots published token firstBody)
      dsimp only
      generalize published.entry token firstBody = out at hslots
      obtain ⟨callable, after⟩ := out
      cases callable with
      | none =>
        dsimp only at hslots ⊢
        rw [Arena.release_isLive, hslots, hlive, Function.update_idem, ← hfree,
          Function.update_eq_self]
      | some entry => exact ⟨hfree, hslots.trans hlive, rfl⟩

end Publish

namespace Storage

variable {cap : Nat} {σ I E S M : Type}

/-- `x86p_jit_storage_create`: a cap of no blocks is refused. -/
def create (cap : Nat) (capacity : Nat) (host : Option (WasmHost σ M)) (user : σ) :
    Option (Storage cap σ M) :=
  if h : 0 < cap then
    some {
      arena := Arena.init cap host user
      blocks := fun _ => none
      modules := fun _ => ⟨0, 0⟩
      batch := false
      pending := []
      cannotCompact := false
      compactions := 0
      directExits := 0
      compactionRefusals := 0
      compactionWhy := none
      byteBudget := capacity
      used := 0
      nextVictim := ⟨0, h⟩
      liveBlocks := 0
      underflowed := false }
  else none

def reset (s : Storage cap σ M) : Storage cap σ M :=
  { s with
    arena := s.arena.releaseAll
    blocks := fun _ => none
    modules := fun _ => ⟨0, 0⟩
    pending := []
    used := 0
    nextVictim := ⟨0, s.nextVictim.pos⟩
    liveBlocks := 0 }

def room (s : Storage cap σ M) : StorageRoom :=
  if s.used > s.byteBudget ∨ s.byteBudget - s.used < minModuleBytes then .outOfBytes
  else if s.liveBlocks ≥ cap then .outOfSlots
  else if !s.arena.hasRoom then .atEngineLimit
  else .room

/-! ## Block and module bookkeeping -/

def takeBlockSlot (s : Storage cap σ M) : Option (Fin cap) :=
  (List.finRange cap).find? fun i => (s.blocks i).isNone

def addUsed (s : Storage cap σ M) (bytes : Nat) : Storage cap σ M :=
  { s with used := s.used + bytes }

def subUsed (s : Storage cap σ M) (bytes : Nat) : Storage cap σ M :=
  { s with used := s.used - bytes, underflowed := s.underflowed || decide (s.used < bytes) }

def setModule (s : Storage cap σ M) (token : Fin cap) (m : StoredModule) : Storage cap σ M :=
  { s with modules := Function.update s.modules token m }

def setBlock (s : Storage cap σ M) (slot : Fin cap) (b : Option (StoredBlock cap)) :
    Storage cap σ M :=
  { s with blocks := Function.update s.blocks slot b }

def holdModule (s : Storage cap σ M) (token : Fin cap) (bytes : Nat) : Storage cap σ M :=
  if (s.modules token).blocks = 0 then (s.addUsed bytes).setModule token ⟨bytes, 1⟩
  else s.setModule token ⟨(s.modules token).bytes, (s.modules token).blocks + 1⟩

/-- One block's claim on its module dropped, and the module released with the last claim. -/
def dropModule (s : Storage cap σ M) (token : Fin cap) : Storage cap σ M :=
  let m := s.modules token
  if m.blocks = 0 then s
  else if m.blocks - 1 > 0 then s.setModule token ⟨m.bytes, m.blocks - 1⟩
  else
    ({ s with arena := s.arena.release token }.subUsed m.bytes).setModule token ⟨0, 0⟩

/-- The pending slot replaced by the last one. -/
def forgetPending (s : Storage cap σ M) (slot : Fin cap) : Storage cap σ M :=
  match s.pending.idxOf? slot with
  | none => s
  | some i => { s with pending := Lib.swapOut s.pending i slot }

def dropBlock (s : Storage cap σ M) (slot : Fin cap) : Storage cap σ M :=
  match s.blocks slot with
  | none => s
  | some b =>
    let s := ((s.forgetPending slot).dropModule b.token).setBlock slot none
    { s with
      liveBlocks := s.liveBlocks - 1
      underflowed := s.underflowed || decide (s.liveBlocks = 0) }

/-! ## Sharing a module between blocks -/

/-- The module a moved block came from was released by the compaction. -/
def rebook (token : Fin cap) (s : Storage cap σ M) (slot : Fin cap) : Storage cap σ M :=
  match s.blocks slot with
  | none => s
  | some b =>
    let was := s.modules b.token
    let s := if was.blocks = 1 then (s.subUsed was.bytes).setModule b.token ⟨0, 0⟩ else s
    s.setBlock slot (some { b with token := token })

/-- The books after a compaction. -/
def rebookAll (s : Storage cap σ M) (r : CompactResult cap) : Storage cap σ M :=
  let s := (s.pending.take r.moved).foldl (rebook r.token) s
  let s := (s.setModule r.token ⟨r.bytes, r.moved⟩).addUsed r.bytes
  { s with
    compactions := s.compactions + 1
    directExits := s.directExits + r.directExits
    pending := [] }

/-- The blocks published since the last batch rebuilt as one module; `alloc` is whether the
batch buffer can be had. -/
def shareAModule (F : Families I E S M) (s : Storage cap σ M) (fetch : Fetch) (env : TranslateEnv)
    (alloc : Bool) : Storage cap σ M :=
  if s.cannotCompact || s.pending.isEmpty then s
  else if !s.batch && !alloc then { s with cannotCompact := true }
  else
    let s := { s with batch := true }
    let blocks := s.pending.filterMap fun i => (s.blocks i).map StoredBlock.compacting
    match compact F s.arena fetch (compactBatch * maxModuleBytes) env blocks with
    | (.error why, a) =>
      { s with
        arena := a
        compactionRefusals := s.compactionRefusals + 1
        compactionWhy := some why
        cannotCompact := s.cannotCompact || !a.canAdopt
        pending := [] }
    | (.ok r, a) => { s with arena := a }.rebookAll r

/-! ## Eviction, invalidation, translation -/

/-- The module to empty next, round robin, over so many records. -/
def moduleToEmpty : Nat → Storage cap σ M → Option (Fin cap) × Storage cap σ M
  | 0, s => (none, s)
  | scans + 1, s =>
    let token := s.nextVictim
    let s := { s with nextVictim := ⟨(token.val + 1) % cap, Nat.mod_lt _ token.pos⟩ }
    if (s.modules token).blocks > 0 then (some token, s) else moduleToEmpty scans s

/-- What an eviction does in turn: the callback told of a record, and a record dropped, with
the module when it was the last one. -/
inductive EvictEvent (cap : Nat) where
  | told (slot : Fin cap) (lo hi : U32)
  | dropped (slot : Fin cap) (block : StoredBlock cap)
  | released (token : Fin cap)
deriving DecidableEq

/-- What happens to a record of the module that is emptied. A range that ends at 2^32 has no
32-bit end, and the callback is not told of it. -/
def evictBlock (s : Storage cap σ M) (drop : Bool) (slot : Fin cap) (b : StoredBlock cap) :
    List (EvictEvent cap) × Storage cap σ M :=
  let last := b.guest.toNat + b.guestLen.toNat
  let told := if drop ∧ last ≤ uint32Max.toNat then
    [.told slot b.guest (BitVec.ofNat 32 last)] else []
  let s' := s.dropBlock slot
  let released := if (s'.modules b.token).blocks = 0 then [.released b.token] else []
  (told ++ .dropped slot b :: released, s')

/-- The records of the module dropped, to the first that finds it empty. -/
def evictLoop (drop : Bool) (token : Fin cap) :
    List (Fin cap) → Storage cap σ M → List (EvictEvent cap) × Storage cap σ M
  | [], s => ([], s)
  | slot :: slots, s =>
    if (s.modules token).blocks = 0 then ([], s)
    else
      match s.blocks slot with
      | none => evictLoop drop token slots s
      | some b =>
        if b.token ≠ token then evictLoop drop token slots s
        else
          let (events, s) := s.evictBlock drop slot b
          let (more, s) := evictLoop drop token slots s
          (events ++ more, s)

def EvictEvent.isDropped : EvictEvent cap → Bool
  | .dropped _ _ => true
  | _ => false

/-- The number of records dropped, with what happened in turn. -/
def evict (s : Storage cap σ M) (drop : Bool) :
    Nat × List (EvictEvent cap) × Storage cap σ M :=
  match s.moduleToEmpty cap with
  | (none, s) => (0, [], s)
  | (some token, s) =>
    let (events, s) := evictLoop drop token (List.finRange cap) s
    (events.countP EvictEvent.isDropped, events, s)

def invalidate (s : Storage cap σ M) (lo hi : U32) : Storage cap σ M :=
  if lo ≥ hi then s
  else
    (List.finRange cap).foldl (fun s slot =>
      match s.blocks slot with
      | none => s
      | some b => if b.meets lo hi then s.dropBlock slot else s) s

/-- A published block made a record, waiting for a batch to fill. -/
def record (s : Storage cap σ M) (slot : Fin cap) (block : JitBlock) (token : Fin cap)
    (entry : Nat) : Storage cap σ M :=
  let s := s.setBlock slot (some
    ⟨block.guestEip, block.guestLen, token, entry, block.chainFirstSlot, block.chainExits,
      block.leafSite⟩)
  let s := { s with liveBlocks := s.liveBlocks + 1 }.holdModule token block.hostBytes
  if s.pending.length < compactBatch then { s with pending := s.pending ++ [slot] } else s

def translate (F : Families I E S M) (s : Storage cap σ M) (fetch : Fetch) (eip : U32)
    (env : TranslateEnv) (alloc : Bool) : Except JitStatus JitBlock × Storage cap σ M :=
  let room := min (sizeSub s.byteBudget s.used) maxModuleBytes
  match s.takeBlockSlot with
  | none => (.error .outOfSpace, s)
  | some slot =>
    match translateBounded F fetch eip room env.boundary env.chain ⟨env.leaf, false, none⟩ with
    | .error status => (.error status, s)
    | .ok (block, bytes) =>
      match publishBlock s.arena block bytes block.hostBytes with
      | (none, a) => (.error .outOfSpace, { s with arena := a })
      | (some (block, token, entry), a) =>
        let s := { s with arena := a }.record slot block token entry
        let s := if s.pending.length = compactBatch then s.shareAModule F fetch env alloc else s
        (.ok block, s)

end Storage

end X86Port.Wasm
