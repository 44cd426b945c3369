import X86Port.Jit.Reach
import X86Port.Jit.Room
import X86Port.Wasm.Accounting
import X86Port.Wasm.FreeSlots

/-!
# The storage behind the engine

The WebAssembly block storage as the engine uses it, and the room a reset of it makes.

* `Settles`: no operation loses the order of the arena or changes the byte budget.
* `engineStorage`, `engineStorage_bounded`: the operations the engine calls.
* `making_room_ends`: in every reachable engine, making room ends and makes room.
-/

namespace X86Port.Wasm

open Jit

/-! ## The arena under a batch -/

section Compact

variable {cap : Nat} {σ I E S M : Type}

theorem moveBack_ordered (token : Fin cap) (moved : List (CompactBlock cap × BodyName)) :
    ∀ {a : Arena cap σ M}, a.Ordered → (moveBack a token moved).Ordered := by
  induction moved with
  | nil => exact id
  | cons head moved ih => exact fun h => ih (Arena.adopt_ordered h _ _ _ _ _)

theorem moveEntries_ordered (token : Fin cap) (blocks : List (CompactBlock cap)) :
    ∀ {a : Arena cap σ M} (i : Nat) (moved : List (CompactBlock cap × BodyName)), a.Ordered →
      (moveEntries a token i moved blocks).2.Ordered := by
  induction blocks with
  | nil => exact fun _ _ h => h
  | cons b blocks ih =>
    intro a i moved h
    unfold moveEntries
    cases bodyName i with
    | none => exact moveBack_ordered token moved h
    | some field =>
      have hadopt := Arena.adopt_ordered h token b.token field firstBody b.entry
      dsimp only
      generalize a.adopt token field b.token firstBody b.entry = out at hadopt
      obtain ⟨result, after⟩ := out
      cases result with
      | false => exact moveBack_ordered token moved hadopt
      | true => exact ih _ _ hadopt

theorem releaseOld_ordered (blocks : List (CompactBlock cap)) :
    ∀ {a : Arena cap σ M}, a.Ordered → (releaseOld a blocks).Ordered := by
  induction blocks with
  | nil => exact id
  | cons b blocks ih => exact fun h => ih (Arena.release_ordered h b.token)

theorem compact_ordered (F : Families I E S M) {a : Arena cap σ M} (h : a.Ordered)
    (fetch : Fetch) (bufferBytes : Nat) (env : TranslateEnv) (blocks : List (CompactBlock cap)) :
    (compact F a fetch bufferBytes env blocks).2.Ordered := by
  unfold compact
  split_ifs
  · exact h
  · exact h
  · exact h
  · cases translateBatch F fetch env.boundary bufferBytes (batchItems env blocks) with
    | error why => exact h
    | ok batch =>
      obtain ⟨bytes, lowered⟩ := batch
      dsimp only
      cases (blocks.zip lowered).find? fun p => !loweredTheSame p.1 p.2 with
      | some p => exact h
      | none =>
        have hpublish := (Arena.publish_ordered h bytes (F.size bytes)).1
        dsimp only
        generalize a.publish bytes (F.size bytes) = out at hpublish
        obtain ⟨result, published⟩ := out
        cases result with
        | error why => exact hpublish
        | ok token =>
          have hmoved := moveEntries_ordered token blocks 0 [] hpublish
          dsimp only
          generalize moveEntries published token 0 [] blocks = out at hmoved
          obtain ⟨result, moved⟩ := out
          cases result with
          | error why => exact Arena.release_ordered hmoved token
          | ok done => exact releaseOld_ordered blocks hmoved

theorem publishBlock_ordered {a : Arena cap σ M} (h : a.Ordered) (block : JitBlock) (bytes : M)
    (len : Nat) : (publishBlock a block bytes len).2.Ordered := by
  have hpublish := (Arena.publish_ordered h bytes len).1
  unfold publishBlock
  generalize a.publish bytes len = out at hpublish
  obtain ⟨result, published⟩ := out
  cases result with
  | error why => exact hpublish
  | ok token =>
    have hentry := Arena.entry_ordered hpublish token firstBody
    dsimp only
    generalize published.entry token firstBody = out at hentry
    obtain ⟨callable, after⟩ := out
    cases callable with
    | none => exact Arena.release_ordered hentry token
    | some entry => exact hentry

end Compact

namespace Storage

variable {cap : Nat} {σ I E S M : Type}

/-! ## What no operation loses -/

structure Settles (s s' : Storage cap σ M) : Prop where
  budget : s'.byteBudget = s.byteBudget
  ordered : s.arena.Ordered → s'.arena.Ordered

theorem Settles.refl (s : Storage cap σ M) : Settles s s := ⟨rfl, id⟩

theorem Settles.trans {s s' s'' : Storage cap σ M} (h : Settles s s') (h' : Settles s' s'') :
    Settles s s'' := ⟨h'.budget.trans h.budget, fun ha => h'.ordered (h.ordered ha)⟩

/-- A step over a list settles where each of its elements does. -/
theorem settles_foldl {α : Type} {f : Storage cap σ M → α → Storage cap σ M}
    (hf : ∀ s x, Settles s (f s x)) (xs : List α) : ∀ s, Settles s (xs.foldl f s) := by
  induction xs with
  | nil => exact Settles.refl
  | cons x xs ih => exact fun s => (hf s x).trans (ih _)

theorem dropModule_settles (s : Storage cap σ M) (token : Fin cap) :
    Settles s (s.dropModule token) := by
  unfold dropModule
  dsimp only
  split_ifs
  · exact Settles.refl s
  · exact ⟨rfl, id⟩
  · exact ⟨rfl, fun h => Arena.release_ordered h token⟩

theorem dropBlock_settles (s : Storage cap σ M) (slot : Fin cap) :
    Settles s (s.dropBlock slot) := by
  unfold dropBlock
  cases s.blocks slot with
  | none => exact Settles.refl s
  | some b =>
    have hforget : Settles s (s.forgetPending slot) := by
      unfold forgetPending
      cases s.pending.idxOf? slot <;> exact ⟨rfl, id⟩
    have hdrop := hforget.trans (dropModule_settles _ b.token)
    exact ⟨hdrop.budget, hdrop.ordered⟩

theorem rebook_settles (token : Fin cap) (s : Storage cap σ M) (slot : Fin cap) :
    Settles s (rebook token s slot) := by
  unfold rebook
  cases s.blocks slot with
  | none => exact Settles.refl s
  | some b =>
    dsimp only
    split_ifs <;> exact ⟨rfl, id⟩

theorem shareAModule_settles (F : Families I E S M) (s : Storage cap σ M) (fetch : Fetch)
    (env : TranslateEnv) (alloc : Bool) : Settles s (s.shareAModule F fetch env alloc) := by
  unfold shareAModule
  split_ifs
  · exact Settles.refl s
  · exact ⟨rfl, id⟩
  · dsimp only
    have hcompact : s.arena.Ordered → (compact F s.arena fetch (compactBatch * maxModuleBytes) env
        (s.pending.filterMap fun i => (s.blocks i).map StoredBlock.compacting)).2.Ordered :=
      fun h => compact_ordered F h _ _ _ _
    generalize compact F s.arena fetch (compactBatch * maxModuleBytes) env
      (s.pending.filterMap fun i => (s.blocks i).map StoredBlock.compacting) = out at hcompact
    obtain ⟨result, a⟩ := out
    cases result with
    | error why => exact ⟨rfl, hcompact⟩
    | ok r =>
      have hrebook := settles_foldl (rebook_settles r.token) (s.pending.take r.moved)
        { s with batch := true, arena := a }
      exact ⟨hrebook.budget, fun h => hrebook.ordered (hcompact h)⟩

theorem evictLoop_settles (drop : Bool) (token : Fin cap) (slots : List (Fin cap)) :
    ∀ s : Storage cap σ M, Settles s (evictLoop drop token slots s).2 := by
  induction slots with
  | nil => exact Settles.refl
  | cons slot slots ih =>
    intro s
    unfold evictLoop
    split_ifs
    · exact Settles.refl s
    · cases s.blocks slot with
      | none => exact ih s
      | some b =>
        dsimp only
        split_ifs
        · exact ih s
        · exact (dropBlock_settles s slot).trans (ih _)

theorem evict_settles (s : Storage cap σ M) (drop : Bool) : Settles s (s.evict drop).2.2 := by
  obtain ⟨next, hnext, -⟩ := moduleToEmpty_eq cap s
  have hs : Settles s (s.moduleToEmpty cap).2 := by
    rw [hnext]
    exact ⟨rfl, id⟩
  unfold evict
  generalize s.moduleToEmpty cap = out at hs
  obtain ⟨victim, s'⟩ := out
  cases victim with
  | none => exact hs
  | some token => exact hs.trans (evictLoop_settles drop token _ s')

theorem invalidate_settles (s : Storage cap σ M) (lo hi : U32) :
    Settles s (s.invalidate lo hi) := by
  unfold invalidate
  split_ifs
  · exact Settles.refl s
  · refine settles_foldl (fun s slot => ?_) _ s
    cases s.blocks slot with
    | none => exact Settles.refl s
    | some b =>
      dsimp only
      split_ifs
      · exact dropBlock_settles s slot
      · exact Settles.refl s

theorem reset_settles (s : Storage cap σ M) : Settles s s.reset :=
  ⟨rfl, Arena.releaseAll_ordered⟩

theorem record_settles (s : Storage cap σ M) (slot : Fin cap) (block : JitBlock)
    (token : Fin cap) (entry : Nat) : Settles s (s.record slot block token entry) := by
  unfold record holdModule
  dsimp only
  split_ifs <;> exact ⟨rfl, id⟩

theorem translate_settles (F : Families I E S M) (s : Storage cap σ M) (fetch : Fetch)
    (eip : U32) (env : TranslateEnv) (alloc : Bool) :
    Settles s (s.translate F fetch eip env alloc).2 := by
  unfold translate
  dsimp only
  cases s.takeBlockSlot with
  | none => exact Settles.refl s
  | some slot =>
    dsimp only
    generalize translateBounded F fetch eip (min (sizeSub s.byteBudget s.used) maxModuleBytes)
      env.boundary env.chain ⟨env.leaf, false, none⟩ = result
    cases result with
    | error status => exact Settles.refl s
    | ok lowered =>
      obtain ⟨block, bytes⟩ := lowered
      dsimp only
      have hpublish : s.arena.Ordered →
          (publishBlock s.arena block bytes block.hostBytes).2.Ordered :=
        fun h => publishBlock_ordered h _ _ _
      generalize publishBlock s.arena block bytes block.hostBytes = out at hpublish
      obtain ⟨published, a⟩ := out
      cases published with
      | none => exact ⟨rfl, hpublish⟩
      | some published =>
        obtain ⟨block', token, entry⟩ := published
        have hmade : Settles s { s with arena := a } := ⟨rfl, hpublish⟩
        have hrecord := hmade.trans (record_settles _ slot block' token entry)
        dsimp only
        split_ifs
        · exact hrecord.trans (shareAModule_settles F _ fetch env alloc)
        · exact hrecord

/-! ## Room -/

/-- The arena is in order, and a block fits where nothing is held. -/
structure Roomy (s : Storage cap σ M) : Prop where
  ordered : s.arena.Ordered
  fits : minModuleBytes ≤ s.byteBudget

theorem Settles.roomy {s s' : Storage cap σ M} (h : Settles s s') (hs : Roomy s) : Roomy s' :=
  ⟨h.ordered hs.ordered, h.budget ▸ hs.fits⟩

theorem create_roomy {capacity : Nat} {host : Option (WasmHost σ M)} {user : σ}
    {s : Storage cap σ M} (h : create cap capacity host user = some s)
    (hcapacity : minModuleBytes ≤ capacity) : Roomy s := by
  unfold create at h
  split_ifs at h
  cases h
  exact ⟨Arena.init_ordered cap host user, hcapacity⟩

/-- A reset clears the bytes, the records and the ceiling. -/
theorem reset_room {s : Storage cap σ M} (h : Roomy s) : s.reset.room = .room := by
  have hordered := Arena.releaseAll_ordered h.ordered
  have hidle : s.arena.releaseAll.live = 0 := by
    rw [hordered.live, Finset.card_eq_zero]
    unfold Arena.liveSlots
    rw [Finset.filter_eq_empty_iff]
    intro i _
    rw [Arena.releaseAll_isLive]
    exact Bool.false_ne_true
  have hroom := (hordered.room_of_idle hidle).2 s.nextVictim.pos
  have hfits := h.fits
  unfold room reset
  dsimp only
  rw [if_neg (by omega), if_neg (by have := s.nextVictim.pos; omega), hroom]
  rfl

end Storage

/-! ## The storage the engine calls -/

/-- What a translation reads: the guest bytes, the embedder's boundary and leaves, and whether the
batch buffer can be had. -/
structure WasmReads where
  fetch : Fetch
  boundary : U32 → Bool
  leaf : Bool
  alloc : Bool

/-- The range the callback was told of. -/
def Storage.EvictEvent.range? {cap : Nat} : Storage.EvictEvent cap → Option (U32 × U32)
  | .told _ lo hi => some (lo, hi)
  | _ => none

/-- A first lowering claims a slot for each exit it slots, and a leaf site for its CALL. -/
def engineStorage {I E S M : Type} (F : Families I E S M) (cap : Nat) (σ : Type) :
    BlockStorage (Storage cap σ M) WasmReads where
  room := Storage.room
  used := Storage.used
  evict := fun s =>
    let (dropped, events, s) := s.evict true
    (dropped, events.filterMap Storage.EvictEvent.range?, s)
  reset := Storage.reset
  invalidate := Storage.invalidate
  translate := fun s reads eip pool =>
    let env : TranslateEnv :=
      ⟨reads.boundary, pool.map fun p => ⟨p.1, p.2⟩, reads.leaf⟩
    let (result, s) := s.translate F reads.fetch eip env reads.alloc
    (match result with
      | .error status => ⟨.error status, 0, 0⟩
      | .ok block => ⟨.ok (block, block.entry.getD 0), block.chainExits,
          if block.leafSite.isSome then 1 else 0⟩, s)

section Engine

variable {cap : Nat} {σ I E S M : Type} (F : Families I E S M)

theorem engineStorage_bounded : (engineStorage F cap σ).Bounded Storage.Roomy where
  evict := fun s h => (Storage.evict_settles s true).roomy h
  reset := fun s h => s.reset_settles.roomy h
  invalidate := fun s lo hi h => (s.invalidate_settles lo hi).roomy h
  translate := fun s _ _ _ h => (s.translate_settles F _ _ _ _).roomy h
  room := fun _ h => Storage.reset_room h

variable {κ ω : Type} {m : Machine κ (Storage cap σ M) ω WasmReads}
  (hm : m.storage = engineStorage F cap σ)

include hm

theorem reachable_roomy {cache : κ} {storage : Storage cap σ M} {hostState : U32}
    {e : Engine κ (Storage cap σ M)} (hstart : Storage.Roomy storage)
    (h : Reachable m (Engine.create m cache storage cap hostState) e) :
    Storage.Roomy e.storage ∧ Engine.Slotted m e := by
  have hbounded : m.storage.Bounded Storage.Roomy := hm ▸ engineStorage_bounded F
  refine ⟨(Engine.keeps_inv hbounded).reachable (fun _ _ => ⟨rfl, rfl⟩) hstart h,
    Engine.keeps_slotted.reachable (fun _ _ => ⟨rfl, rfl⟩) ?_ h⟩
  intro c hc
  unfold Engine.create at hc
  dsimp only at hc
  split_ifs at hc
  cases hc
  exact Nat.le_mul_of_pos_left _ storage.nextVictim.pos

/-- In every state an engine over a WebAssembly storage reaches, the loop that makes room ends.
Where it succeeds there is room, and slots for a block; it fails only where its own block cache
counts entries behind a flush. -/
theorem making_room_ends {capacity : Nat} {host : Option (WasmHost σ M)} {user : σ}
    {storage : Storage cap σ M} (hstorage : Storage.create cap capacity host user = some storage)
    (hcapacity : minModuleBytes ≤ capacity) {cache : κ} {hostState : U32}
    {e : Engine κ (Storage cap σ M)}
    (h : Reachable m (Engine.create m cache storage cap hostState) e) :
    ∃ ok e', e.evictForRoom m = some (ok, e') ∧
      (ok = true → e'.storage.room = .room ∧
        ∀ c, e'.links = some c → c.claimed + m.config.slotsPerBlock ≤ c.capacity) ∧
      (ok = false → (∃ cache, e'.cache = m.cache.flush cache) ∧ m.cache.count e'.cache ≠ 0) := by
  have hbounded : m.storage.Bounded Storage.Roomy := hm ▸ engineStorage_bounded F
  obtain ⟨hroomy, hslotted⟩ := reachable_roomy F hm (Storage.create_roomy hstorage hcapacity) h
  obtain ⟨⟨ok, e'⟩, hmade⟩ :=
    Option.isSome_iff_exists.mp (Engine.evictForRoom_isSome hbounded hroomy)
  obtain ⟨htrue, hfalse⟩ := Engine.evictForRoom_ends hmade
  refine ⟨ok, e', hmade, fun hok => ⟨?_, fun c hc => ?_⟩,
    fun hok => ⟨(hfalse hok).flushed, (hfalse hok).counted⟩⟩
  · have hroom := htrue hok
    rw [hm] at hroom
    exact hroom
  · subst hok
    have hspent := Engine.evictForRoom_slots hslotted hmade
    unfold Engine.slotsSpent at hspent
    rw [hc] at hspent
    exact Nat.le_of_not_lt (of_decide_eq_false hspent)

end Engine

/-! ## A small engine -/

/-- A guest that has a `ret` at one address and nothing else. -/
def retReads (at_ : U32) : WasmReads :=
  ⟨fun pc => if pc = at_ then some 0xC3 else none, fun _ => false, false, true⟩

/-- A storage with two records, and bytes for one block. -/
def smallStorage : Storage 2 JsHost (List (List ShortOp)) :=
  (Storage.create 2 minModuleBytes (some (jsHost compileShort)) emptyHost).get rfl

def smallMachine : Machine CacheList (Storage 2 JsHost (List (List ShortOp))) Unit WasmReads where
  cache := listCache 2
  storage := engineStorage shortFamilies 2 JsHost
  world := {
    hostState := fun _ => 0
    reads := fun _ => retReads 0x1000
    runStop := none
    boundary := none
    intercept := none
    dispatch := none
    watch := fun w _ _ _ => w
    call := fun w _ _ eip => (⟨some .blockEnd, eip, ⟨0, 0, 0, 0⟩, 0, []⟩, w) }
  config := ⟨false, false, false, 0, 0, chainSlots, 0xFFFFFFFFFFFFFFFF⟩

def smallStart : Engine CacheList (Storage 2 JsHost (List (List ShortOp))) :=
  Engine.create smallMachine [] smallStorage 2 0

/-- The engine with the `ret` translated, about to enter it. -/
def smallPrepared : Option (Prepared CacheList (Storage 2 JsHost (List (List ShortOp))) Unit) :=
  smallMachine.prepare ⟨0, false, 1⟩ smallStart ⟨(), 0x1000, 0, 0, ⟨0, 0⟩⟩

/-- What the cache holds then, and the evictions and flushes that make room for another block. -/
def smallEvicted : Option (CacheList × Bool × U64 × U64) :=
  smallPrepared.bind fun p => (p.engine.evictForRoom smallMachine).map fun made =>
    (p.engine.cache, made.1, made.2.stats.evictionsOutOfBytes, made.2.stats.cacheFlushes)

example : smallMachine.config.slotsPerBlock = 4 := by decide +kernel

/-- With the `ret` translated the storage is out of bytes; one eviction, and no flush, makes
room. -/
theorem smallMachine_room : ∃ e, Reachable smallMachine smallStart e ∧
    e.cache = [(0x1000, ⟨1, 1, false⟩)] ∧
    ∃ e', e.evictForRoom smallMachine = some (true, e') ∧ e'.storage.room = .room ∧
      (∀ c, e'.links = some c → c.claimed + smallMachine.config.slotsPerBlock ≤ c.capacity) ∧
      e'.stats.evictionsOutOfBytes = 1 ∧ e'.stats.cacheFlushes = 0 := by
  have hevicted : smallEvicted = some ([(0x1000, ⟨1, 1, false⟩)], true, 1, 0) := by
    decide +kernel
  obtain ⟨p, hp, hparts⟩ := Option.bind_eq_some_iff.mp hevicted
  have hreached : Reachable smallMachine smallStart p.engine :=
    .prepare (fun h => (by cases h)) .start hp
  obtain ⟨ok, e', hmade, hroom, -⟩ := making_room_ends (m := smallMachine) shortFamilies rfl
    (show Storage.create 2 minModuleBytes (some (jsHost compileShort)) emptyHost =
      some smallStorage from rfl) (Nat.le_refl _) hreached
  rw [hmade] at hparts
  simp only [Option.map_some, Prod.mk.injEq, Option.some.injEq] at hparts
  obtain ⟨hcached, rfl, hevictions, hflushes⟩ := hparts
  exact ⟨p.engine, hreached, hcached, e', hmade, (hroom rfl).1, (hroom rfl).2, hevictions,
    hflushes⟩

end X86Port.Wasm
