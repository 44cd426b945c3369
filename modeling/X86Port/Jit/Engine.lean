import X86Port.Jit.Block
import X86Port.Jit.BlockCache
import X86Port.Jit.Chain

/-!
# The engine

`jit_engine.c`: the owner of a block cache, a block storage and a chain slot table, and the loop
that finds or makes a translation, enters it, and accounts for the call. The storage, the cache,
the translated code and the embedder are parameters of a `Machine`.

* `Engine.invalidate`, `Engine.invalidateAll`, `Engine.evictForRoom`, `Engine.translateAt`.
* `Machine.prepare`, `Machine.enter`: the two halves of an iteration, up to a call and from it.
* `Machine.run`: the loop.
-/

namespace X86Port.Jit

/-! ## What the engine is given -/

/-- What a storage answers a translation with, and the chain slots and leaf sites the translation
took. -/
structure Translated where
  result : Except JitStatus (JitBlock × Nat)
  claims : Nat
  leafClaims : Nat

/-- The operations of a block storage with states `τ`, over what a translation reads, `μ`. An
eviction answers with the records it dropped and the ranges it told of in turn; a translation is
given the chain slots claimed and there are, when the engine chains. -/
structure BlockStorage (τ μ : Type) where
  room : τ → StorageRoom
  used : τ → Nat
  evict : τ → Nat × List (U32 × U32) × τ
  reset : τ → τ
  invalidate : τ → U32 → U32 → τ
  translate : τ → μ → U32 → Option (Nat × Nat) → Translated × τ

/-- What an embedder may ask of the engine, also from inside a callback. -/
inductive EngineOp where
  | invalidate (lo hi : U32)
  | invalidateAll
deriving DecidableEq

/-- What a callback answered and did. -/
structure Asked where
  yes : Bool
  eip : U32
  ops : List EngineOp

/-- What a call into translated code did: its exit, where it left the guest, the run header, the
transfers it made, and what callbacks did during it. -/
structure Called where
  exit : Option JitExit
  eip : U32
  run : ChainRun
  transfers : Nat
  ops : List EngineOp

/-- The embedder and the translated code, with states `ω`. -/
structure World (ω μ : Type) where
  hostState : ω → U32
  reads : ω → μ
  runStop : Option (ω → U32)
  boundary : Option (ω → U32 → Bool)
  intercept : Option (ω → U32 → Asked × ω)
  dispatch : Option (ω → U32 → Asked × ω)
  watch : ω → U32 → U32 → Bool → ω
  call : ω → Nat → Option ChainRun → U32 → Called × ω

structure EngineConfig where
  cacheDisabled : Bool
  profile : Bool
  census : Bool
  watchAddr : U32
  chainEntry : Nat
  slotsPerBlock : Nat
  transferLimit : U64

structure Machine (κ τ ω μ : Type) where
  cache : BlockCache κ
  storage : BlockStorage τ μ
  world : World ω μ
  config : EngineConfig

/-! ## The engine's state -/

structure EngineStats where
  blocksEntered : U64 := 0
  blocksChained : U64 := 0
  blocksReentered : U64 := 0
  blocksTranslated : U64 := 0
  guestInsnsTranslated : U64 := 0
  blocksGuarded : U64 := 0
  chainExits : U64 := 0
  chainLinks : U64 := 0
  interceptCalls : U64 := 0
  translateRefusals : U64 := 0
  cacheFlushes : U64 := 0
  invalidations : U64 := 0
  invalidationBytes : U64 := 0
  invalidationBlocksDropped : U64 := 0
  evictions : U64 := 0
  evictionsOutOfBytes : U64 := 0
  evictionsOutOfSlots : U64 := 0
  evictionsAtEngineLimit : U64 := 0
  evictionBlocksDropped : U64 := 0
deriving DecidableEq

structure Engine (κ τ : Type) where
  cache : κ
  storage : τ
  links : Option (Chain Nat)
  leafSites : Nat
  stats : EngineStats
  hostState : U32
  watchLeft : U64
  lastEntry : U32

namespace Engine

variable {κ τ ω μ : Type} (m : Machine κ τ ω μ)

/-- `x86p_jit_engine_create` over an empty cache and a fresh storage. -/
def create (cache : κ) (storage : τ) (cacheBlocks : Nat) (hostState : U32) : Engine κ τ where
  cache := cache
  storage := storage
  links := if m.config.slotsPerBlock = 0 then none
    else some (Chain.create (cacheBlocks * m.config.slotsPerBlock))
  leafSites := 0
  stats := {}
  hostState := hostState
  watchLeft := 0
  lastEntry := 0

/-- Every link, when any translation is dropped. -/
def unlinkAll (e : Engine κ τ) : Engine κ τ := { e with links := e.links.map Chain.unlinkAll }

def dropRange (e : Engine κ τ) (lo hi : U32) : Nat × Engine κ τ :=
  let (dropped, cache) := m.cache.invalidateRange e.cache lo hi
  let e := { e with cache := cache, storage := m.storage.invalidate e.storage lo hi }
  (dropped, if dropped = 0 then e else e.unlinkAll)

def invalidate (e : Engine κ τ) (lo hi : U32) : Engine κ τ :=
  let (dropped, e) := dropRange m e lo hi
  { e with stats := { e.stats with
      invalidations := e.stats.invalidations + 1
      invalidationBytes := e.stats.invalidationBytes + (hi - lo).setWidth 64
      invalidationBlocksDropped := e.stats.invalidationBlocksDropped + BitVec.ofNat 64 dropped } }

/-- Every translation dropped and the storage rewound; refused, with the storage as it was, when
the cache still counts a block. -/
def invalidateAll (e : Engine κ τ) : Bool × Engine κ τ :=
  let e := { e with
    cache := m.cache.flush e.cache
    links := e.links.map Chain.reset
    leafSites := 0 }
  if m.cache.count e.cache ≠ 0 then (false, e)
  else
    (true, { e with
      storage := m.storage.reset e.storage
      stats := { e.stats with cacheFlushes := e.stats.cacheFlushes + 1 } })

def perform (e : Engine κ τ) : EngineOp → Engine κ τ
  | .invalidate lo hi => invalidate m e lo hi
  | .invalidateAll => (invalidateAll m e).2

def performAll (e : Engine κ τ) (ops : List EngineOp) : Engine κ τ := ops.foldl (perform m) e

/-! ## Making room -/

/-- The engine's record of a block the storage is evicting. -/
def forgetEvicted (e : Engine κ τ) (range : U32 × U32) : Engine κ τ :=
  let (dropped, cache) := m.cache.invalidateRange e.cache range.1 range.2
  { e with
    cache := cache
    stats := { e.stats with
      evictionBlocksDropped := e.stats.evictionBlocksDropped + BitVec.ofNat 64 dropped } }.unlinkAll

def countEviction (s : EngineStats) (limit : StorageRoom) : EngineStats :=
  let s := { s with evictions := s.evictions + 1 }
  match limit with
  | .outOfBytes => { s with evictionsOutOfBytes := s.evictionsOutOfBytes + 1 }
  | .outOfSlots => { s with evictionsOutOfSlots := s.evictionsOutOfSlots + 1 }
  | _ => { s with evictionsAtEngineLimit := s.evictionsAtEngineLimit + 1 }

/-- One eviction, its drops forgotten, and whether it dropped any. -/
def evictOnce (e : Engine κ τ) (limit : StorageRoom) : Bool × Engine κ τ :=
  let (dropped, told, storage) := m.storage.evict e.storage
  let e := told.foldl (forgetEvicted m) { e with storage := storage }
  if dropped > 0 then (true, { e with stats := countEviction e.stats limit }) else (false, e)

/-- The loop of `evict_for_room`, over so many tests of the room; `none` when they are too few. -/
def evictLoop : Nat → Engine κ τ → Option (Bool × Engine κ τ)
  | tests, e =>
    match m.storage.room e.storage with
    | .room => some (true, e)
    | limit =>
      match tests with
      | 0 => none
      | tests + 1 =>
        let before := m.storage.used e.storage
        let (dropped, e) := evictOnce m e limit
        if dropped && decide (m.storage.used e.storage < before) then evictLoop tests e
        else
          match invalidateAll m e with
          | (false, e) => some (false, e)
          | (true, e) => evictLoop tests e

/-- Whether the next translation could run out of slots. -/
def slotsSpent (e : Engine κ τ) : Bool :=
  match e.links with
  | none => false
  | some c => decide (c.claimed + m.config.slotsPerBlock > c.capacity)

/-- An eviction frees bytes, so there are no more of them than bytes used; a flush is tested
once more, and so is the room found. -/
def evictForRoom (e : Engine κ τ) : Option (Bool × Engine κ τ) :=
  if slotsSpent m e then
    match invalidateAll m e with
    | (false, e) => some (false, e)
    | (true, e) => evictLoop m (m.storage.used e.storage + 2) e
  else evictLoop m (m.storage.used e.storage + 2) e

/-! ## Translating and linking -/

/-- Slots claimed one after the other, as far as there are any. -/
def claimSlots : Nat → Chain Nat → Chain Nat
  | 0, c => c
  | n + 1, c => claimSlots n c.claim.2

/-- How a translation ended: `full` is the null answer with an OK status, after a full cache was
flushed. -/
inductive TranslateEnd where
  | found (exec : Nat)
  | full
  | failed (status : JitStatus)
deriving DecidableEq

/-- A published block put in the cache, and guarded where the embedder may take it over. -/
def cacheBlock (e : Engine κ τ) (w : ω) (eip : U32) (block : JitBlock) (exec : Nat) :
    TranslateEnd × Engine κ τ :=
  match m.cache.insert e.cache eip exec block.guestLen with
  | (false, cache) =>
    match invalidateAll m { e with cache := cache } with
    | (false, e) => (.failed .outOfSpace, e)
    | (true, e) => (.full, e)
  | (true, cache) =>
    let guarded := m.world.runStop.isSome &&
      (m.world.boundary.map fun boundary => boundary w eip).getD false
    let e := if guarded then
        { e with
          cache := m.cache.guard cache eip
          stats := { e.stats with blocksGuarded := e.stats.blocksGuarded + 1 } }
      else { e with cache := cache }
    (.found exec, { e with stats := { e.stats with
      blocksTranslated := e.stats.blocksTranslated + 1
      guestInsnsTranslated := e.stats.guestInsnsTranslated + BitVec.ofNat 64 block.insns
      chainExits := e.stats.chainExits + BitVec.ofNat 64 block.chainExits } })

/-- What the engine makes of the storage's answer; the claims of a translation that failed are
handed back. -/
def finishTranslate (e : Engine κ τ) (w : ω) (eip : U32) (out : Translated) (storage : τ) :
    TranslateEnd × Engine κ τ :=
  match out.result with
  | .error status =>
    (.failed status, { e with
      storage := storage
      links := e.links.map fun c => (claimSlots out.claims c).rewind c.claimed })
  | .ok (block, exec) =>
    cacheBlock m { e with
      storage := storage
      links := e.links.map (claimSlots out.claims)
      leafSites := e.leafSites + out.leafClaims } w eip block exec

def translateAt (e : Engine κ τ) (w : ω) (eip : U32) : Option (TranslateEnd × Engine κ τ) :=
  match evictForRoom m e with
  | none => none
  | some (false, e) => some (.failed .outOfSpace, e)
  | some (true, e) =>
    let (out, storage) := m.storage.translate e.storage (m.world.reads w) eip
      (e.links.map fun c => (c.claimed, c.capacity))
    some (finishTranslate m e w eip out storage)

/-! ## What every part of an operation keeps, the operation keeps -/

section Relation

variable {m} {R : Engine κ τ → Engine κ τ → Prop} (hrefl : ∀ e, R e e)
  (htrans : ∀ {a b c}, R a b → R b c → R a c)

include hrefl htrans

theorem performAll_rel (hperform : ∀ e op, R e (e.perform m op)) (ops : List EngineOp) :
    ∀ e, R e (e.performAll m ops) := by
  induction ops with
  | nil => exact hrefl
  | cons op ops ih => exact fun e => htrans (hperform e op) (ih _)

theorem forgetAll_rel (hforget : ∀ e range, R e (e.forgetEvicted m range))
    (told : List (U32 × U32)) : ∀ e, R e (told.foldl (forgetEvicted m) e) := by
  induction told with
  | nil => exact hrefl
  | cons range told ih => exact fun e => htrans (hforget e range) (ih _)

variable (hall : ∀ e, R e (e.invalidateAll m).2)
  (honce : ∀ e limit, R e (e.evictOnce m limit).2)

include hall honce

theorem evictLoop_rel (tests : Nat) : ∀ {e e' : Engine κ τ} {ok : Bool},
    e.evictLoop m tests = some (ok, e') → R e e' := by
  induction tests with
  | zero =>
    intro e e' ok h
    unfold evictLoop at h
    split at h
    · cases h
      exact hrefl e
    · cases h
  | succ tests ih =>
    intro e e' ok h
    unfold evictLoop at h
    split at h
    · cases h
      exact hrefl e
    · have hone := honce e (m.storage.room e.storage)
      dsimp only at h
      split_ifs at h
      · exact htrans hone (ih h)
      · have hflush := htrans hone (hall (e.evictOnce m (m.storage.room e.storage)).2)
        split at h
        · rename_i flushed hflushed
          rw [hflushed] at hflush
          cases h
          exact hflush
        · rename_i flushed hflushed
          rw [hflushed] at hflush
          exact htrans hflush (ih h)

theorem evictForRoom_rel {e e' : Engine κ τ} {ok : Bool}
    (h : e.evictForRoom m = some (ok, e')) : R e e' := by
  unfold evictForRoom at h
  split_ifs at h
  · have hflush := hall e
    split at h
    · rename_i flushed hflushed
      rw [hflushed] at hflush
      cases h
      exact hflush
    · rename_i flushed hflushed
      rw [hflushed] at hflush
      exact htrans hflush (evictLoop_rel hrefl htrans hall honce _ h)
  · exact evictLoop_rel hrefl htrans hall honce _ h

end Relation

end Engine

/-- The exit that last returned unlinked: one more than its slot, or 0, and the flushes then. -/
structure ChainPending where
  slot : U32
  flushes : U64
deriving DecidableEq

/-! ## A run -/

inductive RunStatus where
  | budget
  | decodeFailed
  | unsupported
  | fetchFault
  | memoryFault
  | divideError
  | interrupt
  | protectionFault
  | boundRange
  | translateFailed
  | outOfCode
  | intercept
deriving DecidableEq

/-- What a run did, in turn. `linked` says how many slots were claimed then; `entered` is a call
with the transfers it made, the slot it named and the address it left for. -/
inductive RunEvent where
  | linked (slot claimed : Nat) (guest : U32) (host : Nat)
  | dispatched
  | retried
  | entered (transfers : Nat) (pending : U32) (left : U32)
deriving DecidableEq

/-- What a run fixes when it begins. -/
structure RunTerms where
  stop : U32
  linking : Bool
  maxSteps : U64

/-- What a run carries from one iteration to the next. -/
structure Locals (ω : Type) where
  world : ω
  eip : U32
  steps : U64
  retries : Nat
  pending : ChainPending

/-- Where an iteration goes, round again or out of the run, with what it did. -/
structure Step (κ τ ω : Type) where
  status : Option RunStatus
  engine : Engine κ τ
  locals : Locals ω
  events : List RunEvent

/-- What the first half of an iteration comes to: the whole of it, or a translation to enter. -/
inductive Prepared (κ τ ω : Type) where
  | done (step : Step κ τ ω)
  | enter (host : Nat) (e : Engine κ τ) (l : Locals ω) (events : List RunEvent)

namespace Machine

variable {κ τ ω μ : Type} (m : Machine κ τ ω μ)

/-- Under the intercept contract the embedder is asked only at guarded blocks. -/
def contract : Bool := m.world.runStop.isSome && !m.config.cacheDisabled

/-- The pending exit's slot filled with the unguarded translation found for `guest`. -/
def linkPending (e : Engine κ τ) (pending : ChainPending) (guest : U32) (host : Nat) :
    Engine κ τ × List RunEvent :=
  match e.links with
  | none => (e, [])
  | some c =>
    if pending.slot = 0 ∨ pending.flushes ≠ e.stats.cacheFlushes ∨
        pending.slot.toNat > c.claimed then (e, [])
    else
      ({ e with
        links := some (c.link (pending.slot.toNat - 1) guest (host + m.config.chainEntry))
        stats := { e.stats with chainLinks := e.stats.chainLinks + 1 } },
        [.linked (pending.slot.toNat - 1) c.claimed guest (host + m.config.chainEntry)])

/-- The unguarded translation of an address that is not the stop. -/
def findUnguarded (t : RunTerms) (e : Engine κ τ) (eip : U32) : Option Nat × Engine κ τ :=
  if m.contract ∧ eip ≠ t.stop then
    let (host, cache) := m.cache.lookupRefusing e.cache eip
    (host, { e with cache := cache })
  else (none, e)

/-- The embedder asked whether it takes the address over, and if so whether the run goes on. -/
def askEmbedder (e : Engine κ τ) (l : Locals ω) : Option (Step κ τ ω) × Engine κ τ × Locals ω :=
  match m.world.intercept with
  | none => (none, e, l)
  | some intercept =>
    let (asked, w) := intercept l.world l.eip
    let e := { e with stats := { e.stats with interceptCalls := e.stats.interceptCalls + 1 } }
    let e := e.performAll m asked.ops
    let l := { l with world := w, eip := asked.eip }
    if asked.yes then
      match m.world.dispatch with
      | none => (some ⟨some .intercept, e, l, []⟩, e, l)
      | some dispatch =>
        let (done, w) := dispatch l.world l.eip
        let e := e.performAll m done.ops
        let l := { l with world := w, eip := done.eip }
        if done.yes then
          (some ⟨none, e, { l with steps := l.steps + 1 }, [.dispatched]⟩, e, l)
        else (some ⟨some .intercept, e, l, []⟩, e, l)
    else (none, e, l)

def findAny (e : Engine κ τ) (eip : U32) : Option Nat × Engine κ τ :=
  if m.config.cacheDisabled then (none, e)
  else
    let (host, cache) := m.cache.lookup e.cache eip
    (host, { e with cache := cache })

/-- The status of a translation that failed for good. -/
def failedStatus : JitStatus → RunStatus
  | .unsupportedAtEntry => .unsupported
  | .fetchFault => .fetchFault
  | .decodeFailed => .decodeFailed
  | .outOfSpace => .outOfCode

/-- A translation made for an address that has none; out of space and a full cache are tried
again once between two blocks. -/
def translateMiss (e : Engine κ τ) (l : Locals ω) : Option (Prepared κ τ ω) :=
  match e.translateAt m l.world l.eip with
  | none => none
  | some (.found exec, e) => some (.enter exec e l [])
  | some (.full, e) | some (.failed .outOfSpace, e) =>
    let l := { l with retries := l.retries + 1 }
    some (.done (if l.retries ≤ 1 then ⟨none, e, l, [.retried]⟩ else ⟨some .outOfCode, e, l, []⟩))
  | some (.failed status, e) =>
    let e := if status = .unsupportedAtEntry then
        { e with stats := { e.stats with translateRefusals := e.stats.translateRefusals + 1 } }
      else e
    some (.done ⟨some (failedStatus status), e, l, []⟩)

/-- No unguarded translation was found: the embedder, the cache, a new translation. -/
def prepareMiss (e : Engine κ τ) (l : Locals ω) : Option (Prepared κ τ ω) :=
  match m.askEmbedder e l with
  | (some step, _, _) => some (.done step)
  | (none, e, l) =>
    match m.findAny e l.eip with
    | (some host, e) => some (.enter host e l [])
    | (none, e) => m.translateMiss e l

/-- An iteration up to the call. -/
def prepare (t : RunTerms) (e : Engine κ τ) (l : Locals ω) : Option (Prepared κ τ ω) :=
  let (host, e) := m.findUnguarded t e l.eip
  let pending := l.pending
  let l := { l with pending := { l.pending with slot := 0 } }
  match host with
  | some host =>
    let (e, events) := if t.linking then m.linkPending e pending l.eip host else (e, [])
    some (.enter host e l events)
  | none => m.prepareMiss e l

/-- The entry reported while the watch has reports left. -/
def watchEntry (e : Engine κ τ) (l : Locals ω) : Engine κ τ × Locals ω :=
  if e.watchLeft ≠ 0 ∧ l.eip = m.config.watchAddr then
    let entered := decide (e.stats.blocksEntered ≠ 0)
    ({ e with watchLeft := e.watchLeft - 1 },
      { l with world :=
          m.world.watch l.world l.eip (if entered then e.lastEntry else 0) entered })
  else (e, l)

/-- One more than the transfers a call may make. -/
def allowed (t : RunTerms) (steps : U64) : U64 :=
  if t.linking then
    if t.maxSteps - steps < m.config.transferLimit then t.maxSteps - steps
    else m.config.transferLimit
  else 1

def setRun (e : Engine κ τ) (run : ChainRun) : Engine κ τ :=
  { e with links := e.links.map fun c => { c with run := run } }

/-- The engine's accounts of a call that made `transfers` transfers. -/
def countCall (e : Engine κ τ) (before last : U32) (transfers : U64) : Engine κ τ :=
  { e with
    lastEntry := if transfers = 0 then before else last
    stats := { e.stats with
      blocksReentered := if e.stats.blocksEntered ≠ 0 ∧ before = e.lastEntry
        then e.stats.blocksReentered + 1 else e.stats.blocksReentered
      blocksEntered := e.stats.blocksEntered + (1 + transfers)
      blocksChained := e.stats.blocksChained + transfers } }

def exitStatus : Option JitExit → Option RunStatus
  | some .blockEnd => none
  | some .memoryFault => some .memoryFault
  | some .unsupported => some .unsupported
  | some .divideError => some .divideError
  | some .interrupt => some .interrupt
  | some .protectionFault => some .protectionFault
  | some .boundRange => some .boundRange
  | none => some .translateFailed

/-- Where the run goes after a call. -/
def leave (e : Engine κ τ) (l : Locals ω) (exit : Option JitExit) (events : List RunEvent) :
    Step κ τ ω :=
  match exitStatus exit with
  | none => ⟨none, e, l, events⟩
  | some status =>
    let e := if status = .unsupported then
        { e with stats := { e.stats with translateRefusals := e.stats.translateRefusals + 1 } }
      else e
    ⟨some status, e, l, events⟩

/-- The call, with the run header set and read where the engine chains. -/
def callBlock (t : RunTerms) (host : Nat) (e : Engine κ τ) (l : Locals ω) :
    Called × U64 × Engine κ τ × Locals ω :=
  match e.links with
  | none =>
    let (called, w) := m.world.call l.world host none l.eip
    (called, 0, e.performAll m called.ops,
      { l with world := w, eip := called.eip })
  | some _ =>
    let allowed := m.allowed t l.steps
    let run : ChainRun := ⟨allowed, t.stop, l.eip, 0⟩
    let (called, w) := m.world.call l.world host (some run) l.eip
    let e := setRun ((setRun e run).performAll m called.ops) called.run
    let pending := if called.run.pending ≠ 0
      then ⟨called.run.pending, e.stats.cacheFlushes⟩ else l.pending
    (called, chainedTransfers called.run allowed, e,
      { l with world := w, eip := called.eip, pending := pending })

/-- An iteration from the call on. -/
def enter (t : RunTerms) (host : Nat) (e : Engine κ τ) (l : Locals ω) : Step κ τ ω :=
  let before := l.eip
  let (e, l) := m.watchEntry e { l with retries := 0 }
  let (called, transfers, e, l) := m.callBlock t host e l
  let e := countCall e before called.run.last transfers
  let l := { l with steps := l.steps + (1 + transfers) }
  let events := [.entered called.transfers called.run.pending called.eip]
  if m.config.cacheDisabled then
    match e.invalidateAll m with
    | (false, e) => ⟨some .outOfCode, e, l, events⟩
    | (true, e) => leave e l called.exit events
  else leave e l called.exit events

def iterate (t : RunTerms) (e : Engine κ τ) (l : Locals ω) : Option (Step κ τ ω) :=
  match m.prepare t e l with
  | none => none
  | some (.done step) => some step
  | some (.enter host e l events) =>
    let step := m.enter t host e l
    some { step with events := events ++ step.events }

/-- How a run ended, with what it did in turn. -/
structure RunResult (κ τ ω : Type) where
  status : RunStatus
  engine : Engine κ τ
  locals : Locals ω
  events : List RunEvent

/-- The loop over so many iterations; `none` when they are too few. -/
def runLoop (t : RunTerms) : Nat → Engine κ τ → Locals ω → Option (RunResult κ τ ω)
  | iterations, e, l =>
    if l.steps < t.maxSteps then
      match iterations with
      | 0 => none
      | iterations + 1 =>
        match m.iterate t e l with
        | none => none
        | some ⟨none, e, l, events⟩ =>
          (runLoop t iterations e l).map fun r => { r with events := events ++ r.events }
        | some ⟨some status, e, l, events⟩ => some ⟨status, e, l, events⟩
    else some ⟨.budget, e, l, []⟩

/-- A run begins by dropping the translations of another host state. -/
def beginRun (e : Engine κ τ) (w : ω) : Bool × Engine κ τ :=
  if m.world.hostState w ≠ e.hostState then
    match e.invalidateAll m with
    | (false, e) => (false, e)
    | (true, e) => (true, { e with hostState := m.world.hostState w })
  else (true, e)

/-- A transfer skips what a dispatched entry does, so it is allowed only where that is nothing. -/
def terms (e : Engine κ τ) (w : ω) (maxSteps : U64) : RunTerms where
  stop := if m.contract then (m.world.runStop.map fun stop => stop w).getD 0 else 0
  linking := m.contract && e.links.isSome && !m.config.profile && !m.config.census &&
    decide (e.watchLeft = 0)
  maxSteps := maxSteps

/-- `x86p_jit_engine_run`. -/
def run (iterations : Nat) (e : Engine κ τ) (w : ω) (eip : U32) (maxSteps : U64) :
    Option (RunResult κ τ ω) :=
  let l : Locals ω := ⟨w, eip, 0, 0, ⟨0, 0⟩⟩
  match m.beginRun e w with
  | (false, e) => some ⟨.outOfCode, e, l, []⟩
  | (true, e) => m.runLoop (m.terms e w maxSteps) iterations e l

end Machine

end X86Port.Jit
